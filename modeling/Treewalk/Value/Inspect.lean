import Treewalk.Syntax.Render
import Treewalk.Text.Decimal
import Treewalk.Text.Quoted
import Treewalk.Value

/-!
The text of a value, in two forms. The inspect text is what a program prints; in
the quoted text strings stand in quotes, so that a string and a number cannot be
taken for each other, and a builtin shows its name.
-/

namespace Treewalk

def booleanText (b : Bool) : String :=
  if b then "true" else "false"

namespace HashKey

def inspect : HashKey → String
  | integer n => Text.Decimal.ofInt n.toInt
  | boolean b => booleanText b
  | string s => s

def quoted : HashKey → String
  | integer n => Text.Decimal.ofInt n.toInt
  | boolean b => booleanText b
  | string s => Text.quote s

end HashKey

namespace Function

/-- The text of a function: its parameters, and its body between braces. -/
def inspect (f : Function) : String :=
  "fn(" ++ Text.listing f.parameters ++ ") \x7b\n" ++ f.body.render ++ "\n\x7d"

end Function

mutual

def Value.inspect : Value → String
  | .integer n => Text.Decimal.ofInt n.toInt
  | .boolean b => booleanText b
  | .string s => s
  | .null => "null"
  | .array items => "[" ++ Text.listing (inspectItems items) ++ "]"
  | .hash entries => "\x7b" ++ Text.listing (inspectEntries entries) ++ "\x7d"
  | .function f => f.inspect
  | .builtin _ => "builtin function"
  | .error message => "ERROR: " ++ message
termination_by structural v => v

def inspectItems : List Value → List String
  | [] => []
  | v :: vs => v.inspect :: inspectItems vs
termination_by structural vs => vs

def inspectEntries : List (HashKey × Value) → List String
  | [] => []
  | (k, v) :: es => (k.inspect ++ ": " ++ v.inspect) :: inspectEntries es
termination_by structural es => es

end

mutual

def Value.quoted : Value → String
  | .integer n => Text.Decimal.ofInt n.toInt
  | .boolean b => booleanText b
  | .string s => Text.quote s
  | .null => "null"
  | .array items => "[" ++ Text.listing (quotedItems items) ++ "]"
  | .hash entries => "\x7b" ++ Text.listing (quotedEntries entries) ++ "\x7d"
  | .function f => f.inspect
  | .builtin b => "<builtin " ++ b.name ++ ">"
  | .error message => "ERROR: " ++ message
termination_by structural v => v

def quotedItems : List Value → List String
  | [] => []
  | v :: vs => v.quoted :: quotedItems vs
termination_by structural vs => vs

def quotedEntries : List (HashKey × Value) → List String
  | [] => []
  | (k, v) :: es => (k.quoted ++ ": " ++ v.quoted) :: quotedEntries es
termination_by structural es => es

end

end Treewalk
