/-!
Texts as JSON strings. Quotes, backslashes and the control characters below the
space are escaped, five of those by a letter and the others by number; all other
characters stand as they are.
-/

namespace Treewalk
namespace Text

/-- A digit of a number to the base sixteen. -/
def hexDigit (n : Nat) : Char :=
  Nat.digitChar (n % 16)

/-- A character as it stands in a JSON string. -/
def jsonChar (c : Char) : List Char :=
  match c with
  | '"' => ['\\', '"']
  | '\\' => ['\\', '\\']
  | '\x08' => ['\\', 'b']
  | '\x0c' => ['\\', 'f']
  | '\n' => ['\\', 'n']
  | '\r' => ['\\', 'r']
  | '\t' => ['\\', 't']
  | _ =>
      if c.toNat < 0x20 then
        ['\\', 'u', '0', '0', hexDigit (c.toNat / 16), hexDigit c.toNat]
      else [c]

/-- The characters of a text as they stand in a JSON string. -/
def jsonChars : List Char → List Char
  | [] => []
  | c :: cs => jsonChar c ++ jsonChars cs

/-- A text as a JSON string, quotes included. -/
def jsonString (text : String) : String :=
  "\"" ++ String.ofList (jsonChars text.toList) ++ "\""

end Text
end Treewalk
