import Treewalk.Evaluation
import Treewalk.Syntax.Parse
import Treewalk.Token.Listing

/-!
Sessions. A session takes chunks of source text one after another and answers
each by what its mode asks for: the listing of the tokens, the canonical text of
the program, or the result of running it. Chunks share the machine, so that a
chunk sees what earlier ones have bound.
-/

namespace Treewalk

inductive Mode where
  | eval
  | parse
  | lex
deriving DecidableEq

/-- How a chunk turned out. -/
inductive Outcome where
  | success
  /-- it has errors of syntax, and nothing was run -/
  | syntaxErrors
  /-- running it ended in an error -/
  | runtimeError
deriving DecidableEq

structure Session where
  mode : Mode
  context : Context
  /-- whether a picture stands above errors of syntax -/
  banner : Bool
  /-- how a token is written in a listing -/
  encode : Token → String

/-- The answer to a chunk: how it turned out, and what is written. What the
program itself prints goes to the machine. -/
structure Response where
  outcome : Outcome
  written : String

namespace Session

def face : String :=
  Text.lines
    ["            __,__",
      "   .--.  .-\"     \"-.  .--.",
      "  / .. \\/  .-. .-.  \\/ .. \\",
      " | |  '|  /   Y   \\  |'  | |",
      " | \\   \\  \\ 0 | 0 /  /   / |",
      "  \\ '- ,\\.-\"\"\"\"\"\"\"-./, -' /",
      "   ''-' /_   ^ ^   _\\ '-''",
      "       |  \\._   _./  |",
      "       \\   \\ '~' /   /",
      "        '._ '-=-' _.'",
      "           '-----'"]

/-- What stands above errors of syntax, if it is wanted. -/
def heading (s : Session) : String :=
  if s.banner then
    face ++ "Woops! We ran into some monkey business here!\n parser errors:\n"
  else ""

/-- The errors of syntax as they are written: each on a line, after a tab. -/
def errorReport (s : Session) (errors : List SyntaxError) : String :=
  s.heading ++ Text.lines (errors.map fun e => "\t" ++ e.message)

/-- Whether the last statement of a program is a binding. -/
def endsInBinding (p : Program) : Bool :=
  match p.statements.getLast? with
  | some (.bind _ _ _) => true
  | _ => false

/-- The answer to a program that was run: its result, unless that is the mere
fact of a last binding. -/
def answer (p : Program) (value : Value) : Response :=
  ⟨if value.isError then .runtimeError else .success,
    if value.isError || !endsInBinding p then value.inspect ++ "\n" else ""⟩

/-- Answer a chunk. There is no answer if running it nests calls beyond the
allowance. -/
def run (s : Session) (source : String) (m : Machine) : Option (Response × Machine) :=
  match s.mode with
  | .lex => some (⟨.success, Token.listing s.encode (Token.scan source)⟩, m)
  | .parse =>
      match Program.ofText source with
      | (p, []) => some (⟨.success, p.render ++ "\n"⟩, m)
      | (_, errors) => some (⟨.syntaxErrors, s.errorReport errors⟩, m)
  | .eval =>
      match Program.ofText source with
      | (p, []) =>
          match p.run s.context m with
          | some (value, after) => some (answer p value, after)
          | none => none
      | (_, errors) => some (⟨.syntaxErrors, s.errorReport errors⟩, m)

end Session
end Treewalk
