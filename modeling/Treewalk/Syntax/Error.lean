import Treewalk.Token

/-!
What can be wrong with the syntax of a program, and how it is said.
-/

namespace Treewalk

/-- A fault in the syntax of a program. -/
inductive SyntaxError where
  /-- the next token is not the one that has to stand there -/
  | unexpected (expected found : TokenKind)
  /-- no expression starts with a token of this kind -/
  | noExpression (found : TokenKind)
  /-- an integer literal beyond the range of integers -/
  | integerOutOfRange (literal : String)
deriving DecidableEq

namespace SyntaxError

def message : SyntaxError → String
  | unexpected expected found =>
      "expected next token to be " ++ expected.describe ++ ", got " ++ found.describe ++
        " instead"
  | noExpression found => "no prefix parse function for " ++ found.describe ++ " found"
  | integerOutOfRange literal => "could not parse \"" ++ literal ++ "\" as integer"

end SyntaxError
end Treewalk
