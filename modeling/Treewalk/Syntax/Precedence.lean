import Treewalk.Token

/-!
How tightly operators bind. Calls and indices bind tighter than prefix
operators, these tighter than products, sums, comparisons and equations.
-/

namespace Treewalk

/-- How tightly an operator binds, the weakest first. -/
inductive Precedence where
  | lowest
  | equation
  | comparison
  | sum
  | product
  | prefixed
  | call
  | index
deriving DecidableEq

namespace Precedence

/-- The place in the order, from the weakest. -/
def rank : Precedence → Nat
  | lowest => 0
  | equation => 1
  | comparison => 2
  | sum => 3
  | product => 4
  | prefixed => 5
  | call => 6
  | index => 7

/-- How tightly a token of this kind binds to the expression on its left. What
continues no expression binds least. -/
def ofKind : TokenKind → Precedence
  | .eq | .notEq => equation
  | .lt | .gt => comparison
  | .plus | .minus => sum
  | .asterisk | .slash => product
  | .lparen => call
  | .lbracket => index
  | _ => lowest

/-- One precedence binds less tightly than another. -/
def weaker (p q : Precedence) : Bool :=
  p.rank < q.rank

end Precedence
end Treewalk
