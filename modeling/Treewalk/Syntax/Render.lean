import Treewalk.Syntax
import Treewalk.Text.Listing

/-!
The canonical text of syntax. Operator expressions are parenthesised in full, so
the text shows how precedence was resolved. Strings stand without their quotes,
blocks without their braces, and statements follow each other without a
separator of their own.
-/

namespace Treewalk

mutual

/-- The canonical text of an expression. -/
def Expr.render : Expr → String
  | .name t | .integer t _ | .boolean t _ | .string t => t.literal
  | .prefixed _ op e => "(" ++ op.symbol ++ e.render ++ ")"
  | .binary _ op l r => "(" ++ l.render ++ " " ++ op.symbol ++ " " ++ r.render ++ ")"
  | .conditional _ c b none => "if" ++ c.render ++ " " ++ b.render
  | .conditional _ c b (some alt) =>
      "if" ++ c.render ++ " " ++ b.render ++ "else " ++ alt.render
  | .function t ps b =>
      t.literal ++ "(" ++ Text.listing (ps.map Token.literal) ++ ") " ++ b.render
  | .call _ f args => f.render ++ "(" ++ Text.listing (renderExprs args) ++ ")"
  | .array _ es => "[" ++ Text.listing (renderExprs es) ++ "]"
  | .index _ e i => "(" ++ e.render ++ "[" ++ i.render ++ "])"
  | .hash _ ps => "\x7b" ++ Text.listing (renderPairs ps) ++ "\x7d"
termination_by structural e => e

def Stmt.render : Stmt → String
  | .bind t target e => t.literal ++ " " ++ target.literal ++ " = " ++ e.render ++ ";"
  | .ret t e => t.literal ++ " " ++ e.render ++ ";"
  | .expr _ e => e.render
termination_by structural s => s

def Block.render : Block → String
  | ⟨_, ss⟩ => renderStmts ss
termination_by structural b => b

def renderStmts : List Stmt → String
  | [] => ""
  | s :: ss => s.render ++ renderStmts ss
termination_by structural ss => ss

def renderExprs : List Expr → List String
  | [] => []
  | e :: es => e.render :: renderExprs es
termination_by structural es => es

def renderPairs : List (Expr × Expr) → List String
  | [] => []
  | (k, v) :: ps => (k.render ++ ":" ++ v.render) :: renderPairs ps
termination_by structural ps => ps

end

def Program.render (p : Program) : String :=
  renderStmts p.statements

end Treewalk
