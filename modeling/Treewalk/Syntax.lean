import Treewalk.Token

/-!
The syntax of the language. A program is a list of statements; statements hold
expressions, and conditionals and function literals hold blocks of statements
again. Every node keeps the token that introduced it: the operator of an infix
expression, the opening bracket of a call, an index, an array or a hash. A name
or a string has no other content than its token.
-/

namespace Treewalk

/-- The operators written before their operand. -/
inductive PrefixOp where
  | not
  | negate
deriving DecidableEq

/-- The operators written between their operands. -/
inductive InfixOp where
  | add
  | subtract
  | multiply
  | divide
  | less
  | greater
  | equal
  | unequal
deriving DecidableEq

namespace PrefixOp

def symbol : PrefixOp → String
  | not => "!"
  | negate => "-"

def ofKind? : TokenKind → Option PrefixOp
  | .bang => some not
  | .minus => some negate
  | _ => none

end PrefixOp

namespace InfixOp

def symbol : InfixOp → String
  | add => "+"
  | subtract => "-"
  | multiply => "*"
  | divide => "/"
  | less => "<"
  | greater => ">"
  | equal => "=="
  | unequal => "!="

def ofKind? : TokenKind → Option InfixOp
  | .plus => some add
  | .minus => some subtract
  | .asterisk => some multiply
  | .slash => some divide
  | .lt => some less
  | .gt => some greater
  | .eq => some equal
  | .notEq => some unequal
  | _ => none

end InfixOp

mutual

inductive Expr where
  | name (token : Token)
  | integer (token : Token) (value : Int64)
  | boolean (token : Token) (value : Bool)
  | string (token : Token)
  | prefixed (token : Token) (op : PrefixOp) (operand : Expr)
  | binary (token : Token) (op : InfixOp) (left right : Expr)
  | conditional (token : Token) (condition : Expr) (consequence : Block)
      (alternative : Option Block)
  | function (token : Token) (parameters : List Token) (body : Block)
  | call (token : Token) (callee : Expr) (arguments : List Expr)
  | array (token : Token) (elements : List Expr)
  | index (token : Token) (collection : Expr) (position : Expr)
  | hash (token : Token) (pairs : List (Expr × Expr))

/-- A statement: a binding, a return, or an expression by itself. -/
inductive Stmt where
  | bind (token : Token) (target : Token) (value : Expr)
  | ret (token : Token) (value : Expr)
  | expr (token : Token) (value : Expr)

/-- Statements in braces, with the opening brace. -/
structure Block where
  token : Token
  statements : List Stmt

end

/-- A program: its statements in order. -/
structure Program where
  statements : List Stmt

namespace Expr

/-- The token that introduced the expression. -/
def token : Expr → Token
  | name t | integer t _ | boolean t _ | string t | prefixed t _ _ | binary t _ _ _
  | conditional t _ _ _ | function t _ _ | call t _ _ | array t _ | index t _ _ | hash t _ => t

end Expr

namespace Stmt

def token : Stmt → Token
  | bind t _ _ | ret t _ | expr t _ => t

def value : Stmt → Expr
  | bind _ _ e | ret _ e | expr _ e => e

end Stmt

namespace Program

/-- The literal of the token that starts the program, empty for no statement. -/
def tokenLiteral (p : Program) : String :=
  match p.statements with
  | [] => ""
  | s :: _ => s.token.literal

end Program
end Treewalk
