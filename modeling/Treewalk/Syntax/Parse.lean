import Treewalk.Syntax
import Treewalk.Syntax.Cursor
import Treewalk.Syntax.Precedence
import Treewalk.Text.Decimal
import Treewalk.Token.Lexer

/-!
Reading tokens as a program. An expression is an operand followed by operators,
calls and indices that bind tighter than what stands on its left. Reading never
stops at an error: a statement that fails is recorded and skipped, inside a
block as well as at the top, so that one pass reports every independent error
and the other statements remain.

Every rule starts with the cursor on the first token of what it reads, and ends
on the last. The rules call each other to a depth that the number of tokens
bounds; each takes an allowance of nested calls, and `Cursor.allowance` is
enough for all that follows a cursor. The rules are written once, for every monad
that can move a cursor; reading a program is the case of one that does no more.
-/

namespace Treewalk

/-- A rule of the grammar: it moves the cursor and yields syntax, or an error. -/
abbrev Parse := Run Cursor SyntaxError

/-- The integer that a run of digits stands for, if it has 64 bits with a sign. -/
def integerOfDigits? (digits : String) : Option Int64 :=
  let n := Text.Decimal.valueOfDigits digits.toList
  if n ≤ 0x7fffffffffffffff then some (Int64.ofNat n) else none

/-- What the rules of the grammar are written in: a rule moves a cursor, and it may take
note of the place where a statement begins. -/
class MonadGrammar (m : Type → Type) extends Monad m where
  /-- do what is done to the cursor -/
  step {α : Type} : Parse α → m α
  /-- the outcome of a rule, its error included, as a result -/
  outcome {α : Type} : m α → m (Except SyntaxError α)
  /-- no call is left -/
  exhausted {α : Type} : m α
  /-- a statement begins on the cursor -/
  beginning : m Unit

instance : MonadGrammar Parse where
  step p := p
  outcome := Run.outcome
  exhausted := Run.exhausted
  beginning := pure ()

namespace Grammar

open MonadGrammar (step outcome exhausted beginning)

variable {m : Type → Type} [MonadGrammar m]

def cursor : m Cursor :=
  step Run.state

def current : m Token :=
  step fun c => some (.ok c.current, c)

def nextIs (kind : TokenKind) : m Bool :=
  step fun c => some (.ok (c.upcoming.kind == kind), c)

def advance : m Unit :=
  step (Run.update Cursor.advance)

/-- Move on to the next token, which has to be of this kind. -/
def expectNext (kind : TokenKind) : m Unit :=
  step fun c =>
    if c.upcoming.kind = kind then
      some (.ok (), c.advance)
    else
      some (.error (.unexpected kind c.upcoming.kind), c)

/-- Move on if the next token is a semicolon. -/
def optionalSemicolon : m Unit := do
  if ← nextIs .semicolon then
    advance

def fail {α : Type} (e : SyntaxError) : m α :=
  step (Run.fail e)

def record (e : SyntaxError) : m Unit :=
  step (Run.update (Cursor.record e))

/-- Skip the rest of a failed statement that began with `base` braces open. -/
def recover (base : Int) : m Bool :=
  step (Run.updateGet (Cursor.recover base))

/-- The names after the first in a list of parameters. -/
def moreParameters : Nat → m (List Token)
  | 0 => exhausted
  | n + 1 => do
      if ← nextIs .comma then
        advance
        expectNext .ident
        let name ← current
        return name :: (← moreParameters n)
      else
        return []

/-- The names between the parentheses of a function literal. -/
def parameters (n : Nat) : m (List Token) := do
  if ← nextIs .rparen then
    advance
    return []
  else
    expectNext .ident
    let name ← current
    let names ← moreParameters n
    expectNext .rparen
    return name :: names

mutual

/-- An expression whose operators all bind tighter than the given precedence. -/
def expression : Nat → Precedence → m Expr
  | 0, _ => exhausted
  | n + 1, p => do
      let left ← operand n
      operators n p left

/-- The operators, calls and indices that follow an expression. -/
def operators : Nat → Precedence → Expr → m Expr
  | 0, _, _ => exhausted
  | n + 1, p, left => do
      let c ← cursor
      if p.weaker (.ofKind c.upcoming.kind) then
        advance
        let longer ← extend n left
        operators n p longer
      else
        return left

/-- One operator, call or index, applied to the expression on its left. -/
def extend : Nat → Expr → m Expr
  | 0, _ => exhausted
  | n + 1, left => do
      let t ← current
      match t.kind with
      | .lparen =>
          let args ← expressions n .rparen
          return .call t left args
      | .lbracket =>
          advance
          let position ← expression n .lowest
          expectNext .rbracket
          return .index t left position
      | kind =>
          match InfixOp.ofKind? kind with
          | some op =>
              advance
              let right ← expression n (.ofKind kind)
              return .binary t op left right
          | none => return left

/-- What an operator can be applied to. -/
def operand : Nat → m Expr
  | 0 => exhausted
  | n + 1 => do
      let t ← current
      match t.kind with
      | .ident => return .name t
      | .int =>
          match integerOfDigits? t.literal with
          | some value => return .integer t value
          | none => fail (.integerOutOfRange t.literal)
      | .string => return .string t
      | .trueWord => return .boolean t true
      | .falseWord => return .boolean t false
      | .bang =>
          advance
          let e ← expression n .prefixed
          return .prefixed t .not e
      | .minus =>
          advance
          let e ← expression n .prefixed
          return .prefixed t .negate e
      | .lparen =>
          advance
          let e ← expression n .lowest
          expectNext .rparen
          return e
      | .ifWord =>
          expectNext .lparen
          advance
          let condition ← expression n .lowest
          expectNext .rparen
          expectNext .lbrace
          let consequence ← block n
          if ← nextIs .elseWord then
            advance
            expectNext .lbrace
            let alternative ← block n
            return .conditional t condition consequence (some alternative)
          else
            return .conditional t condition consequence none
      | .functionWord =>
          expectNext .lparen
          let names ← parameters n
          expectNext .lbrace
          let body ← block n
          return .function t names body
      | .lbracket =>
          let elements ← expressions n .rbracket
          return .array t elements
      | .lbrace =>
          let entries ← pairs n
          return .hash t entries
      | kind => fail (.noExpression kind)

/-- Expressions separated by commas, up to the given closing bracket. -/
def expressions : Nat → TokenKind → m (List Expr)
  | 0, _ => exhausted
  | n + 1, close => do
      if ← nextIs close then
        advance
        return []
      else
        advance
        let first ← expression n .lowest
        let rest ← moreExpressions n
        expectNext close
        return first :: rest

/-- The expressions after the first in a list, each after a comma. -/
def moreExpressions : Nat → m (List Expr)
  | 0 => exhausted
  | n + 1 => do
      if ← nextIs .comma then
        advance
        advance
        let first ← expression n .lowest
        let rest ← moreExpressions n
        return first :: rest
      else
        return []

/-- The pairs of a hash up to its closing brace; a comma may follow the last. -/
def pairs : Nat → m (List (Expr × Expr))
  | 0 => exhausted
  | n + 1 => do
      if ← nextIs .rbrace then
        advance
        return []
      else
        advance
        let key ← expression n .lowest
        expectNext .colon
        advance
        let value ← expression n .lowest
        if ← nextIs .rbrace then
          let rest ← pairs n
          return (key, value) :: rest
        else
          expectNext .comma
          let rest ← pairs n
          return (key, value) :: rest

/-- A block in braces. It has to be closed before the end. -/
def block : Nat → m Block
  | 0 => exhausted
  | n + 1 => do
      let t ← current
      advance
      let statements ← blockStatements n
      let last ← current
      if last.kind = .eof then
        fail (.unexpected .rbrace .eof)
      else
        return ⟨t, statements⟩

/-- The statements of a block up to its closing brace. One that fails is
recorded and left out. -/
def blockStatements : Nat → m (List Stmt)
  | 0 => exhausted
  | n + 1 => do
      let c ← cursor
      if c.current.kind = .rbrace ∨ c.current.kind = .eof then
        return []
      else
        match ← outcome (statement n) with
        | .ok s =>
            advance
            let rest ← blockStatements n
            return s :: rest
        | .error e =>
            record e
            if ← recover c.depthBefore then
              return []
            else
              advance
              blockStatements n

/-- A statement with the semicolon after it, if there is one. -/
def statement : Nat → m Stmt
  | 0 => exhausted
  | n + 1 => do
      beginning
      let t ← current
      match t.kind with
      | .letWord =>
          expectNext .ident
          let target ← current
          expectNext .assign
          advance
          let value ← expression n .lowest
          optionalSemicolon
          return .bind t target value
      | .returnWord =>
          advance
          let value ← expression n .lowest
          optionalSemicolon
          return .ret t value
      | _ =>
          let value ← expression n .lowest
          optionalSemicolon
          return .expr t value

end

/-- The statements up to the end. One that fails is recorded and left out. -/
def programStatements : Nat → m (List Stmt)
  | 0 => exhausted
  | n + 1 => do
      let c ← cursor
      if c.current.kind = .eof then
        return []
      else
        match ← outcome (statement n) with
        | .ok s =>
            advance
            let rest ← programStatements n
            return s :: rest
        | .error e =>
            record e
            let _ ← recover c.depthBefore
            advance
            programStatements n

end Grammar

namespace Parse

abbrev parameters (n : Nat) : Parse (List Token) := Grammar.parameters n

abbrev moreParameters (n : Nat) : Parse (List Token) := Grammar.moreParameters n

abbrev expression (n : Nat) (p : Precedence) : Parse Expr := Grammar.expression n p

abbrev operators (n : Nat) (p : Precedence) (left : Expr) : Parse Expr :=
  Grammar.operators n p left

abbrev extend (n : Nat) (left : Expr) : Parse Expr := Grammar.extend n left

abbrev operand (n : Nat) : Parse Expr := Grammar.operand n

abbrev expressions (n : Nat) (close : TokenKind) : Parse (List Expr) :=
  Grammar.expressions n close

abbrev moreExpressions (n : Nat) : Parse (List Expr) := Grammar.moreExpressions n

abbrev pairs (n : Nat) : Parse (List (Expr × Expr)) := Grammar.pairs n

abbrev block (n : Nat) : Parse Block := Grammar.block n

abbrev blockStatements (n : Nat) : Parse (List Stmt) := Grammar.blockStatements n

abbrev statement (n : Nat) : Parse Stmt := Grammar.statement n

abbrev programStatements (n : Nat) : Parse (List Stmt) := Grammar.programStatements n

end Parse

namespace Cursor

/-- Nested calls enough to read whatever follows the cursor. -/
def allowance (c : Cursor) : Nat :=
  8 * c.tokens.length + 8

/-- Read an expression whose operators all bind tighter than the given
precedence. The cursor ends on its last token, or where reading failed. -/
def readExpression (p : Precedence) (c : Cursor) : Except SyntaxError Expr × Cursor :=
  match Parse.expression c.allowance p c with
  | some (result, after) => (result, after)
  | none => (.error (.noExpression c.current.kind), c)

def readProgram (c : Cursor) : Program × Cursor :=
  match Parse.programStatements c.allowance c with
  | some (.ok statements, after) => (⟨statements⟩, after)
  | some (.error _, after) => (⟨[]⟩, after)
  | none => (⟨[]⟩, c)

end Cursor

namespace Program

/-- The program that tokens make up, and every error found on the way. With
errors it is made of the statements that could be read. -/
def ofTokens (tokens : List Token) : Program × List SyntaxError :=
  match (Cursor.start tokens).readProgram with
  | (program, after) => (program, after.errors)

/-- The program that a text holds, and every error found on the way. -/
def ofText (source : String) : Program × List SyntaxError :=
  ofTokens (Token.scan source)

end Program
end Treewalk
