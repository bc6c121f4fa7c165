import Treewalk.Run
import Treewalk.Syntax.Error

/-!
The place a reader of tokens has reached. A cursor stands on a token and sees
the one after it; it counts the braces that are open and collects the errors
found so far. Past the last token it stands on the end for good. After an error
the cursor skips ahead to where the next statement starts.
-/

namespace Treewalk

/-- What a token adds to the number of open braces. -/
def TokenKind.braceWeight : TokenKind → Int
  | .lbrace => 1
  | .rbrace => -1
  | _ => 0

/-- A place in a list of tokens. -/
structure Cursor where
  /-- the token the cursor stands on and those after it -/
  tokens : List Token
  /-- braces opened less braces closed, the current token included -/
  depth : Int
  /-- the errors recorded so far, in order -/
  errors : List SyntaxError

namespace Cursor

def current (c : Cursor) : Token :=
  c.tokens.headD .eof

def upcoming (c : Cursor) : Token :=
  c.tokens.tail.headD .eof

/-- The cursor at the start of a list of tokens. -/
def start (tokens : List Token) : Cursor :=
  ⟨tokens, (tokens.headD .eof).kind.braceWeight, []⟩

def advance (c : Cursor) : Cursor :=
  { c with tokens := c.tokens.tail, depth := c.depth + c.upcoming.kind.braceWeight }

/-- The number of open braces just before the current token. -/
def depthBefore (c : Cursor) : Int :=
  c.depth - c.current.kind.braceWeight

def record (e : SyntaxError) (c : Cursor) : Cursor :=
  { c with errors := c.errors ++ [e] }

/-- Skip the rest of a statement that began with `base` braces open. The walk
ends on a semicolon at that depth, or just before the brace that closes the
enclosing block, or before the end; braces opened on the way are skipped whole.
The answer is true if the walk starts beyond that closing brace, which happens
when the brace itself was out of place; then nothing is skipped. -/
def skipStatement (base : Int) : Int → List Token → Bool × Int × List Token
  | depth, [] => (decide (depth < base), depth, [])
  | depth, [t] => (decide (depth < base), depth, [t])
  | depth, t :: u :: rest =>
      if depth < base then
        (true, depth, t :: u :: rest)
      else if depth = base ∧ (t.kind = .semicolon ∨ u.kind = .rbrace) then
        (false, depth, t :: u :: rest)
      else
        skipStatement base (depth + u.kind.braceWeight) (u :: rest)

/-- Skip the rest of a failed statement that began with `base` braces open, and
tell whether the cursor is already on the brace that closes its block. -/
def recover (base : Int) (c : Cursor) : Bool × Cursor :=
  match skipStatement base c.depth c.tokens with
  | (closed, depth, tokens) => (closed, { c with tokens, depth })

@[simp] theorem current_cons (t : Token) (ts : List Token) (d : Int) (es : List SyntaxError) :
    current ⟨t :: ts, d, es⟩ = t := rfl

@[simp] theorem tokens_advance (c : Cursor) : c.advance.tokens = c.tokens.tail := rfl

@[simp] theorem errors_advance (c : Cursor) : c.advance.errors = c.errors := rfl

@[simp] theorem errors_record (e : SyntaxError) (c : Cursor) :
    (c.record e).errors = c.errors ++ [e] := rfl

@[simp] theorem errors_recover (base : Int) (c : Cursor) :
    (c.recover base).2.errors = c.errors := rfl

/-- The number of open braces before the cursor does not change where it moves. -/
theorem depthBefore_advance (c : Cursor) : c.advance.depthBefore = c.depth := by
  simp [depthBefore, advance, current, upcoming]

end Cursor
end Treewalk
