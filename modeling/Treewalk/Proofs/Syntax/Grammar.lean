import Treewalk.Syntax.Parse

/-!
The grammar of the language: which tokens are a printing of a program. Where an
expression stands inside another, its place asks it to bind tightly enough: an operand
of an infix operator at least at the level of that operator, and above it on the right;
an operand of a prefix operator above all infix operators; what is called or indexed
above all operators. What binds less tightly has to stand in parentheses, and anything
may stand in them.
-/

namespace Treewalk

/-- How tightly the operator binds. -/
def InfixOp.level : InfixOp → Nat
  | .equal | .unequal => 1
  | .less | .greater => 2
  | .add | .subtract => 3
  | .multiply | .divide => 4

def Expr.anyLevel : Nat := 1

def Expr.prefixLevel : Nat := 5

/-- The place of what is called or indexed. -/
def Expr.tightLevel : Nat := 6

/-- A token that goes on with the expression before it. -/
def Token.Continues (t : Token) : Prop :=
  (InfixOp.ofKind? t.kind).isSome ∨ t.kind = .lparen ∨ t.kind = .lbracket

/-- Names behind the first in a list of parameters. -/
inductive Token.MoreNames : List Token → List Token → Prop where
  | nil : Token.MoreNames [] []
  | cons {comma name : Token} {names ts : List Token} (hcomma : comma.kind = .comma)
      (hname : name.kind = .ident) (more : Token.MoreNames names ts) :
      Token.MoreNames (name :: names) (comma :: name :: ts)

/-- A list of parameters. -/
inductive Token.Names : List Token → List Token → Prop where
  | nil : Token.Names [] []
  | cons {name : Token} {names ts : List Token} (hname : name.kind = .ident)
      (more : Token.MoreNames names ts) : Token.Names (name :: names) (name :: ts)

mutual

/-- The tokens are a printing of the expression in a place of level `k`. -/
inductive Expr.Printing : Nat → Expr → List Token → Prop where
  | name {k : Nat} {t : Token} (ht : t.kind = .ident) : Expr.Printing k (.name t) [t]
  | integer {k : Nat} {t : Token} {n : Int64} (ht : t.kind = .int)
      (hn : integerOfDigits? t.literal = some n) : Expr.Printing k (.integer t n) [t]
  | yes {k : Nat} {t : Token} (ht : t.kind = .trueWord) : Expr.Printing k (.boolean t true) [t]
  | no {k : Nat} {t : Token} (ht : t.kind = .falseWord) : Expr.Printing k (.boolean t false) [t]
  | string {k : Nat} {t : Token} (ht : t.kind = .string) : Expr.Printing k (.string t) [t]
  | prefixed {k : Nat} {t : Token} {op : PrefixOp} {e : Expr} {ts : List Token}
      (hop : PrefixOp.ofKind? t.kind = some op) (hk : k ≤ Expr.prefixLevel)
      (operand : Expr.Printing Expr.prefixLevel e ts) :
      Expr.Printing k (.prefixed t op e) (t :: ts)
  | binary {k : Nat} {t : Token} {op : InfixOp} {left right : Expr} {ls rs : List Token}
      (hop : InfixOp.ofKind? t.kind = some op) (hk : k ≤ op.level)
      (hleft : Expr.Printing op.level left ls)
      (hright : Expr.Printing (op.level + 1) right rs) :
      Expr.Printing k (.binary t op left right) (ls ++ t :: rs)
  | conditional {k : Nat} {t opening closing : Token} {condition : Expr} {consequence : Block}
      {cs bs : List Token} (ht : t.kind = .ifWord) (hopening : opening.kind = .lparen)
      (hcondition : Expr.Printing Expr.anyLevel condition cs) (hclosing : closing.kind = .rparen)
      (hconsequence : Block.Printing consequence bs) :
      Expr.Printing k (.conditional t condition consequence none)
        (t :: opening :: (cs ++ closing :: bs))
  | alternative {k : Nat} {t opening closing other : Token} {condition : Expr}
      {consequence alternative : Block} {cs bs as : List Token} (ht : t.kind = .ifWord)
      (hopening : opening.kind = .lparen)
      (hcondition : Expr.Printing Expr.anyLevel condition cs) (hclosing : closing.kind = .rparen)
      (hconsequence : Block.Printing consequence bs) (hother : other.kind = .elseWord)
      (halternative : Block.Printing alternative as) :
      Expr.Printing k (.conditional t condition consequence (some alternative))
        (t :: opening :: (cs ++ closing :: (bs ++ other :: as)))
  | function {k : Nat} {t opening closing : Token} {names : List Token} {body : Block}
      {ns bs : List Token} (ht : t.kind = .functionWord) (hopening : opening.kind = .lparen)
      (hnames : Token.Names names ns) (hclosing : closing.kind = .rparen)
      (hbody : Block.Printing body bs) :
      Expr.Printing k (.function t names body) (t :: opening :: (ns ++ closing :: bs))
  | call {k : Nat} {t closing : Token} {callee : Expr} {args : List Expr} {fs as : List Token}
      (hcallee : Expr.Printing Expr.tightLevel callee fs) (ht : t.kind = .lparen)
      (hargs : Expr.Listing args as) (hclosing : closing.kind = .rparen) :
      Expr.Printing k (.call t callee args) (fs ++ t :: (as ++ [closing]))
  | array {k : Nat} {t closing : Token} {elements : List Expr} {ts : List Token}
      (ht : t.kind = .lbracket) (helements : Expr.Listing elements ts)
      (hclosing : closing.kind = .rbracket) :
      Expr.Printing k (.array t elements) (t :: (ts ++ [closing]))
  | index {k : Nat} {t closing : Token} {collection position : Expr} {cs ps : List Token}
      (hcollection : Expr.Printing Expr.tightLevel collection cs) (ht : t.kind = .lbracket)
      (hposition : Expr.Printing Expr.anyLevel position ps) (hclosing : closing.kind = .rbracket) :
      Expr.Printing k (.index t collection position) (cs ++ t :: (ps ++ [closing]))
  | hash {k : Nat} {t closing : Token} {pairs : List (Expr × Expr)} {ts : List Token}
      (ht : t.kind = .lbrace) (hpairs : Expr.PairListing pairs ts)
      (hclosing : closing.kind = .rbrace) :
      Expr.Printing k (.hash t pairs) (t :: (ts ++ [closing]))
  | parenthesized {k : Nat} {opening closing : Token} {e : Expr} {ts : List Token}
      (hopening : opening.kind = .lparen) (inside : Expr.Printing Expr.anyLevel e ts)
      (hclosing : closing.kind = .rparen) : Expr.Printing k e (opening :: (ts ++ [closing]))

/-- Expressions separated by commas. -/
inductive Expr.Listing : List Expr → List Token → Prop where
  | nil : Expr.Listing [] []
  | cons {e : Expr} {es : List Expr} {ts ms : List Token}
      (first : Expr.Printing Expr.anyLevel e ts) (more : Expr.MoreListing es ms) :
      Expr.Listing (e :: es) (ts ++ ms)

/-- Expressions with a comma before each. -/
inductive Expr.MoreListing : List Expr → List Token → Prop where
  | nil : Expr.MoreListing [] []
  | cons {comma : Token} {e : Expr} {es : List Expr} {ts ms : List Token}
      (hcomma : comma.kind = .comma) (first : Expr.Printing Expr.anyLevel e ts)
      (more : Expr.MoreListing es ms) : Expr.MoreListing (e :: es) (comma :: (ts ++ ms))

/-- Pairs separated by commas; a comma may follow the last. -/
inductive Expr.PairListing : List (Expr × Expr) → List Token → Prop where
  | nil : Expr.PairListing [] []
  | last {colon : Token} {key value : Expr} {ks vs : List Token}
      (hkey : Expr.Printing Expr.anyLevel key ks) (hcolon : colon.kind = .colon)
      (hvalue : Expr.Printing Expr.anyLevel value vs) :
      Expr.PairListing [(key, value)] (ks ++ colon :: vs)
  | cons {colon comma : Token} {key value : Expr} {pairs : List (Expr × Expr)}
      {ks vs ps : List Token} (hkey : Expr.Printing Expr.anyLevel key ks)
      (hcolon : colon.kind = .colon) (hvalue : Expr.Printing Expr.anyLevel value vs)
      (hcomma : comma.kind = .comma) (more : Expr.PairListing pairs ps) :
      Expr.PairListing ((key, value) :: pairs) (ks ++ colon :: (vs ++ comma :: ps))

/-- Statements in braces. -/
inductive Block.Printing : Block → List Token → Prop where
  | braces {opening closing : Token} {statements : List Stmt} {ts : List Token}
      (hopening : opening.kind = .lbrace) (inside : Stmt.Sequence statements ts)
      (hclosing : closing.kind = .rbrace) :
      Block.Printing ⟨opening, statements⟩ (opening :: (ts ++ [closing]))

/-- The tokens are a printing of the statement, without a semicolon behind it. -/
inductive Stmt.Printing : Stmt → List Token → Prop where
  | bind {t target assign : Token} {value : Expr} {ts : List Token} (ht : t.kind = .letWord)
      (htarget : target.kind = .ident) (hassign : assign.kind = .assign)
      (hvalue : Expr.Printing Expr.anyLevel value ts) :
      Stmt.Printing (.bind t target value) (t :: target :: assign :: ts)
  | ret {t : Token} {value : Expr} {ts : List Token} (ht : t.kind = .returnWord)
      (hvalue : Expr.Printing Expr.anyLevel value ts) : Stmt.Printing (.ret t value) (t :: ts)
  | expr {t : Token} {value : Expr} {ts : List Token}
      (hvalue : Expr.Printing Expr.anyLevel value (t :: ts)) :
      Stmt.Printing (.expr t value) (t :: ts)

/-- Statements one after another. The semicolon behind one may be left out if the next
token does not go on with its expression. -/
inductive Stmt.Sequence : List Stmt → List Token → Prop where
  | nil : Stmt.Sequence [] []
  | ended {semicolon : Token} {s : Stmt} {ss : List Stmt} {ts ms : List Token}
      (first : Stmt.Printing s ts) (hsemicolon : semicolon.kind = .semicolon)
      (more : Stmt.Sequence ss ms) : Stmt.Sequence (s :: ss) (ts ++ semicolon :: ms)
  | bare {s : Stmt} {ss : List Stmt} {ts ms : List Token} (first : Stmt.Printing s ts)
      (hnext : ∀ t ∈ ms.head?, ¬ t.Continues) (more : Stmt.Sequence ss ms) :
      Stmt.Sequence (s :: ss) (ts ++ ms)

end

def Program.Printing (p : Program) (ts : List Token) : Prop :=
  Stmt.Sequence p.statements ts

/-- A token that an expression may begin with. -/
def TokenKind.beginsExpr : TokenKind → Bool
  | .ident | .int | .string | .trueWord | .falseWord | .bang | .minus | .lparen | .ifWord
  | .functionWord | .lbracket | .lbrace => true
  | _ => false

namespace Expr.Printing

theorem begins {k : Nat} {e : Expr} {ts : List Token} :
    Expr.Printing k e ts → ∃ t rest, ts = t :: rest ∧ t.kind.beginsExpr = true
  | .name ht => ⟨_, _, rfl, by rw [ht]; rfl⟩
  | .integer ht _ => ⟨_, _, rfl, by rw [ht]; rfl⟩
  | .yes ht => ⟨_, _, rfl, by rw [ht]; rfl⟩
  | .no ht => ⟨_, _, rfl, by rw [ht]; rfl⟩
  | .string ht => ⟨_, _, rfl, by rw [ht]; rfl⟩
  | .prefixed (t := t) hop _ _ => by
      refine ⟨_, _, rfl, ?_⟩
      revert hop
      cases t.kind <;> first | exact fun _ => rfl | exact fun h => nomatch h
  | .binary _ _ hleft _ => by
      obtain ⟨t, rest, rfl, ht⟩ := hleft.begins
      exact ⟨t, _, rfl, ht⟩
  | .conditional ht _ _ _ _ => ⟨_, _, rfl, by rw [ht]; rfl⟩
  | .alternative ht _ _ _ _ _ _ => ⟨_, _, rfl, by rw [ht]; rfl⟩
  | .function ht _ _ _ _ => ⟨_, _, rfl, by rw [ht]; rfl⟩
  | .call hcallee _ _ _ => by
      obtain ⟨t, rest, rfl, ht⟩ := hcallee.begins
      exact ⟨t, _, rfl, ht⟩
  | .array ht _ _ => ⟨_, _, rfl, by rw [ht]; rfl⟩
  | .index hcollection _ _ _ => by
      obtain ⟨t, rest, rfl, ht⟩ := hcollection.begins
      exact ⟨t, _, rfl, ht⟩
  | .hash ht _ _ => ⟨_, _, rfl, by rw [ht]; rfl⟩
  | .parenthesized hopening _ _ => ⟨_, _, rfl, by rw [hopening]; rfl⟩

theorem begins_head {k : Nat} {e : Expr} {t : Token} {ts : List Token}
    (h : Expr.Printing k e (t :: ts)) : t.kind.beginsExpr = true := by
  obtain ⟨u, rest, heq, hu⟩ := h.begins
  rw [(List.cons.inj heq).1]
  exact hu

/-- What may stand in a place may stand in one that asks for less. -/
theorem loosen {k j : Nat} {e : Expr} {ts : List Token} (h : Expr.Printing k e ts)
    (hj : j ≤ k ∨ Expr.tightLevel ≤ k) : Expr.Printing j e ts := by
  cases h with
  | name ht => exact .name ht
  | integer ht hn => exact .integer ht hn
  | yes ht => exact .yes ht
  | no ht => exact .no ht
  | string ht => exact .string ht
  | prefixed hop hk operand =>
      refine .prefixed hop ?_ operand
      rw [Expr.prefixLevel, Expr.tightLevel] at *
      omega
  | @binary _ _ op _ _ _ _ hop hk hleft hright =>
      refine .binary hop ?_ hleft hright
      have hlevel : op.level ≤ 4 := by cases op <;> decide
      rw [Expr.tightLevel] at hj
      omega
  | conditional ht ho hc hcl hb => exact .conditional ht ho hc hcl hb
  | alternative ht ho hc hcl hb he ha => exact .alternative ht ho hc hcl hb he ha
  | function ht ho hn hc hb => exact .function ht ho hn hc hb
  | call hf ht ha hc => exact .call hf ht ha hc
  | array ht he hc => exact .array ht he hc
  | index he ht hp hc => exact .index he ht hp hc
  | hash ht hp hc => exact .hash ht hp hc
  | parenthesized ho hi hc => exact .parenthesized ho hi hc

end Expr.Printing

theorem Expr.MoreListing.commas {es : List Expr} {ts : List Token} (h : Expr.MoreListing es ts) :
    ∀ t ∈ ts.head?, t.kind = .comma := by
  intro t ht
  cases h with
  | nil => cases ht
  | cons hcomma _ _ =>
      cases ht
      exact hcomma

/-- How tightly the token binds to the expression before it. -/
def Token.rank (t : Token) : Nat :=
  (Precedence.ofKind t.kind).rank

namespace Token

variable {t : Token}

theorem rank_of_operator {op : InfixOp} (h : InfixOp.ofKind? t.kind = some op) :
    t.rank = op.level := by
  rw [rank]
  revert h
  cases t.kind <;> intro h <;> cases h <;> rfl

theorem rank_of_lparen (h : t.kind = .lparen) : t.rank = Expr.tightLevel := by
  rw [rank, h]
  rfl

theorem rank_of_lbracket (h : t.kind = .lbracket) : t.rank = Expr.tightLevel + 1 := by
  rw [rank, h]
  rfl

theorem continues_of_rank_pos (h : 0 < t.rank) : t.Continues := by
  rw [rank] at h
  rw [Continues]
  generalize t.kind = kind at h ⊢
  revert h
  cases kind <;> decide

theorem rank_pos_of_continues (h : t.Continues) : 0 < t.rank := by
  obtain h | h | h := h
  · obtain ⟨op, hop⟩ := Option.isSome_iff_exists.1 h
    rw [rank_of_operator hop]
    cases op <;> decide
  · rw [rank_of_lparen h]
    decide
  · rw [rank_of_lbracket h]
    decide

theorem weaker_iff {p : Precedence} : p.weaker (.ofKind t.kind) = true ↔ p.rank < t.rank :=
  decide_eq_true_iff

end Token

/-- The level of the place that an expression read with this precedence fits. -/
def Precedence.place (p : Precedence) : Nat :=
  min (p.rank + 1) Expr.prefixLevel

theorem Token.place_of_operator {t : Token} {op : InfixOp}
    (h : InfixOp.ofKind? t.kind = some op) : (Precedence.ofKind t.kind).place = op.level + 1 := by
  have hrank := rank_of_operator h
  rw [rank] at hrank
  rw [Precedence.place, hrank]
  cases op <;> rfl

end Treewalk
