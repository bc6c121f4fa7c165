import Treewalk.Proofs.Syntax.Soundness

/-!
Every printing of a program is read as that program, without an error. What follows an
expression must not bind tighter than the place where the expression stands; then the
operators at its end leave what follows alone.
-/

namespace Treewalk

namespace Parse

open Cursor

/-- If the run yields anything from the cursor, it is this result and this place. -/
def Yields {α : Type} (m : Parse α) (c : Cursor) (a : α) (c' : Cursor) : Prop :=
  ∀ r, m c = some r → r = (.ok a, c')

section Yields

variable {α β : Type} {c c₁ c' : Cursor} {a : α} {b : β}

theorem yields_exhausted : Yields (Run.exhausted : Parse α) c a c' := by
  intro r hr
  cases hr

theorem yields_of_succ {rule : Nat → Parse α} (hzero : rule 0 = Run.exhausted)
    (h : ∀ n, Yields (rule (n + 1)) c a c') (n : Nat) : Yields (rule n) c a c' := by
  cases n with
  | zero =>
      rw [hzero]
      exact yields_exhausted
  | succ n => exact h n

theorem yields_pure : Yields (pure a : Parse α) c a c := by
  intro r hr
  cases hr
  rfl

theorem Yields.bind {m : Parse α} {next : α → Parse β} (h : Yields m c a c₁)
    (hnext : Yields (next a) c₁ b c') : Yields (m >>= next) c b c' := by
  intro r hr
  rw [Run.bind_apply] at hr
  cases hm : m c with
  | none =>
      rw [hm] at hr
      cases hr
  | some result =>
      rw [hm, h result hm] at hr
      exact hnext r hr

theorem Yields.congr {m m' : Parse α} (h : Yields m' c a c') (heq : m c = m' c) :
    Yields m c a c' := by
  intro r hr
  exact h r (heq ▸ hr)

theorem yields_current {next : Token → Parse β} (h : Yields (next c.current) c b c') :
    Yields (Grammar.current >>= next) c b c' := h

theorem yields_advance {next : Unit → Parse β} (h : Yields (next ()) c.advance b c') :
    Yields (Grammar.advance >>= next) c b c' := h

theorem yields_beginning {next : Unit → Parse β} (h : Yields (next ()) c b c') :
    Yields (MonadGrammar.beginning >>= next) c b c' := h

theorem yields_cursor {next : Cursor → Parse β} (h : Yields (next c) c b c') :
    Yields (Grammar.cursor >>= next) c b c' := h

theorem yields_nextIs {kind : TokenKind} {next : Bool → Parse β}
    (hkind : c.upcoming.kind = kind) (h : Yields (next true) c b c') :
    Yields (Grammar.nextIs kind >>= next) c b c' := by
  refine h.congr ?_
  rw [nextIs_bind, beq_iff_eq.2 hkind]

theorem yields_nextIsNot {kind : TokenKind} {next : Bool → Parse β}
    (hkind : c.upcoming.kind ≠ kind) (h : Yields (next false) c b c') :
    Yields (Grammar.nextIs kind >>= next) c b c' := by
  refine h.congr ?_
  rw [nextIs_bind, beq_eq_false_iff_ne.2 hkind]

theorem yields_expectNext {kind : TokenKind} {next : Unit → Parse β}
    (hkind : c.upcoming.kind = kind) (h : Yields (next ()) c.advance b c') :
    Yields (Grammar.expectNext kind >>= next) c b c' := by
  intro r hr
  rw [expectNext_bind, if_pos hkind] at hr
  exact h r hr

end Yields

end Parse

/-- The second cursor is on the last token before the rest, and has seen the same errors. -/
structure Cursor.Before (rest : List Token) (c c' : Cursor) : Prop where
  rest_eq : c'.advance.tokens = rest
  errors_eq : c'.errors = c.errors

namespace Cursor

variable {c c₁ c₂ : Cursor} {rest : List Token} {t : Token}

theorem current_of_tokens (h : c.tokens = t :: rest) : c.current = t := by
  rw [current, h]
  rfl

theorem advance_of_tokens (h : c.tokens = t :: rest) : c.advance.tokens = rest := by
  rw [tokens_advance, h]
  rfl

/-- What stands between brackets. -/
theorem advance_of_bracketed {ts : List Token} {closing : Token}
    (h : c.tokens = t :: (ts ++ [closing] ++ rest)) : c.advance.tokens = ts ++ closing :: rest := by
  rw [advance_of_tokens h, List.append_assoc]
  rfl

theorem upcoming_of_tokens (h : c.advance.tokens = t :: rest) : c.upcoming = t :=
  current_of_tokens (c := c.advance) h

theorem upcoming_ne_of_begins {ts : List Token} {kind : TokenKind}
    (hbegins : ∃ t more, ts = t :: more ∧ t.kind.beginsExpr = true)
    (hc : c.advance.tokens = ts ++ rest) (hkind : kind.beginsExpr = false) :
    c.upcoming.kind ≠ kind := by
  obtain ⟨t, more, rfl, ht⟩ := hbegins
  rw [upcoming_of_tokens hc]
  intro heq
  rw [heq, hkind] at ht
  cases ht

theorem Before.upcoming_eq (h : Before rest c c₁) : c₁.upcoming = rest.headD .eof := by
  rw [← h.rest_eq]
  rfl

theorem Before.of_errors (h : Before rest c₁ c₂) (herrors : c₁.errors = c.errors) :
    Before rest c c₂ :=
  ⟨h.rest_eq, h.errors_eq.trans herrors⟩

theorem Before.advance (h : Before (t :: rest) c c₁) : Before rest c c₁.advance :=
  ⟨advance_of_tokens h.rest_eq, h.errors_eq⟩

end Cursor

/-- An expression ends in front of the token: it neither goes on with the expression nor
with a conditional at the end of it. -/
def Token.Ends (t : Token) : Prop :=
  t.rank = 0 ∧ t.kind ≠ .elseWord

namespace Token

variable {t : Token}

theorem ends_of_kind {kind : TokenKind} (h : t.kind = kind)
    (hkind : (Precedence.ofKind kind).rank = 0 ∧ kind ≠ .elseWord) : t.Ends := by
  rw [Ends, rank, h]
  exact hkind

theorem ne_elseWord_of_rank_pos (h : 0 < t.rank) : t.kind ≠ .elseWord := by
  intro heq
  rw [rank, heq] at h
  exact Nat.lt_irrefl 0 h

theorem ends_headD_append {ms rest : List Token} (h : ∀ t ∈ ms.head?, t.Ends)
    (hrest : (rest.headD .eof).Ends) : ((ms ++ rest).headD .eof).Ends := by
  cases ms with
  | nil => exact hrest
  | cons t ms => exact h t rfl

end Token

namespace Expr

open Parse

/-- Where the tokens stand for an expression in a place of level `k`, and what follows
does not bind tighter, they are read as that expression: if the operators that follow
are read as `result`, so is the whole. -/
def ReadAs (k : Nat) (e : Expr) (ts : List Token) : Prop :=
  ∀ (p : Precedence) (rest : List Token) (c : Cursor), c.tokens = ts ++ rest →
    (p.rank < k ∨ prefixLevel ≤ k) → p.rank ≤ prefixLevel →
    ((rest.headD .eof).rank ≤ k ∨ tightLevel ≤ k) → (rest.headD .eof).kind ≠ .elseWord →
    ∃ c₁, Cursor.Before rest c c₁ ∧ ∀ result c',
      (∀ n, Yields (operators n p e) c₁ result c') → ∀ n, Yields (expression n p) c result c'

section ReadAs

variable {k : Nat} {e : Expr} {ts rest : List Token} {c c₁ : Cursor} {p : Precedence}

theorem readAs_of_operand
    (h : ∀ (rest : List Token) (c : Cursor), c.tokens = ts ++ rest →
      ((rest.headD .eof).rank ≤ k ∨ tightLevel ≤ k) → (rest.headD .eof).kind ≠ .elseWord →
      ∃ c₁, Cursor.Before rest c c₁ ∧ ∀ n, Yields (operand n) c e c₁) : ReadAs k e ts := by
  intro p rest c hc _ _ hrest helse
  obtain ⟨c₁, hbefore, hoperand⟩ := h rest c hc hrest helse
  refine ⟨c₁, hbefore, fun result c' hoperators n => ?_⟩
  cases n with
  | zero => exact yields_exhausted
  | succ n =>
      rw [expression, Grammar.expression]
      exact (hoperand n).bind (hoperators n)

theorem yields_operators_stop (h : c.upcoming.rank ≤ p.rank) (n : Nat) :
    Yields (operators n p e) c e c := by
  cases n with
  | zero => exact yields_exhausted
  | succ n =>
      rw [operators, Grammar.operators]
      refine yields_cursor ?_
      rw [if_neg fun hweaker => Nat.not_lt_of_le h (Token.weaker_iff.1 hweaker)]
      exact yields_pure

theorem yields_operators_go {longer result : Expr} {c' : Cursor} (h : p.rank < c.upcoming.rank)
    (hextend : ∀ n, Yields (extend n e) c.advance longer c₁)
    (hrest : ∀ n, Yields (operators n p longer) c₁ result c') (n : Nat) :
    Yields (operators n p e) c result c' := by
  cases n with
  | zero => exact yields_exhausted
  | succ n =>
      rw [operators, Grammar.operators]
      refine yields_cursor ?_
      rw [if_pos (Token.weaker_iff.2 h)]
      exact yields_advance ((hextend n).bind (hrest n))

/-- The operators that follow do not belong to an expression read with precedence `p`. -/
theorem ReadAs.ends (h : ReadAs k e ts) (hc : c.tokens = ts ++ rest)
    (hp : p.rank < k ∨ prefixLevel ≤ k) (hbelow : p.rank ≤ prefixLevel)
    (hk : (rest.headD .eof).rank ≤ k ∨ tightLevel ≤ k) (hrest : (rest.headD .eof).rank ≤ p.rank)
    (helse : (rest.headD .eof).kind ≠ .elseWord) :
    ∃ c₁, Cursor.Before rest c c₁ ∧ ∀ n, Yields (expression n p) c e c₁ := by
  obtain ⟨c₁, hbefore, hread⟩ := h p rest c hc hp hbelow hk helse
  refine ⟨c₁, hbefore, hread e c₁ (yields_operators_stop ?_)⟩
  rwa [hbefore.upcoming_eq]

theorem ReadAs.whole (h : ReadAs anyLevel e ts) (hc : c.tokens = ts ++ rest)
    (hrest : (rest.headD .eof).Ends) :
    ∃ c₁, Cursor.Before rest c c₁ ∧ ∀ n, Yields (expression n .lowest) c e c₁ :=
  h.ends hc (.inl Nat.zero_lt_one) (Nat.zero_le _) (.inl (by rw [hrest.1]; exact Nat.zero_le _))
    (Nat.le_of_eq hrest.1) hrest.2

theorem readAs_atom {t : Token}
    (h : ∀ n c, c.current = t → operand (n + 1) c = some (.ok e, c)) : ReadAs k e [t] := by
  refine readAs_of_operand fun rest c hc _ _ =>
    ⟨c, ⟨Cursor.advance_of_tokens hc, rfl⟩, yields_of_succ rfl fun n => ?_⟩
  intro r hr
  rw [h n c (Cursor.current_of_tokens hc)] at hr
  exact (Option.some.inj hr).symm

theorem readAs_name {t : Token} (ht : t.kind = .ident) : ReadAs k (.name t) [t] :=
  readAs_atom fun n c hcurrent => by
    rw [operand, Grammar.operand, current_bind, hcurrent, ht]
    rfl

theorem readAs_integer {t : Token} {value : Int64} (ht : t.kind = .int)
    (hvalue : integerOfDigits? t.literal = some value) : ReadAs k (.integer t value) [t] :=
  readAs_atom fun n c hcurrent => by
    rw [operand, Grammar.operand, current_bind, hcurrent, ht]
    dsimp only
    rw [hvalue]
    rfl

theorem readAs_yes {t : Token} (ht : t.kind = .trueWord) : ReadAs k (.boolean t true) [t] :=
  readAs_atom fun n c hcurrent => by
    rw [operand, Grammar.operand, current_bind, hcurrent, ht]
    rfl

theorem readAs_no {t : Token} (ht : t.kind = .falseWord) : ReadAs k (.boolean t false) [t] :=
  readAs_atom fun n c hcurrent => by
    rw [operand, Grammar.operand, current_bind, hcurrent, ht]
    rfl

theorem readAs_string {t : Token} (ht : t.kind = .string) : ReadAs k (.string t) [t] :=
  readAs_atom fun n c hcurrent => by
    rw [operand, Grammar.operand, current_bind, hcurrent, ht]
    rfl

theorem readAs_prefixed {t : Token} {op : PrefixOp} (hop : PrefixOp.ofKind? t.kind = some op)
    (hk : k ≤ prefixLevel) (h : ReadAs prefixLevel e ts) :
    ReadAs k (.prefixed t op e) (t :: ts) := by
  refine readAs_of_operand fun rest c hc hrest helse => ?_
  have hnext : (rest.headD .eof).rank ≤ prefixLevel := by
    rw [prefixLevel, tightLevel] at *
    omega
  have hadvance : c.advance.tokens = ts ++ rest := Cursor.advance_of_tokens hc
  obtain ⟨c₁, hbefore, hread⟩ :=
    h.ends (p := .prefixed) hadvance (.inr (Nat.le_refl _)) (Nat.le_refl _) (.inl hnext) hnext helse
  refine ⟨c₁, hbefore.of_errors rfl, yields_of_succ rfl fun n => ?_⟩
  rw [operand, Grammar.operand]
  refine yields_current ?_
  rw [Cursor.current_of_tokens hc]
  revert hop
  generalize t.kind = kind
  cases kind <;> intro hop <;> cases hop
  · exact yields_advance ((hread n).bind yields_pure)
  · exact yields_advance ((hread n).bind yields_pure)

theorem readAs_parenthesized {opening closing : Token} (hopening : opening.kind = .lparen)
    (hclosing : closing.kind = .rparen) (h : ReadAs anyLevel e ts) :
    ReadAs k e (opening :: (ts ++ [closing])) := by
  refine readAs_of_operand fun rest c hc _ _ => ?_
  have hadvance : c.advance.tokens = ts ++ closing :: rest := Cursor.advance_of_bracketed hc
  obtain ⟨c₁, hbefore, hread⟩ := h.whole hadvance (Token.ends_of_kind hclosing (by decide))
  refine ⟨c₁.advance, hbefore.advance.of_errors rfl, yields_of_succ rfl fun n => ?_⟩
  rw [operand, Grammar.operand]
  refine yields_current ?_
  rw [Cursor.current_of_tokens hc, hopening]
  refine yields_advance ((hread n).bind (yields_expectNext ?_ yields_pure))
  rw [hbefore.upcoming_eq]
  exact hclosing

theorem yields_extend_binary {t : Token} {op : InfixOp} {left right : Expr}
    (hop : InfixOp.ofKind? t.kind = some op) (hcurrent : c.current = t)
    (hright : ∀ n, Yields (expression n (.ofKind t.kind)) c.advance right c₁) (n : Nat) :
    Yields (extend n left) c (.binary t op left right) c₁ := by
  cases n with
  | zero => exact yields_exhausted
  | succ n =>
      have hlast := hright n
      rw [extend, Grammar.extend]
      refine yields_current ?_
      rw [hcurrent]
      revert hop hlast
      generalize t.kind = kind
      cases kind <;> intro hop hlast <;> cases hop <;> exact yields_advance (hlast.bind yields_pure)

theorem readAs_binary {t : Token} {op : InfixOp} {left right : Expr} {ls rs : List Token}
    (hop : InfixOp.ofKind? t.kind = some op) (hk : k ≤ op.level)
    (hleft : ReadAs op.level left ls) (hright : ReadAs (op.level + 1) right rs) :
    ReadAs k (.binary t op left right) (ls ++ t :: rs) := by
  intro p rest c hc hp hbelow hrest helse
  have hlevel : 0 < op.level ∧ op.level ≤ 4 := by cases op <;> decide
  have hrank := Token.rank_of_operator hop
  have hprec : (Precedence.ofKind t.kind).rank = op.level := hrank
  rw [prefixLevel] at hp hbelow
  rw [tightLevel] at hrest
  have hc' : c.tokens = ls ++ t :: (rs ++ rest) := by
    rw [hc, List.append_assoc]
    rfl
  obtain ⟨c₁, hbefore₁, hread⟩ := hleft p _ c hc' (by omega) hbelow (.inl (Nat.le_of_eq hrank))
    (Token.ne_elseWord_of_rank_pos (by rw [List.headD_cons, hrank]; exact hlevel.1))
  have htokens : c₁.advance.advance.tokens = rs ++ rest :=
    Cursor.advance_of_tokens hbefore₁.rest_eq
  obtain ⟨c₂, hbefore₂, hlast⟩ := hright.ends (p := .ofKind t.kind) htokens (by omega)
    (by rw [prefixLevel]; omega) (by omega) (by omega) helse
  refine ⟨c₂, hbefore₂.of_errors hbefore₁.errors_eq,
    fun result c' hoperators => hread result c' (yields_operators_go ?_
      (yields_extend_binary hop ?_ hlast) hoperators)⟩
  · rw [hbefore₁.upcoming_eq, List.headD_cons, hrank]
    omega
  · exact hbefore₁.upcoming_eq

/-- What `readAs_call` and `readAs_index` have in common: a token that binds tighter than
any operator, and what it introduces. -/
theorem readAs_suffix {t : Token} {callee whole : Expr} {fs as : List Token}
    (hcallee : ReadAs tightLevel callee fs) (ht : tightLevel ≤ t.rank)
    (h : ∀ (rest : List Token) (c : Cursor), c.tokens = t :: (as ++ rest) →
      ∃ c₁, Cursor.Before rest c c₁ ∧ ∀ n, Yields (extend n callee) c whole c₁) :
    ReadAs k whole (fs ++ t :: as) := by
  intro p rest c hc hp hbelow _ _
  have hc' : c.tokens = fs ++ t :: (as ++ rest) := by
    rw [hc, List.append_assoc]
    rfl
  obtain ⟨c₁, hbefore₁, hread⟩ :=
    hcallee p _ c hc' (.inr (by decide)) hbelow (.inr (Nat.le_refl _))
      (Token.ne_elseWord_of_rank_pos (Nat.lt_of_lt_of_le (by decide) ht))
  obtain ⟨c₂, hbefore₂, hextend⟩ := h rest c₁.advance hbefore₁.rest_eq
  refine ⟨c₂, hbefore₂.of_errors hbefore₁.errors_eq,
    fun result c' hoperators => hread result c' (yields_operators_go ?_ hextend hoperators)⟩
  rw [hbefore₁.upcoming_eq, List.headD_cons]
  rw [prefixLevel] at hbelow
  rw [tightLevel] at ht
  omega

theorem readAs_index {t closing : Token} {collection position : Expr} {cs ps : List Token}
    (hcollection : ReadAs tightLevel collection cs) (ht : t.kind = .lbracket)
    (hposition : ReadAs anyLevel position ps) (hclosing : closing.kind = .rbracket) :
    ReadAs k (.index t collection position) (cs ++ t :: (ps ++ [closing])) := by
  refine readAs_suffix hcollection ?_ fun rest c hc => ?_
  · rw [Token.rank_of_lbracket ht]
    exact Nat.le_succ _
  · have hadvance : c.advance.tokens = ps ++ closing :: rest := Cursor.advance_of_bracketed hc
    obtain ⟨c₁, hbefore, hread⟩ :=
      hposition.whole hadvance (Token.ends_of_kind hclosing (by decide))
    refine ⟨c₁.advance, hbefore.advance.of_errors rfl, yields_of_succ rfl fun n => ?_⟩
    rw [extend, Grammar.extend]
    refine yields_current ?_
    rw [Cursor.current_of_tokens hc, ht]
    refine yields_advance ((hread n).bind (yields_expectNext ?_ yields_pure))
    rw [hbefore.upcoming_eq]
    exact hclosing

end ReadAs

/-- Where the tokens stand between brackets of a list, they are read as its elements. -/
def ListReadAs (es : List Expr) (ts : List Token) : Prop :=
  ∀ (close : TokenKind) (closing : Token) (rest : List Token) (c : Cursor),
    c.advance.tokens = ts ++ closing :: rest → closing.kind = close →
    (close = .rparen ∨ close = .rbracket) →
    ∃ c₁, Cursor.Before rest c c₁ ∧ ∀ n, Yields (expressions n close) c es c₁

def MoreReadAs (es : List Expr) (ts : List Token) : Prop :=
  ∀ (rest : List Token) (c : Cursor), c.advance.tokens = ts ++ rest →
    (rest.headD .eof).kind ≠ .comma → (rest.headD .eof).Ends →
    ∃ c₁, Cursor.Before rest c c₁ ∧ ∀ n, Yields (moreExpressions n) c es c₁

section Lists

variable {k : Nat} {e : Expr} {es : List Expr} {ts ms : List Token}

theorem readAs_call {t closing : Token} {callee : Expr} {fs : List Token}
    (hcallee : ReadAs tightLevel callee fs) (ht : t.kind = .lparen) (hargs : ListReadAs es ts)
    (hclosing : closing.kind = .rparen) :
    ReadAs k (.call t callee es) (fs ++ t :: (ts ++ [closing])) := by
  refine readAs_suffix hcallee ?_ fun rest c hc => ?_
  · exact Nat.le_of_eq (Token.rank_of_lparen ht).symm
  · have hadvance : c.advance.tokens = ts ++ closing :: rest := Cursor.advance_of_bracketed hc
    obtain ⟨c₁, hbefore, hread⟩ := hargs .rparen closing rest c hadvance hclosing (.inl rfl)
    refine ⟨c₁, hbefore, yields_of_succ rfl fun n => ?_⟩
    rw [extend, Grammar.extend]
    refine yields_current ?_
    rw [Cursor.current_of_tokens hc, ht]
    exact (hread n).bind yields_pure

theorem readAs_array {t closing : Token} (ht : t.kind = .lbracket) (h : ListReadAs es ts)
    (hclosing : closing.kind = .rbracket) : ReadAs k (.array t es) (t :: (ts ++ [closing])) := by
  refine readAs_of_operand fun rest c hc _ _ => ?_
  have hadvance : c.advance.tokens = ts ++ closing :: rest := Cursor.advance_of_bracketed hc
  obtain ⟨c₁, hbefore, hread⟩ := h .rbracket closing rest c hadvance hclosing (.inr rfl)
  refine ⟨c₁, hbefore, yields_of_succ rfl fun n => ?_⟩
  rw [operand, Grammar.operand]
  refine yields_current ?_
  rw [Cursor.current_of_tokens hc, ht]
  exact (hread n).bind yields_pure

theorem listReadAs_nil : ListReadAs [] [] := by
  intro close closing rest c hc hclosing _
  have hupcoming : c.upcoming.kind = close := by
    rw [Cursor.upcoming_of_tokens hc, hclosing]
  refine ⟨c.advance, ⟨Cursor.advance_of_tokens hc, rfl⟩, yields_of_succ rfl fun n => ?_⟩
  rw [expressions, Grammar.expressions]
  exact yields_nextIs hupcoming (yields_advance yields_pure)

theorem moreReadAs_nil : MoreReadAs [] [] := by
  intro rest c hc hcomma _
  refine ⟨c, ⟨hc, rfl⟩, yields_of_succ rfl fun n => ?_⟩
  rw [moreExpressions, Grammar.moreExpressions]
  refine yields_nextIsNot ?_ yields_pure
  rwa [Cursor.Before.upcoming_eq ⟨hc, rfl⟩]

theorem ends_of_commas (hcommas : ∀ t ∈ ms.head?, t.kind = .comma) :
    ∀ t ∈ ms.head?, t.Ends := by
  intro t ht
  exact Token.ends_of_kind (hcommas t ht) (by decide)

theorem listReadAs_cons (hbegins : ∃ t rest, ts = t :: rest ∧ t.kind.beginsExpr = true)
    (hfirst : ReadAs anyLevel e ts) (hcommas : ∀ t ∈ ms.head?, t.kind = .comma)
    (hmore : MoreReadAs es ms) : ListReadAs (e :: es) (ts ++ ms) := by
  intro close closing rest c hc hclosing hclose
  have hcloses : closing.Ends ∧ closing.kind ≠ .comma ∧ close.beginsExpr = false := by
    rw [Token.Ends, Token.rank, hclosing]
    obtain rfl | rfl := hclose <;> decide
  rw [List.append_assoc] at hc
  have hopen := Cursor.upcoming_ne_of_begins hbegins hc hcloses.2.2
  obtain ⟨c₁, hbefore₁, hread₁⟩ :=
    hfirst.whole hc (Token.ends_headD_append (ends_of_commas hcommas) hcloses.1)
  obtain ⟨c₂, hbefore₂, hread₂⟩ := hmore _ c₁ hbefore₁.rest_eq hcloses.2.1 hcloses.1
  refine ⟨c₂.advance, hbefore₂.advance.of_errors hbefore₁.errors_eq, yields_of_succ rfl fun n => ?_⟩
  rw [expressions, Grammar.expressions]
  refine yields_nextIsNot hopen (yields_advance ((hread₁ n).bind ((hread₂ n).bind ?_)))
  refine yields_expectNext ?_ yields_pure
  rw [hbefore₂.upcoming_eq]
  exact hclosing

theorem moreReadAs_cons {comma : Token} (hcomma : comma.kind = .comma)
    (hfirst : ReadAs anyLevel e ts) (hcommas : ∀ t ∈ ms.head?, t.kind = .comma)
    (hmore : MoreReadAs es ms) : MoreReadAs (e :: es) (comma :: (ts ++ ms)) := by
  intro rest c hc hrest hends
  have htokens : c.advance.advance.tokens = ts ++ (ms ++ rest) := by
    rw [Cursor.tokens_advance, hc, ← List.append_assoc]
    rfl
  obtain ⟨c₁, hbefore₁, hread₁⟩ :=
    hfirst.whole htokens (Token.ends_headD_append (ends_of_commas hcommas) hends)
  obtain ⟨c₂, hbefore₂, hread₂⟩ := hmore rest c₁ hbefore₁.rest_eq hrest hends
  refine ⟨c₂, hbefore₂.of_errors hbefore₁.errors_eq, yields_of_succ rfl fun n => ?_⟩
  rw [moreExpressions, Grammar.moreExpressions]
  refine yields_nextIs ?_
    (yields_advance (yields_advance ((hread₁ n).bind ((hread₂ n).bind yields_pure))))
  rw [Cursor.upcoming_of_tokens hc, hcomma]

end Lists

/-- Where the tokens stand in front of a closing brace, they are read as these pairs. -/
def PairsReadAs (pairs : List (Expr × Expr)) (ts : List Token) : Prop :=
  ∀ (closing : Token) (rest : List Token) (c : Cursor),
    c.advance.tokens = ts ++ closing :: rest → closing.kind = .rbrace →
    ∃ c₁, Cursor.Before rest c c₁ ∧ ∀ n, Yields (Parse.pairs n) c pairs c₁

section Pairs

variable {k : Nat} {key value : Expr} {ks vs ts : List Token} {ps : List (Expr × Expr)}

theorem pairsReadAs_nil : PairsReadAs [] [] := by
  intro closing rest c hc hclosing
  refine ⟨c.advance, ⟨Cursor.advance_of_tokens hc, rfl⟩, yields_of_succ rfl fun n => ?_⟩
  rw [Parse.pairs, Grammar.pairs]
  refine yields_nextIs ?_ (yields_advance yields_pure)
  rw [Cursor.upcoming_of_tokens hc, hclosing]

theorem exists_pair_read {colon : Token} {behind : List Token} {c : Cursor}
    (hbegins : ∃ t rest, ks = t :: rest ∧ t.kind.beginsExpr = true)
    (hkey : ReadAs anyLevel key ks) (hcolon : colon.kind = .colon)
    (hvalue : ReadAs anyLevel value vs) (hc : c.advance.tokens = ks ++ colon :: (vs ++ behind))
    (hbehind : (behind.headD .eof).Ends) :
    ∃ c₁, Cursor.Before behind c c₁ ∧ ∀ n result c',
      Yields (do
          if ← Grammar.nextIs .rbrace then
            let rest ← Parse.pairs n
            return (key, value) :: rest
          else
            Grammar.expectNext .comma
            let rest ← Parse.pairs n
            return (key, value) :: rest) c₁ result c' →
      Yields (Parse.pairs (n + 1)) c result c' := by
  have hopen : c.upcoming.kind ≠ .rbrace := Cursor.upcoming_ne_of_begins hbegins hc rfl
  obtain ⟨c₁, hbefore₁, hread₁⟩ := hkey.whole hc (Token.ends_of_kind hcolon (by decide))
  have htokens : c₁.advance.advance.tokens = vs ++ behind :=
    Cursor.advance_of_tokens hbefore₁.rest_eq
  obtain ⟨c₂, hbefore₂, hread₂⟩ := hvalue.whole htokens hbehind
  refine ⟨c₂, hbefore₂.of_errors hbefore₁.errors_eq, fun n result c' hend => ?_⟩
  rw [Parse.pairs, Grammar.pairs]
  refine yields_nextIsNot hopen (yields_advance ((hread₁ n).bind (yields_expectNext ?_
    (yields_advance ((hread₂ n).bind hend)))))
  rw [hbefore₁.upcoming_eq]
  exact hcolon

theorem pairsReadAs_last {colon : Token}
    (hbegins : ∃ t rest, ks = t :: rest ∧ t.kind.beginsExpr = true)
    (hkey : ReadAs anyLevel key ks) (hcolon : colon.kind = .colon)
    (hvalue : ReadAs anyLevel value vs) : PairsReadAs [(key, value)] (ks ++ colon :: vs) := by
  intro closing rest c hc hclosing
  rw [List.append_assoc] at hc
  obtain ⟨c₁, hbefore₁, hread₁⟩ := exists_pair_read hbegins hkey hcolon hvalue hc
    (Token.ends_of_kind hclosing (by decide))
  obtain ⟨c₂, hbefore₂, hread₂⟩ := pairsReadAs_nil closing rest c₁ hbefore₁.rest_eq hclosing
  refine ⟨c₂, hbefore₂.of_errors hbefore₁.errors_eq, yields_of_succ rfl fun n => ?_⟩
  refine hread₁ n _ _ (yields_nextIs ?_ ((hread₂ n).bind yields_pure))
  rw [hbefore₁.upcoming_eq]
  exact hclosing

theorem pairsReadAs_cons {colon comma : Token}
    (hbegins : ∃ t rest, ks = t :: rest ∧ t.kind.beginsExpr = true)
    (hkey : ReadAs anyLevel key ks) (hcolon : colon.kind = .colon)
    (hvalue : ReadAs anyLevel value vs) (hcomma : comma.kind = .comma)
    (hmore : PairsReadAs ps ts) :
    PairsReadAs ((key, value) :: ps) (ks ++ colon :: (vs ++ comma :: ts)) := by
  intro closing rest c hc hclosing
  have hc' : c.advance.tokens = ks ++ colon :: (vs ++ comma :: (ts ++ closing :: rest)) := by
    rw [hc]
    simp only [List.append_assoc, List.cons_append]
  obtain ⟨c₁, hbefore₁, hread₁⟩ := exists_pair_read hbegins hkey hcolon hvalue hc'
    (Token.ends_of_kind hcomma (by decide))
  have htokens : c₁.advance.advance.tokens = ts ++ closing :: rest :=
    Cursor.advance_of_tokens hbefore₁.rest_eq
  obtain ⟨c₂, hbefore₂, hread₂⟩ := hmore closing rest c₁.advance htokens hclosing
  refine ⟨c₂, hbefore₂.of_errors hbefore₁.errors_eq, yields_of_succ rfl fun n => ?_⟩
  have hnext : c₁.upcoming.kind = .comma := by
    rw [hbefore₁.upcoming_eq]
    exact hcomma
  refine hread₁ n _ _ (yields_nextIsNot ?_
    (yields_expectNext hnext ((hread₂ n).bind yields_pure)))
  rw [hnext]
  decide

theorem readAs_hash {t closing : Token} (ht : t.kind = .lbrace) (h : PairsReadAs ps ts)
    (hclosing : closing.kind = .rbrace) : ReadAs k (.hash t ps) (t :: (ts ++ [closing])) := by
  refine readAs_of_operand fun rest c hc _ _ => ?_
  have hadvance : c.advance.tokens = ts ++ closing :: rest := Cursor.advance_of_bracketed hc
  obtain ⟨c₁, hbefore, hread⟩ := h closing rest c hadvance hclosing
  refine ⟨c₁, hbefore, yields_of_succ rfl fun n => ?_⟩
  rw [operand, Grammar.operand]
  refine yields_current ?_
  rw [Cursor.current_of_tokens hc, ht]
  exact (hread n).bind yields_pure

end Pairs

end Expr

end Treewalk
