import Treewalk.Proofs.Syntax.Recognition

/-!
Faults that are not missed. If an operand cannot be read, then no expression can that
begins with it or has it behind parts that are read; nor can a statement that is such an
expression. So of a program that begins with this statement the error is reported, whatever
else is found behind it.
-/

namespace Treewalk
namespace Parse

/-- If the run comes to an end from the cursor, then in this error. -/
def Fails {α : Type} (e : SyntaxError) (m : Parse α) (c : Cursor) : Prop :=
  ∀ r c', m c = some (r, c') → r = .error e

section Fails

variable {α β : Type} {e : SyntaxError} {c c₁ : Cursor} {a : α}

theorem fails_of_succ {rule : Nat → Parse α} (hzero : rule 0 = Run.exhausted)
    (h : ∀ n, Fails e (rule (n + 1)) c) (n : Nat) : Fails e (rule n) c := by
  cases n with
  | zero =>
      rw [hzero]
      intro r c' hr
      cases hr
  | succ n => exact h n

theorem fails_fail : Fails e (Grammar.fail e : Parse α) c := by
  intro r c' hr
  cases hr
  rfl

theorem Fails.bind {m : Parse α} {next : α → Parse β} (h : Fails e m c) :
    Fails e (m >>= next) c := by
  intro r c' hr
  rw [Run.bind_apply] at hr
  obtain hm | ⟨a, t, hm⟩ | ⟨f, t, hm⟩ := Run.ended (m c) <;> rw [hm] at hr
  · cases hr
  · cases h _ _ hm
  · cases hr
    cases h _ _ hm
    rfl

theorem Yields.fails {m : Parse α} {next : α → Parse β} (h : Yields m c a c₁)
    (hnext : Fails e (next a) c₁) : Fails e (m >>= next) c := by
  intro r c' hr
  rw [Run.bind_apply] at hr
  cases hm : m c with
  | none =>
      rw [hm] at hr
      cases hr
  | some result =>
      rw [hm, h result hm] at hr
      exact hnext r c' hr

theorem fails_beginning {next : Unit → Parse β} (h : Fails e (next ()) c) :
    Fails e (MonadGrammar.beginning >>= next) c := h

theorem fails_current {next : Token → Parse β} (h : Fails e (next c.current) c) :
    Fails e (Grammar.current >>= next) c := h

theorem fails_advance {next : Unit → Parse β} (h : Fails e (next ()) c.advance) :
    Fails e (Grammar.advance >>= next) c := h

theorem fails_nextIs {kind : TokenKind} {next : Bool → Parse β}
    (hkind : c.upcoming.kind = kind) (h : Fails e (next true) c) :
    Fails e (Grammar.nextIs kind >>= next) c := by
  intro r c' hr
  rw [nextIs_bind, beq_iff_eq.2 hkind] at hr
  exact h r c' hr

theorem fails_nextIsNot {kind : TokenKind} {next : Bool → Parse β}
    (hkind : c.upcoming.kind ≠ kind) (h : Fails e (next false) c) :
    Fails e (Grammar.nextIs kind >>= next) c := by
  intro r c' hr
  rw [nextIs_bind, beq_eq_false_iff_ne.2 hkind] at hr
  exact h r c' hr

theorem fails_expectNext {kind : TokenKind} {next : Unit → Parse β}
    (hkind : c.upcoming.kind = kind) (h : Fails e (next ()) c.advance) :
    Fails e (Grammar.expectNext kind >>= next) c := by
  intro r c' hr
  rw [expectNext_bind, if_pos hkind] at hr
  exact h r c' hr

end Fails
end Parse

namespace Expr

open Parse
open Grammar (nextIs expectNext)

/-- Wherever the tokens stand for an expression, reading it fails with the error. -/
structure Refused (e : SyntaxError) (ts : List Token) : Prop where
  begins : ∃ t more, ts = t :: more ∧ t.kind.beginsExpr = true
  fails : ∀ (p : Precedence) (rest : List Token) (c : Cursor), c.tokens = ts ++ rest →
    ∀ n, Fails e (expression n p) c

/-- Wherever the tokens stand for expressions in a list, reading these fails. -/
structure ListRefused (e : SyntaxError) (ts : List Token) : Prop where
  begins : ∃ t more, ts = t :: more ∧ t.kind.beginsExpr = true
  fails : ∀ {β : Type} (next : Expr → List Expr → Parse β) (rest : List Token) (c : Cursor),
    c.tokens = ts ++ rest → ∀ n,
      Fails e (do
        let first ← expression n .lowest
        let more ← moreExpressions n
        next first more) c

/-- Wherever the tokens stand for pairs in a hash, reading these fails. -/
def PairsRefused (e : SyntaxError) (ts : List Token) : Prop :=
  ∀ (rest : List Token) (c : Cursor), c.advance.tokens = ts ++ rest → ∀ n, Fails e (pairs n) c

variable {e : SyntaxError} {t : Token} {ts ms : List Token}

theorem refused_of_operand (hbegins : t.kind.beginsExpr = true)
    (h : ∀ (rest : List Token) (c : Cursor), c.tokens = t :: (ts ++ rest) → ∀ n,
      Fails e (operand (n + 1)) c) : Refused e (t :: ts) := by
  refine ⟨⟨t, ts, rfl, hbegins⟩, fun p rest c hc => fails_of_succ rfl fun n => ?_⟩
  rw [expression, Grammar.expression]
  exact (fails_of_succ rfl (h rest c hc) n).bind

theorem refused_integer (ht : t.kind = .int) (hvalue : integerOfDigits? t.literal = none) :
    Refused (.integerOutOfRange t.literal) [t] := by
  refine refused_of_operand (by rw [ht]; rfl) fun rest c hc n => ?_
  rw [operand, Grammar.operand]
  refine fails_current ?_
  rw [Cursor.current_of_tokens hc, ht]
  dsimp only
  rw [hvalue]
  exact fails_fail

theorem refused_negated (ht : t.kind = .minus) (h : Refused e ts) : Refused e (t :: ts) := by
  refine refused_of_operand (by rw [ht]; rfl) fun rest c hc n => ?_
  rw [operand, Grammar.operand]
  refine fails_current ?_
  rw [Cursor.current_of_tokens hc, ht]
  exact fails_advance (h.fails .prefixed rest c.advance (Cursor.advance_of_tokens hc) n).bind

theorem listRefused_first (h : Refused e ts) (ms : List Token) : ListRefused e (ts ++ ms) := by
  refine ⟨?_, fun next rest c hc n => ?_⟩
  · obtain ⟨t, more, rfl, ht⟩ := h.begins
    exact ⟨t, more ++ ms, rfl, ht⟩
  · rw [List.append_assoc] at hc
    exact (h.fails .lowest _ c hc n).bind

theorem ListRefused.moreExpressions {comma : Token} {rest : List Token} {c : Cursor}
    (h : ListRefused e ts) (hcomma : comma.kind = .comma)
    (hc : c.advance.tokens = comma :: (ts ++ rest)) (n : Nat) :
    Fails e (moreExpressions n) c := by
  refine fails_of_succ rfl (fun n => ?_) n
  have hnext : c.upcoming.kind = .comma := by rw [Cursor.upcoming_of_tokens hc, hcomma]
  have htokens := Cursor.advance_of_tokens hc
  rw [Parse.moreExpressions, Grammar.moreExpressions]
  exact fails_nextIs hnext (fails_advance (fails_advance (h.fails _ rest _ htokens n)))

theorem ListRefused.expressions {rest : List Token} {c : Cursor} (h : ListRefused e ts)
    (hc : c.advance.tokens = ts ++ rest) (n : Nat) : Fails e (expressions n .rbracket) c := by
  cases n with
  | zero =>
      intro r c' hr
      cases hr
  | succ n =>
      have hopen : c.upcoming.kind ≠ .rbracket := Cursor.upcoming_ne_of_begins h.begins hc rfl
      rw [Parse.expressions, Grammar.expressions]
      exact fails_nextIsNot hopen (fails_advance (h.fails _ rest _ hc n))

theorem listRefused_more {x : Expr} {comma : Token} (hfirst : Printing anyLevel x ts)
    (hcomma : comma.kind = .comma) (h : ListRefused e ms) :
    ListRefused e (ts ++ comma :: ms) := by
  refine ⟨?_, fun next rest c hc n => ?_⟩
  · obtain ⟨t, more, rfl, ht⟩ := hfirst.begins
    exact ⟨t, more ++ comma :: ms, rfl, ht⟩
  · rw [List.append_assoc] at hc
    obtain ⟨c₁, hbefore, hread⟩ :=
      hfirst.readAs.whole hc (Token.ends_of_kind hcomma (by decide))
    exact (hread n).fails (h.moreExpressions hcomma hbefore.rest_eq n).bind

theorem refused_array (ht : t.kind = .lbracket) (h : ListRefused e ts) (ms : List Token) :
    Refused e (t :: (ts ++ ms)) := by
  refine refused_of_operand (by rw [ht]; rfl) fun rest c hc n => ?_
  rw [operand, Grammar.operand]
  refine fails_current ?_
  rw [Cursor.current_of_tokens hc, ht]
  rw [List.append_assoc] at hc
  exact (h.expressions (Cursor.advance_of_tokens hc) n).bind

theorem pairsRefused_key {ks : List Token} (h : Refused e ks) (ms : List Token) :
    PairsRefused e (ks ++ ms) := by
  refine fun rest c hc => fails_of_succ rfl fun n => ?_
  rw [List.append_assoc] at hc
  rw [pairs, Grammar.pairs]
  exact fails_nextIsNot (Cursor.upcoming_ne_of_begins h.begins hc rfl)
    (fails_advance (h.fails .lowest _ _ hc n).bind)

section Pairs

variable {key value : Expr} {colon comma : Token} {ks vs : List Token}
  (hkey : Printing anyLevel key ks) (hcolon : colon.kind = .colon)

include hkey hcolon

/-- Behind a key and its colon the value is read next. -/
theorem fails_pairs {rest : List Token} {c : Cursor} (hc : c.advance.tokens = ks ++ colon :: rest)
    (h : ∀ (c₁ : Cursor), c₁.tokens = rest → ∀ n, Fails e (do
      let value ← expression n .lowest
      if ← nextIs .rbrace then
        let more ← pairs n
        return (key, value) :: more
      else
        expectNext .comma
        let more ← pairs n
        return (key, value) :: more) c₁) (n : Nat) : Fails e (pairs n) c := by
  refine fails_of_succ rfl (fun n => ?_) n
  have hopen : c.upcoming.kind ≠ .rbrace := Cursor.upcoming_ne_of_begins hkey.begins hc rfl
  obtain ⟨c₁, hbefore, hread⟩ := hkey.readAs.whole hc (Token.ends_of_kind hcolon (by decide))
  have hnext : c₁.upcoming.kind = .colon := by
    rw [hbefore.upcoming_eq]
    exact hcolon
  have htokens : c₁.advance.advance.tokens = rest := Cursor.advance_of_tokens hbefore.rest_eq
  rw [pairs, Grammar.pairs]
  refine fails_nextIsNot hopen (fails_advance ((hread n).fails (fails_expectNext hnext ?_)))
  exact fails_advance (h _ htokens n)

theorem pairsRefused_value (h : Refused e vs) (ms : List Token) :
    PairsRefused e (ks ++ colon :: (vs ++ ms)) := by
  intro rest c hc
  rw [List.append_assoc, List.cons_append, List.append_assoc] at hc
  exact fails_pairs hkey hcolon hc fun c₁ hc₁ n => (h.fails .lowest _ c₁ hc₁ n).bind

theorem pairsRefused_more (hvalue : Printing anyLevel value vs) (hcomma : comma.kind = .comma)
    (h : PairsRefused e ms) : PairsRefused e (ks ++ colon :: (vs ++ comma :: ms)) := by
  intro rest c hc
  rw [List.append_assoc, List.cons_append, List.append_assoc] at hc
  refine fails_pairs hkey hcolon hc fun c₁ hc₁ n => ?_
  obtain ⟨c₂, hbefore, hread⟩ := hvalue.readAs.whole hc₁ (Token.ends_of_kind hcomma (by decide))
  have hnext : c₂.upcoming.kind = .comma := by
    rw [hbefore.upcoming_eq]
    exact hcomma
  have htokens : c₂.advance.advance.tokens = ms ++ rest :=
    Cursor.advance_of_tokens hbefore.rest_eq
  refine (hread n).fails (fails_nextIsNot (by rw [hnext]; decide) (fails_expectNext hnext ?_))
  exact (h rest c₂.advance htokens n).bind

end Pairs

theorem refused_hash (ht : t.kind = .lbrace) (h : PairsRefused e ts) (ms : List Token) :
    Refused e (t :: (ts ++ ms)) := by
  refine refused_of_operand (by rw [ht]; rfl) fun rest c hc n => ?_
  rw [operand, Grammar.operand]
  refine fails_current ?_
  rw [Cursor.current_of_tokens hc, ht]
  rw [List.append_assoc] at hc
  exact (h _ c (Cursor.advance_of_tokens hc) n).bind

end Expr

namespace Parse

/-- A statement that has to be an expression is refused with it. -/
theorem fails_cursorment {e : SyntaxError} {ts rest : List Token} {c : Cursor}
    (h : Expr.Refused e ts) (hc : c.tokens = ts ++ rest) (n : Nat) : Fails e (statement n) c := by
  obtain ⟨t, more, rfl, ht⟩ := h.begins
  refine fails_of_succ rfl (fun n => ?_) n
  rw [statement, Grammar.statement]
  refine fails_beginning (fails_current ?_)
  rw [Cursor.current_of_tokens hc]
  split
  next hkind =>
    rw [hkind] at ht
    cases ht
  next hkind =>
    rw [hkind] at ht
    cases ht
  next => exact (h.fails .lowest rest c hc n).bind

/-- The error of a statement that fails is recorded, and stays to the end. -/
theorem mem_errors_of_programStatements {e : SyntaxError} {n : Nat} {c c' : Cursor}
    {ss : List Stmt} (hc : c.current.kind ≠ .eof) (h : ∀ n, Fails e (statement n) c)
    (hread : programStatements n c = some (.ok ss, c')) : e ∈ c'.errors := by
  cases n with
  | zero => cases hread
  | succ n =>
      obtain hs | ⟨s, t, hs⟩ | ⟨f, t, hs⟩ := Run.ended (statement n c)
      · rw [programStatements_none hc hs] at hread
        cases hread
      · cases h n _ _ hs
      · cases h n _ _ hs
        rw [programStatements_error hc hs] at hread
        refine (Cursor.onward_programStatements hread).errors.subset ?_
        rw [Cursor.errors_advance, Cursor.errors_recover, Cursor.errors_record]
        exact List.mem_append_right _ List.mem_cons_self

end Parse

theorem Program.mem_errors_of_refused {e : SyntaxError} {ts : List Token} (h : Expr.Refused e ts)
    (rest : List Token) : e ∈ (ofTokens (ts ++ rest)).2 := by
  have hc : (Cursor.start (ts ++ rest)).tokens = ts ++ rest := rfl
  obtain ⟨ss, c', hread, heq, -⟩ := (Cursor.start (ts ++ rest)).readProgram_spec
  rw [ofTokens, heq]
  refine Parse.mem_errors_of_programStatements ?_ (Parse.fails_cursorment h hc) hread
  obtain ⟨t, more, rfl, ht⟩ := h.begins
  rw [Cursor.current_of_tokens hc]
  intro hkind
  rw [hkind] at ht
  cases ht

end Treewalk
