import Treewalk.Proofs.Syntax.Noting
import Treewalk.Proofs.Syntax.Steps

/-!
Cursors that the rules of the grammar do not tell apart. A rule looks at the token it
stands on and at the next one, and at the braces when a statement has failed. A likeness is
a relation of cursors that agree in this and that the steps of the rules keep. From cursors
that are alike a rule does alike, and so does the same rule with a larger allowance, or
written in another monad. The plainest likeness is equality: a larger allowance changes
nothing, and notes change nothing.
-/

namespace Treewalk
namespace Grammar

open Observed (run run_pure run_bind run_step run_outcome run_exhausted run_beginning)
open MonadGrammar (step outcome exhausted beginning)

/-- Relations of cursors that the rules keep, as far as they may look ahead there. -/
structure Likeness (m : Type → Type) [MonadGrammar m] [Observed m] where
  /-- both stand on the same token -/
  Near : Cursor → Cursor → Prop
  /-- and the next token is the same too -/
  Sure : Cursor → Cursor → Prop
  /-- both are where a statement may begin in a block -/
  Within : Cursor → Cursor → Prop
  near_of_sure {c d : Cursor} (h : Sure c d) : Near c d
  near_of_within {c d : Cursor} (h : Within c d) : Near c d
  current_eq {c d : Cursor} (h : Near c d) : d.current = c.current
  upcoming_eq {c d : Cursor} (h : Sure c d) : d.upcoming = c.upcoming
  advance {c d : Cursor} (h : Sure c d) : Near c.advance d.advance
  sure_of_kind {c d : Cursor} (h : Near c d) (hkind : c.current.kind ≠ .semicolon) : Sure c d
  enter {c d : Cursor} (h : Sure c d) (hbrace : c.current.kind = .lbrace) :
    Within c.advance d.advance
  read {c c' d d' : Cursor} {n : Nat} {s : Stmt} (h : Within c d)
    (hbegins : c.current.kind ≠ .eof) (hgiven : run (statement n : m Stmt) c = some (.ok s, c'))
    (hnear : Near c' d') : Sure c' d' ∧ Within c'.advance d'.advance
  skipped {c c' d d' after : Cursor} {n : Nat} {e : SyntaxError} {closed : Bool}
    (h : Within c d) (hbegins : c.current.kind ≠ .eof)
    (hgiven : run (statement n : m Stmt) c = some (.error e, c')) (hnear : Near c' d')
    (hrecover : (c'.record e).recover c.depthBefore = (closed, after)) :
    ∃ after', (d'.record e).recover d.depthBefore = (closed, after') ∧ Sure after after' ∧
      (closed = false → Within after.advance after'.advance)

variable {m m' : Type → Type} [MonadGrammar m] [Observed m] [MonadGrammar m'] [Observed m']
  {L : Likeness m} {α β : Type} {c d : Cursor} {done done' : Cursor → Cursor → Prop}

namespace Likeness

theorem sure_advance (h : L.Sure c d) {kind : TokenKind} (hkind : c.upcoming.kind = kind)
    (hne : kind ≠ .semicolon) : L.Sure c.advance d.advance :=
  L.sure_of_kind (L.advance h) (hkind ▸ hne)

theorem sure_of_current (h : L.Near c d) {kind : TokenKind} (hkind : c.current.kind = kind)
    (hne : kind ≠ .semicolon) : L.Sure c d :=
  L.sure_of_kind h (hkind ▸ hne)

/-- A cursor is like itself. -/
def same (m : Type → Type) [MonadGrammar m] [Observed m] : Likeness m where
  Near c d := c = d
  Sure c d := c = d
  Within c d := c = d
  near_of_sure h := h
  near_of_within h := h
  current_eq h := h ▸ rfl
  upcoming_eq h := h ▸ rfl
  advance h := h ▸ rfl
  sure_of_kind h _ := h
  enter h _ := h ▸ rfl
  read _ _ _ h := ⟨h, h ▸ rfl⟩
  skipped := by
    rintro c c' _ _ after n e closed rfl _ _ rfl hrecover
    exact ⟨after, hrecover, rfl, fun _ => rfl⟩

end Likeness

/-- What the first rule does on its cursor, the second does on its own, and they end on
cursors that are alike; if there is a result, also as asked for. -/
def Alike (L : Likeness m) (done : Cursor → Cursor → Prop) (x : m α) (c : Cursor) (y : m' α)
    (d : Cursor) : Prop :=
  ∀ r c', run x c = some (r, c') →
    ∃ d', run y d = some (r, d') ∧ L.Near c' d' ∧ ∀ a, r = .ok a → done c' d'

theorem alike_exhausted (y : m' α) : Alike L done (exhausted : m α) c y d := by
  intro r c' hr
  rw [run_exhausted] at hr
  cases hr

theorem alike_pure {a : α} (hnear : L.Near c d) (h : done c d) :
    Alike L done (pure a : m α) c (pure a : m' α) d := by
  intro r c' hr
  rw [run_pure] at hr
  cases hr
  exact ⟨d, by rw [run_pure]; rfl, hnear, fun _ _ => h⟩

/-- A step that fails on either cursor in the same way. -/
theorem alike_failing {p : Parse α} {e : SyntaxError} (hnear : L.Near c d)
    (hc : p c = some (.error e, c)) (hd : p d = some (.error e, d)) :
    Alike L done (step p : m α) c (step p : m' α) d := by
  intro r c' hr
  rw [run_step, hc] at hr
  cases hr
  exact ⟨d, by rw [run_step, hd], hnear, fun _ h => nomatch h⟩

theorem alike_fail {e : SyntaxError} (hnear : L.Near c d) :
    Alike L done (fail e : m α) c (fail e : m' α) d :=
  alike_failing hnear rfl rfl

theorem alike_advance (hsure : L.Sure c d) (h : done c.advance d.advance) :
    Alike L done (advance : m Unit) c (advance : m' Unit) d := by
  intro r c' hr
  rw [advance, run_step] at hr
  cases hr
  exact ⟨d.advance, by rw [advance, run_step]; rfl, L.advance hsure, fun _ _ => h⟩

section Bind

variable {x : m α} {y : m' α} {next : α → m β} {next' : α → m' β}

theorem Alike.bind (h : Alike L done x c y d)
    (hnext : ∀ a c' d', L.Near c' d' → done c' d' → Alike L done' (next a) c' (next' a) d') :
    Alike L done' (x >>= next) c (y >>= next') d := by
  intro r c' hr
  rw [run_bind, Run.bind_apply] at hr
  obtain hx | ⟨a, c₁, hx⟩ | ⟨e, c₁, hx⟩ := Run.ended (run x c)
  · rw [hx] at hr
    cases hr
  · obtain ⟨d₁, hy, hnear, hdone⟩ := h _ _ hx
    rw [hx] at hr
    rw [run_bind, Run.bind_apply, hy]
    exact hnext a c₁ d₁ hnear (hdone a rfl) r c' hr
  · obtain ⟨d₁, hy, hnear, -⟩ := h _ _ hx
    rw [hx] at hr
    cases hr
    rw [run_bind, Run.bind_apply, hy]
    exact ⟨d₁, rfl, hnear, fun _ h => nomatch h⟩

theorem Alike.outcome {next : Except SyntaxError α → m β} {next' : Except SyntaxError α → m' β}
    (h : Alike L done x c y d)
    (hok : ∀ a c' d', run x c = some (.ok a, c') → L.Near c' d' → done c' d' →
      Alike L done' (next (.ok a)) c' (next' (.ok a)) d')
    (herror : ∀ e c' d', run x c = some (.error e, c') → L.Near c' d' →
      Alike L done' (next (.error e)) c' (next' (.error e)) d') :
    Alike L done' (outcome x >>= next) c (outcome y >>= next') d := by
  intro r c' hr
  rw [run_bind, run_outcome, Run.bind_apply, Run.outcome] at hr
  obtain hx | ⟨a, c₁, hx⟩ | ⟨e, c₁, hx⟩ := Run.ended (run x c)
  · rw [hx] at hr
    cases hr
  · obtain ⟨d₁, hy, hnear, hdone⟩ := h _ _ hx
    rw [hx] at hr
    rw [run_bind, run_outcome, Run.bind_apply, Run.outcome, hy]
    exact hok a c₁ d₁ hx hnear (hdone a rfl) r c' hr
  · obtain ⟨d₁, hy, hnear, -⟩ := h _ _ hx
    rw [hx] at hr
    rw [run_bind, run_outcome, Run.bind_apply, Run.outcome, hy]
    exact herror e c₁ d₁ hx hnear r c' hr

/-- Steps come first that only move the cursor. -/
theorem alike_step {p q : Parse α} {a b : α} {c' d' : Cursor} (hc : p c = some (.ok a, c'))
    (hd : q d = some (.ok b, d')) (h : Alike L done (next a) c' (next' b) d') :
    Alike L done (step p >>= next) c (step q >>= next') d := by
  intro r t hr
  rw [run_bind, run_step, Run.bind_apply, hc] at hr
  rw [run_bind, run_step, Run.bind_apply, hd]
  exact h r t hr

theorem alike_beginning {next : Unit → m β} {next' : Unit → m' β}
    (h : Alike L done (next ()) c (next' ()) d) :
    Alike L done (beginning >>= next) c (beginning >>= next') d := by
  intro r t hr
  rw [run_bind, run_beginning] at hr ⊢
  exact h r t hr

theorem alike_cursor {next : Cursor → m β} {next' : Cursor → m' β}
    (h : Alike L done (next c) c (next' d) d) :
    Alike L done (cursor >>= next) c (cursor >>= next') d :=
  alike_step rfl rfl h

theorem alike_current {next : Token → m β} {next' : Token → m' β} (hnear : L.Near c d)
    (h : Alike L done (next c.current) c (next' c.current) d) :
    Alike L done (current >>= next) c (current >>= next') d :=
  alike_step rfl rfl ((L.current_eq hnear).symm ▸ h)

theorem alike_nextIs {kind : TokenKind} {next : Bool → m β} {next' : Bool → m' β}
    (hsure : L.Sure c d)
    (hyes : c.upcoming.kind = kind → Alike L done (next true) c (next' true) d)
    (hno : Alike L done (next false) c (next' false) d) :
    Alike L done (nextIs kind >>= next) c (nextIs kind >>= next') d := by
  refine alike_step (a := c.upcoming.kind == kind) rfl rfl ?_
  rw [L.upcoming_eq hsure]
  by_cases h : c.upcoming.kind = kind
  · rw [beq_iff_eq.2 h]
    exact hyes h
  · rw [beq_eq_false_iff_ne.2 h]
    exact hno

theorem alike_advance_bind {next : Unit → m β} {next' : Unit → m' β}
    (h : Alike L done (next ()) c.advance (next' ()) d.advance) :
    Alike L done (advance >>= next) c (advance >>= next') d :=
  alike_step rfl rfl h

theorem alike_record {e : SyntaxError} {next : Unit → m β} {next' : Unit → m' β}
    (h : Alike L done (next ()) (c.record e) (next' ()) (d.record e)) :
    Alike L done (record e >>= next) c (record e >>= next') d :=
  alike_step rfl rfl h

theorem alike_recover {base base' : Int} {closed : Bool} {c' d' : Cursor} {next : Bool → m β}
    {next' : Bool → m' β} (hc : c.recover base = (closed, c')) (hd : d.recover base' = (closed, d'))
    (h : Alike L done (next closed) c' (next' closed) d') :
    Alike L done (recover base >>= next) c (recover base' >>= next') d :=
  alike_step ((Run.updateGet_apply (Cursor.recover base) c).trans (by rw [hc]))
    ((Run.updateGet_apply (Cursor.recover base') d).trans (by rw [hd])) h

theorem alike_expectNext {kind : TokenKind} {next : Unit → m β} {next' : Unit → m' β}
    (hsure : L.Sure c d) (hne : kind ≠ .semicolon)
    (h : c.upcoming.kind = kind → L.Sure c.advance d.advance →
      Alike L done (next ()) c.advance (next' ()) d.advance) :
    Alike L done (expectNext kind >>= next) c (expectNext kind >>= next') d := by
  have heq := L.upcoming_eq hsure
  by_cases hkind : c.upcoming.kind = kind
  · exact alike_step (if_pos hkind) (if_pos (heq ▸ hkind))
      (h hkind (L.sure_advance hsure hkind hne))
  · have hfail : Alike L (fun _ _ => False) (expectNext kind : m Unit) c
        (expectNext kind : m' Unit) d := by
      refine alike_failing (e := .unexpected kind c.upcoming.kind) (L.near_of_sure hsure)
        (if_neg hkind) ?_
      rw [← heq] at hkind ⊢
      exact if_neg hkind
    exact hfail.bind fun _ _ _ _ h => h.elim

theorem alike_optionalSemicolon (hsure : L.Sure c d) :
    Alike L (fun _ _ => True) (optionalSemicolon : m Unit) c (optionalSemicolon : m' Unit) d := by
  refine alike_nextIs hsure (fun _ => ?_) (alike_pure (L.near_of_sure hsure) trivial)
  exact alike_advance hsure trivial

end Bind

/-- The rules with allowances of so many nested calls, from cursors that are alike. A rule
that ends on its last token can see the next one there. -/
structure AlikeAt (L : Likeness m) (m' : Type → Type) [MonadGrammar m'] [Observed m']
    (n n' : Nat) : Prop where
  moreParameters {c d : Cursor} (h : L.Sure c d) :
    Alike L L.Sure (moreParameters n : m (List Token)) c (moreParameters n' : m' (List Token)) d
  expression (p : Precedence) {c d : Cursor} (h : L.Near c d) :
    Alike L L.Sure (expression n p : m Expr) c (expression n' p : m' Expr) d
  operators (p : Precedence) (left : Expr) {c d : Cursor} (h : L.Sure c d) :
    Alike L L.Sure (operators n p left : m Expr) c (operators n' p left : m' Expr) d
  extend (left : Expr) {c d : Cursor} (h : L.Sure c d) :
    Alike L L.Sure (extend n left : m Expr) c (extend n' left : m' Expr) d
  operand {c d : Cursor} (h : L.Near c d) :
    Alike L L.Sure (operand n : m Expr) c (operand n' : m' Expr) d
  expressions {close : TokenKind} (hclose : close ≠ .semicolon) {c d : Cursor}
    (h : L.Sure c d) :
    Alike L L.Sure (expressions n close : m (List Expr)) c
      (expressions n' close : m' (List Expr)) d
  moreExpressions {c d : Cursor} (h : L.Sure c d) :
    Alike L L.Sure (moreExpressions n : m (List Expr)) c (moreExpressions n' : m' (List Expr)) d
  pairs {c d : Cursor} (h : L.Sure c d) :
    Alike L L.Sure (pairs n : m (List (Expr × Expr))) c (pairs n' : m' (List (Expr × Expr))) d
  block {c d : Cursor} (h : L.Sure c d) (hbrace : c.current.kind = .lbrace) :
    Alike L L.Sure (block n : m Block) c (block n' : m' Block) d
  blockStatements {c d : Cursor} (h : L.Within c d) :
    Alike L L.Sure (blockStatements n : m (List Stmt)) c (blockStatements n' : m' (List Stmt)) d
  statement {c d : Cursor} (h : L.Near c d) :
    Alike L (fun _ _ => True) (statement n : m Stmt) c (statement n' : m' Stmt) d

theorem alikeAt_zero (L : Likeness m) (n' : Nat) : AlikeAt L m' 0 n' := by
  constructor <;> intros <;> exact alike_exhausted _

section Step

variable {n n' : Nat} (h : AlikeAt L m' n n')
include h

theorem AlikeAt.moreParameters_succ (hc : L.Sure c d) :
    Alike L L.Sure (Grammar.moreParameters (n + 1) : m (List Token)) c
      (Grammar.moreParameters (n' + 1) : m' (List Token)) d := by
  rw [Grammar.moreParameters, Grammar.moreParameters]
  refine alike_nextIs hc (fun hcomma => ?_) (alike_pure (L.near_of_sure hc) hc)
  have h₁ := L.sure_advance hc hcomma (by decide)
  refine alike_advance_bind (alike_expectNext h₁ (by decide) fun _ h₂ => ?_)
  refine alike_current (L.near_of_sure h₂) ?_
  exact (h.moreParameters h₂).bind fun _ _ _ hnear h₃ => alike_pure hnear h₃

theorem AlikeAt.parameters (hc : L.Sure c d) :
    Alike L L.Sure (Grammar.parameters n : m (List Token)) c
      (Grammar.parameters n' : m' (List Token)) d := by
  rw [Grammar.parameters, Grammar.parameters]
  refine alike_nextIs hc (fun hclose => alike_advance_bind ?_) ?_
  · have h₁ := L.sure_advance hc hclose (by decide)
    exact alike_pure (L.near_of_sure h₁) h₁
  · refine alike_expectNext hc (by decide) fun _ h₁ => ?_
    refine alike_current (L.near_of_sure h₁) ?_
    refine (h.moreParameters h₁).bind fun _ _ _ _ h₂ => ?_
    exact alike_expectNext h₂ (by decide) fun _ h₃ => alike_pure (L.near_of_sure h₃) h₃

theorem AlikeAt.operators_succ (p : Precedence) (left : Expr) (hc : L.Sure c d) :
    Alike L L.Sure (Grammar.operators (n + 1) p left : m Expr) c
      (Grammar.operators (n' + 1) p left : m' Expr) d := by
  rw [Grammar.operators, Grammar.operators]
  refine alike_cursor ?_
  rw [L.upcoming_eq hc]
  split
  · rename_i hweaker
    have h₁ := L.sure_advance hc rfl (Precedence.ne_of_weaker _ hweaker rfl)
    refine alike_advance_bind ((h.extend left h₁).bind fun longer _ _ _ h₂ => ?_)
    exact h.operators p longer h₂
  · exact alike_pure (L.near_of_sure hc) hc

theorem AlikeAt.extend_succ (left : Expr) (hc : L.Sure c d) :
    Alike L L.Sure (Grammar.extend (n + 1) left : m Expr) c
      (Grammar.extend (n' + 1) left : m' Expr) d := by
  rw [Grammar.extend, Grammar.extend]
  refine alike_current (L.near_of_sure hc) ?_
  split
  · exact (h.expressions (by decide) hc).bind fun _ _ _ hnear h₁ => alike_pure hnear h₁
  · refine alike_advance_bind ((h.expression .lowest (L.advance hc)).bind fun _ _ _ _ h₁ => ?_)
    exact alike_expectNext h₁ (by decide) fun _ h₂ => alike_pure (L.near_of_sure h₂) h₂
  · split
    · exact alike_advance_bind ((h.expression _ (L.advance hc)).bind fun _ _ _ hnear h₁ =>
        alike_pure hnear h₁)
    · exact alike_pure (L.near_of_sure hc) hc

theorem AlikeAt.prefixed (t : Token) (op : PrefixOp) (hc : L.Sure c d) :
    Alike L L.Sure
      (do advance
          let e ← Grammar.expression n .prefixed
          return .prefixed t op e : m Expr) c
      (do advance
          let e ← Grammar.expression n' .prefixed
          return .prefixed t op e : m' Expr) d :=
  alike_advance_bind ((h.expression .prefixed (L.advance hc)).bind fun _ _ _ hnear h₁ =>
    alike_pure hnear h₁)

theorem AlikeAt.operand_succ (hc : L.Near c d) :
    Alike L L.Sure (Grammar.operand (n + 1) : m Expr) c
      (Grammar.operand (n' + 1) : m' Expr) d := by
  rw [Grammar.operand, Grammar.operand]
  refine alike_current hc ?_
  generalize hkind : c.current.kind = kind
  split
  · exact alike_pure hc (L.sure_of_current hc hkind (by decide))
  · split
    · exact alike_pure hc (L.sure_of_current hc hkind (by decide))
    · exact alike_fail hc
  · exact alike_pure hc (L.sure_of_current hc hkind (by decide))
  · exact alike_pure hc (L.sure_of_current hc hkind (by decide))
  · exact alike_pure hc (L.sure_of_current hc hkind (by decide))
  · exact h.prefixed _ .not (L.sure_of_current hc hkind (by decide))
  · exact h.prefixed _ .negate (L.sure_of_current hc hkind (by decide))
  · have h₁ := L.sure_of_current hc hkind (by decide)
    refine alike_advance_bind ((h.expression .lowest (L.advance h₁)).bind fun _ _ _ _ h₂ => ?_)
    exact alike_expectNext h₂ (by decide) fun _ h₃ => alike_pure (L.near_of_sure h₃) h₃
  · have h₁ := L.sure_of_current hc hkind (by decide)
    refine alike_expectNext h₁ (by decide) fun _ h₂ => alike_advance_bind ?_
    refine (h.expression .lowest (L.advance h₂)).bind fun _ _ _ _ h₃ => ?_
    refine alike_expectNext h₃ (by decide) fun _ h₄ => ?_
    refine alike_expectNext h₄ (by decide) fun hbrace h₅ => ?_
    refine (h.block h₅ hbrace).bind fun _ _ _ hnear h₆ => ?_
    refine alike_nextIs h₆ (fun helse => alike_advance_bind ?_) (alike_pure hnear h₆)
    have h₇ := L.sure_advance h₆ helse (by decide)
    refine alike_expectNext h₇ (by decide) fun hbrace' h₈ => ?_
    exact (h.block h₈ hbrace').bind fun _ _ _ hnear h₉ => alike_pure hnear h₉
  · have h₁ := L.sure_of_current hc hkind (by decide)
    refine alike_expectNext h₁ (by decide) fun _ h₂ => ?_
    refine (h.parameters h₂).bind fun _ _ _ _ h₃ => ?_
    refine alike_expectNext h₃ (by decide) fun hbrace h₄ => ?_
    exact (h.block h₄ hbrace).bind fun _ _ _ hnear h₅ => alike_pure hnear h₅
  · have h₁ := L.sure_of_current hc hkind (by decide)
    exact (h.expressions (by decide) h₁).bind fun _ _ _ hnear h₂ => alike_pure hnear h₂
  · have h₁ := L.sure_of_current hc hkind (by decide)
    exact (h.pairs h₁).bind fun _ _ _ hnear h₂ => alike_pure hnear h₂
  · exact alike_fail hc

theorem AlikeAt.expressions_succ {close : TokenKind} (hclose : close ≠ .semicolon)
    (hc : L.Sure c d) :
    Alike L L.Sure (Grammar.expressions (n + 1) close : m (List Expr)) c
      (Grammar.expressions (n' + 1) close : m' (List Expr)) d := by
  rw [Grammar.expressions, Grammar.expressions]
  refine alike_nextIs hc (fun hnext => alike_advance_bind ?_) (alike_advance_bind ?_)
  · have h₁ := L.sure_advance hc hnext hclose
    exact alike_pure (L.near_of_sure h₁) h₁
  · refine (h.expression .lowest (L.advance hc)).bind fun _ _ _ _ h₁ => ?_
    refine (h.moreExpressions h₁).bind fun _ _ _ _ h₂ => ?_
    exact alike_expectNext h₂ hclose fun _ h₃ => alike_pure (L.near_of_sure h₃) h₃

theorem AlikeAt.moreExpressions_succ (hc : L.Sure c d) :
    Alike L L.Sure (Grammar.moreExpressions (n + 1) : m (List Expr)) c
      (Grammar.moreExpressions (n' + 1) : m' (List Expr)) d := by
  rw [Grammar.moreExpressions, Grammar.moreExpressions]
  refine alike_nextIs hc (fun hcomma => ?_) (alike_pure (L.near_of_sure hc) hc)
  have h₁ := L.sure_advance hc hcomma (by decide)
  refine alike_advance_bind (alike_advance_bind ?_)
  refine (h.expression .lowest (L.advance h₁)).bind fun _ _ _ _ h₂ => ?_
  exact (h.moreExpressions h₂).bind fun _ _ _ hnear h₃ => alike_pure hnear h₃

theorem AlikeAt.pairs_succ (hc : L.Sure c d) :
    Alike L L.Sure (Grammar.pairs (n + 1) : m (List (Expr × Expr))) c
      (Grammar.pairs (n' + 1) : m' (List (Expr × Expr))) d := by
  rw [Grammar.pairs, Grammar.pairs]
  refine alike_nextIs hc (fun hclose => alike_advance_bind ?_) (alike_advance_bind ?_)
  · have h₁ := L.sure_advance hc hclose (by decide)
    exact alike_pure (L.near_of_sure h₁) h₁
  · refine (h.expression .lowest (L.advance hc)).bind fun _ _ _ _ h₁ => ?_
    refine alike_expectNext h₁ (by decide) fun _ h₂ => alike_advance_bind ?_
    refine (h.expression .lowest (L.advance h₂)).bind fun _ _ _ _ h₃ => ?_
    refine alike_nextIs h₃ (fun _ => ?_) (alike_expectNext h₃ (by decide) fun _ h₄ => ?_)
    · exact (h.pairs h₃).bind fun _ _ _ hnear h₄ => alike_pure hnear h₄
    · exact (h.pairs h₄).bind fun _ _ _ hnear h₅ => alike_pure hnear h₅

theorem AlikeAt.block_succ (hc : L.Sure c d) (hbrace : c.current.kind = .lbrace) :
    Alike L L.Sure (Grammar.block (n + 1) : m Block) c (Grammar.block (n' + 1) : m' Block) d := by
  rw [Grammar.block, Grammar.block]
  refine alike_current (L.near_of_sure hc) (alike_advance_bind ?_)
  refine (h.blockStatements (L.enter hc hbrace)).bind fun _ _ _ hnear h₁ => ?_
  refine alike_current hnear ?_
  split
  · exact alike_fail hnear
  · exact alike_pure hnear h₁

theorem AlikeAt.blockStatements_succ (hc : L.Within c d) :
    Alike L L.Sure (Grammar.blockStatements (n + 1) : m (List Stmt)) c
      (Grammar.blockStatements (n' + 1) : m' (List Stmt)) d := by
  have hnear := L.near_of_within hc
  rw [Grammar.blockStatements, Grammar.blockStatements]
  refine alike_cursor ?_
  rw [L.current_eq hnear]
  split
  · rename_i hstop
    refine alike_pure hnear (L.sure_of_kind hnear ?_)
    obtain hkind | hkind := hstop <;> rw [hkind] <;> decide
  · rename_i hgo
    have hbegins : c.current.kind ≠ .eof := fun heof => hgo (.inr heof)
    refine (h.statement hnear).outcome (fun s c₁ d₁ hgiven h₁ _ => ?_) fun e c₁ d₁ hgiven h₁ => ?_
    · obtain ⟨-, hnext⟩ := L.read hc hbegins hgiven h₁
      refine alike_advance_bind ((h.blockStatements hnext).bind fun _ _ _ hnear' h₂ => ?_)
      exact alike_pure hnear' h₂
    · obtain ⟨d₂, heq, h₂, hnext⟩ := L.skipped hc hbegins hgiven h₁ rfl
      refine alike_record (alike_recover rfl heq ?_)
      split
      · exact alike_pure (L.near_of_sure h₂) h₂
      · exact alike_advance_bind (h.blockStatements (hnext (Bool.eq_false_iff.2 ‹_›)))

theorem AlikeAt.statement_succ (hc : L.Near c d) :
    Alike L (fun _ _ => True) (Grammar.statement (n + 1) : m Stmt) c
      (Grammar.statement (n' + 1) : m' Stmt) d := by
  have hend : ∀ (make : Expr → Stmt) {c d : Cursor}, L.Near c d →
      Alike L (fun _ _ => True)
        (do let value ← Grammar.expression n .lowest
            optionalSemicolon
            return make value : m Stmt) c
        (do let value ← Grammar.expression n' .lowest
            optionalSemicolon
            return make value : m' Stmt) d := fun make _ _ hnear =>
    (h.expression .lowest hnear).bind fun _ _ _ _ h₁ =>
      (alike_optionalSemicolon h₁).bind fun _ _ _ hnear' _ => alike_pure hnear' trivial
  rw [Grammar.statement, Grammar.statement]
  refine alike_beginning (alike_current hc ?_)
  generalize hkind : c.current.kind = kind
  split
  · have h₁ := L.sure_of_current hc hkind (by decide)
    refine alike_expectNext h₁ (by decide) fun _ h₂ => alike_current (L.near_of_sure h₂) ?_
    refine alike_expectNext h₂ (by decide) fun _ h₃ => alike_advance_bind ?_
    exact hend _ (L.advance h₃)
  · have h₁ := L.sure_of_current hc hkind (by decide)
    exact alike_advance_bind (hend _ (L.advance h₁))
  · exact hend _ hc

theorem AlikeAt.succ : AlikeAt L m' (n + 1) (n' + 1) where
  moreParameters := h.moreParameters_succ
  expression p _ _ hc := by
    rw [Grammar.expression, Grammar.expression]
    exact (h.operand hc).bind fun left _ _ _ h₁ => h.operators p left h₁
  operators p left _ _ := h.operators_succ p left
  extend left _ _ := h.extend_succ left
  operand := h.operand_succ
  expressions hclose _ _ := h.expressions_succ hclose
  moreExpressions := h.moreExpressions_succ
  pairs := h.pairs_succ
  block := h.block_succ
  blockStatements := h.blockStatements_succ
  statement := h.statement_succ

end Step

theorem alikeAt (L : Likeness m) (m' : Type → Type) [MonadGrammar m'] [Observed m'] {n n' : Nat}
    (hle : n ≤ n') : AlikeAt L m' n n' := by
  induction n generalizing n' with
  | zero => exact alikeAt_zero L n'
  | succ n ih =>
      obtain ⟨n', rfl⟩ := Nat.exists_eq_succ_of_ne_zero (Nat.ne_zero_of_lt hle)
      exact (ih (Nat.le_of_succ_le_succ hle)).succ

/-- Where every two cursors that are alike may be in a list of statements, these are read
alike to the end. -/
theorem alike_programStatements (hwithin : ∀ {c d : Cursor}, L.Near c d → L.Within c d)
    {n n' : Nat} (hle : n ≤ n') (hc : L.Near c d) :
    Alike L (fun _ _ => True) (programStatements n : m (List Stmt)) c
      (programStatements n' : m' (List Stmt)) d := by
  induction n generalizing n' c d with
  | zero => exact alike_exhausted _
  | succ n ih =>
      obtain ⟨n', rfl⟩ := Nat.exists_eq_succ_of_ne_zero (Nat.ne_zero_of_lt hle)
      have hle' := Nat.le_of_succ_le_succ hle
      rw [programStatements, programStatements]
      refine alike_cursor ?_
      rw [L.current_eq hc]
      split
      · exact alike_pure hc trivial
      · rename_i hbegins
        refine ((alikeAt L m' hle').statement hc).outcome (fun s c₁ d₁ hgiven h₁ _ => ?_)
          fun e c₁ d₁ hgiven h₁ => ?_
        · obtain ⟨hsure, -⟩ := L.read (hwithin hc) hbegins hgiven h₁
          refine alike_advance_bind ((ih hle' (L.advance hsure)).bind fun _ _ _ hnear _ => ?_)
          exact alike_pure hnear trivial
        · obtain ⟨d₂, heq, hsure, -⟩ := L.skipped (hwithin hc) hbegins hgiven h₁ rfl
          exact alike_record
            (alike_recover rfl heq (alike_advance_bind (ih hle' (L.advance hsure))))

/-! From the same cursor. -/

theorem Alike.run_eq {x : m α} {y : m' α} (h : Alike (.same m) done x c y c)
    {r : Except SyntaxError α} {c' : Cursor} (hr : run x c = some (r, c')) :
    run y c = some (r, c') := by
  obtain ⟨d', hy, heq, -⟩ := h r c' hr
  rwa [show d' = c' from heq.symm] at hy

/-- What is seen of a rule is the plain rule, if each is like the other. -/
theorem run_eq_of_alike {x : m α} {p : Parse α} (h : ∀ c, Alike (.same m) done x c p c)
    (h' : ∀ c, Alike (.same Parse) done' p c x c) : run x = p := by
  funext c
  exact Option.ext fun r => ⟨(h c).run_eq, (h' c).run_eq⟩

theorem run_statement (m : Type → Type) [MonadGrammar m] [Observed m] (n : Nat) :
    run (statement n : m Stmt) = Parse.statement n :=
  run_eq_of_alike (fun _ => (alikeAt _ _ (Nat.le_refl n)).statement rfl)
    fun _ => (alikeAt _ _ (Nat.le_refl n)).statement rfl

theorem run_expression (m : Type → Type) [MonadGrammar m] [Observed m] (n : Nat)
    (p : Precedence) : run (expression n p : m Expr) = Parse.expression n p :=
  run_eq_of_alike (fun _ => (alikeAt _ _ (Nat.le_refl n)).expression p rfl)
    fun _ => (alikeAt _ _ (Nat.le_refl n)).expression p rfl

theorem run_programStatements (m : Type → Type) [MonadGrammar m] [Observed m] (n : Nat) :
    run (programStatements n : m (List Stmt)) = Parse.programStatements n :=
  run_eq_of_alike (fun _ => alike_programStatements id (Nat.le_refl n) rfl)
    fun _ => alike_programStatements id (Nat.le_refl n) rfl

end Grammar

namespace Parse

open Grammar (Alike alikeAt alike_programStatements)

variable {n n' : Nat} {c c' : Cursor}

theorem statement_mono (hle : n ≤ n') {r : Except SyntaxError Stmt}
    (h : statement n c = some (r, c')) : statement n' c = some (r, c') :=
  ((alikeAt (.same Parse) Parse hle).statement rfl).run_eq h

theorem programStatements_mono (hle : n ≤ n') {r : Except SyntaxError (List Stmt)}
    (h : programStatements n c = some (r, c')) : programStatements n' c = some (r, c') := by
  have halike : Alike (.same Parse) (fun _ _ => True) (programStatements n) c
      (programStatements n') c := alike_programStatements id hle rfl
  exact halike.run_eq h

end Parse
end Treewalk
