import Mathlib.Data.List.Infix
import Mathlib.Logic.Function.Iterate
import Treewalk.Proofs.Syntax.Steps

/-!
Braces on the way of the cursor. A cursor only moves on and only collects errors, and it
counts every brace that it passes. What matters is how many braces are open behind each
token on the way from one place to another: while a failed statement is skipped, they are
never fewer than where the statement began.
-/

namespace Treewalk

theorem prefix_of_append {α : Type} {p xs ys : List α} (h : p <+: xs ++ ys) :
    p <+: xs ∨ ∃ q, q <+: ys ∧ p = xs ++ q := by
  obtain hp | ⟨q, rfl⟩ := List.prefix_or_prefix_of_prefix h (List.prefix_append xs ys)
  · exact .inl hp
  · exact .inr ⟨q, (List.prefix_append_right_inj xs).1 h, rfl⟩

theorem suffix_of_append {α : Type} {s xs ys : List α} (h : s <:+ xs ++ ys) :
    s <:+ ys ∨ ∃ q, q <:+ xs ∧ s = q ++ ys := by
  obtain hs | ⟨q, rfl⟩ := List.suffix_or_suffix_of_suffix h (List.suffix_append xs ys)
  · exact .inl hs
  · exact .inr ⟨q, (List.suffix_append_self_iff).1 h, rfl⟩

namespace Token

variable {xs ys : List Token}

/-- Braces opened less braces closed. -/
def braceBalance : List Token → Int
  | [] => 0
  | t :: ts => t.kind.braceWeight + braceBalance ts

theorem braceBalance_append (xs ys : List Token) :
    braceBalance (xs ++ ys) = braceBalance xs + braceBalance ys := by
  induction xs with
  | nil => exact (Int.zero_add _).symm
  | cons t xs ih => rw [List.cons_append, braceBalance, braceBalance, ih, Int.add_assoc]

theorem braceBalance_singleton (t : Token) : braceBalance [t] = t.kind.braceWeight :=
  Int.add_zero _

/-- Nowhere are more braces closed than opened, and in the end all are closed. -/
structure Balanced (ts : List Token) : Prop where
  nonneg : ∀ p, p <+: ts → 0 ≤ braceBalance p
  total : braceBalance ts = 0

instance (ts : List Token) : Decidable (Balanced ts) :=
  decidable_of_iff ((∀ p ∈ ts.inits, 0 ≤ braceBalance p) ∧ braceBalance ts = 0)
    ⟨fun h => ⟨fun p hp => h.1 p ((List.mem_inits p ts).2 hp), h.2⟩,
      fun h => ⟨fun p hp => h.1 p ((List.mem_inits p ts).1 hp), h.2⟩⟩

/-- Each brace that is opened is closed again. -/
def NoneOpen (ts : List Token) : Prop :=
  ∀ s, s <:+ ts → braceBalance s ≤ 0

theorem noneOpen_nil : NoneOpen [] := by
  intro s hs
  rw [List.suffix_nil.1 hs]
  exact Int.le_refl 0

theorem NoneOpen.append (h : NoneOpen xs) (h' : NoneOpen ys) : NoneOpen (xs ++ ys) := by
  intro s hs
  obtain hs | ⟨q, hq, rfl⟩ := suffix_of_append hs
  · exact h' s hs
  · rw [braceBalance_append]
    have := h q hq
    have := h' ys List.suffix_rfl
    omega

theorem balanced_nil : Balanced [] :=
  ⟨fun p hp => by rw [List.prefix_nil.1 hp]; exact Int.le_refl 0, rfl⟩

theorem Balanced.append (h : Balanced xs) (h' : Balanced ys) : Balanced (xs ++ ys) where
  nonneg p hp := by
    obtain hp | ⟨q, hq, rfl⟩ := prefix_of_append hp
    · exact h.nonneg p hp
    · rw [braceBalance_append, h.total, Int.zero_add]
      exact h'.nonneg q hq
  total := by rw [braceBalance_append, h.total, h'.total, Int.add_zero]

theorem Balanced.noneOpen (h : Balanced xs) : NoneOpen xs := by
  rintro s ⟨p, rfl⟩
  have hp := h.nonneg p (List.prefix_append p s)
  have htotal := h.total
  rw [braceBalance_append] at htotal
  omega

end Token

namespace Cursor

open Token (braceBalance braceBalance_append braceBalance_singleton)

variable {c c' c'' : Cursor} {d floor : Int}

/-- The second cursor is further on and has seen more errors. -/
structure Onward (c c' : Cursor) : Prop where
  tokens : c'.tokens <:+ c.tokens
  errors : c.errors <+: c'.errors

namespace Onward

theorem refl (c : Cursor) : c.Onward c :=
  ⟨List.suffix_rfl, List.prefix_rfl⟩

theorem trans (h : c.Onward c') (h' : c'.Onward c'') : c.Onward c'' :=
  ⟨h'.tokens.trans h.tokens, h.errors.trans h'.errors⟩

theorem advance (c : Cursor) : c.Onward c.advance :=
  ⟨List.tail_suffix c.tokens, List.prefix_rfl⟩

theorem record (e : SyntaxError) (c : Cursor) : c.Onward (c.record e) :=
  ⟨List.suffix_rfl, List.prefix_append ..⟩

theorem errors_eq (h : c.Onward c') (h' : c'.Onward c'') (heq : c''.errors = c.errors) :
    c'.errors = c.errors ∧ c''.errors = c'.errors := by
  have hle := h.errors.length_le
  have hle' := h'.errors.length_le
  rw [heq] at hle'
  have heq' := h.errors.eq_of_length (Nat.le_antisymm hle hle')
  exact ⟨heq'.symm, heq.trans heq'⟩

theorem length_le (h : c.Onward c') : c'.tokens.length ≤ c.tokens.length :=
  h.tokens.length_le

theorem length_tail_lt (h : c.Onward c') (hc : c.tokens ≠ []) :
    c'.advance.tokens.length < c.tokens.length := by
  have hle := h.length_le
  have hpos := List.length_pos_iff.2 hc
  rw [tokens_advance, List.length_tail]
  omega

end Onward

theorem length_advance_lt (h : c.tokens ≠ []) :
    c.advance.tokens.length < c.tokens.length :=
  (Onward.refl c).length_tail_lt h

/-! How deep inside braces a cursor is. -/

theorem depth_advance (c : Cursor) :
    c.advance.depth = c.depth + c.upcoming.kind.braceWeight := rfl

theorem depth_advance_of_kind {kind : TokenKind} (h : c.upcoming.kind = kind)
    (hkind : kind.braceWeight = 0) : c.advance.depth = c.depth := by
  rw [depth_advance, h, hkind, Int.add_zero]

theorem depthBefore_of_kind {kind : TokenKind} (h : c.current.kind = kind)
    (hkind : kind.braceWeight = 0) : c.depthBefore = c.depth := by
  rw [depthBefore, h, hkind, Int.sub_zero]

theorem depth_of_lbrace (h : c.current.kind = .lbrace) : c.depth = c.depthBefore + 1 := by
  rw [depthBefore, h]
  exact (Int.sub_add_cancel c.depth 1).symm

theorem depth_of_rbrace (h : c.current.kind = .rbrace) : c.depth = c.depthBefore - 1 := by
  rw [depthBefore, h]
  exact (Int.add_sub_cancel c.depth 1).symm

theorem closes_of_depth_lt (hle : d ≤ c.depthBefore) (hlt : c.depth < d) :
    c.depthBefore = d ∧ c.current.kind = .rbrace := by
  have hweight : c.depth = c.depthBefore + c.current.kind.braceWeight :=
    (Int.sub_add_cancel ..).symm
  have hkind : c.current.kind = .rbrace := by
    by_contra hkind
    have := TokenKind.braceWeight_nonneg hkind
    omega
  have := depth_of_rbrace hkind
  exact ⟨by omega, hkind⟩

/-- The second cursor is further on than the first by these tokens, and has counted the
braces among them. -/
structure Passes (c c' : Cursor) (passed : List Token) : Prop where
  tokens : c.tokens = passed ++ c'.tokens
  depth : c'.depthBefore = c.depthBefore + braceBalance passed

/-- The second cursor is further on and has counted the braces on its way. -/
def Counts (c c' : Cursor) : Prop :=
  ∃ passed, Passes c c' passed

namespace Passes

variable {passed passed' : List Token}

theorem refl (c : Cursor) : Passes c c [] :=
  ⟨rfl, (Int.add_zero _).symm⟩

theorem trans (h : Passes c c' passed) (h' : Passes c' c'' passed') :
    Passes c c'' (passed ++ passed') where
  tokens := by rw [h.tokens, h'.tokens, List.append_assoc]
  depth := by rw [h'.depth, h.depth, braceBalance_append, Int.add_assoc]

theorem record (e : SyntaxError) (c : Cursor) : Passes c (c.record e) [] :=
  ⟨rfl, (Int.add_zero _).symm⟩

/-- A cursor that advances passes its current token, if there is one. -/
theorem advance (c : Cursor) : Passes c c.advance [] ∨ Passes c c.advance [c.current] := by
  obtain ⟨_ | ⟨t, rest⟩, depth, errors⟩ := c
  · refine .inl ⟨rfl, ?_⟩
    rw [depthBefore_advance]
    show depth = depth - 0 + 0
    omega
  · refine .inr ⟨rfl, ?_⟩
    rw [depthBefore_advance, braceBalance_singleton]
    exact (Int.sub_add_cancel ..).symm

end Passes

theorem Counts.refl (c : Cursor) : Counts c c :=
  ⟨[], .refl c⟩

theorem Counts.trans (h : Counts c c') (h' : Counts c' c'') : Counts c c'' :=
  ⟨_, h.choose_spec.trans h'.choose_spec⟩

theorem Counts.advance (c : Cursor) : Counts c c.advance :=
  (Passes.advance c).elim (⟨_, ·⟩) (⟨_, ·⟩)

/-- The second cursor has come from the first, with more errors perhaps, and on its way at
least `floor` braces are open, behind each token that is left behind. -/
structure Above (floor : Int) (c c' : Cursor) : Prop where
  errors : c.errors <+: c'.errors
  passes : ∃ passed, Passes c c' passed ∧
    ∀ p, p <+: passed → p ≠ [] → floor ≤ c.depthBefore + braceBalance p

namespace Above

theorem counts (h : Above floor c c') : Counts c c' :=
  ⟨_, h.passes.choose_spec.1⟩

theorem onward (h : Above floor c c') : c.Onward c' := by
  obtain ⟨passed, hpasses⟩ := h.counts
  exact ⟨hpasses.tokens ▸ List.suffix_append passed c'.tokens, h.errors⟩

theorem of_nil (floor : Int) (h : Passes c c' []) (herrors : c.errors <+: c'.errors) :
    Above floor c c' :=
  ⟨herrors, [], h, fun _ hp hne => absurd (List.prefix_nil.1 hp) hne⟩

theorem refl (floor : Int) (c : Cursor) : Above floor c c :=
  of_nil floor (.refl c) List.prefix_rfl

theorem record (floor : Int) (e : SyntaxError) (c : Cursor) : Above floor c (c.record e) :=
  of_nil floor (.record e c) (Onward.record e c).errors

theorem advance (h : floor ≤ c.depth) : Above floor c c.advance := by
  obtain hpasses | hpasses := Passes.advance c
  · exact of_nil floor hpasses List.prefix_rfl
  · refine ⟨List.prefix_rfl, [c.current], hpasses, fun p hp hne => ?_⟩
    obtain rfl | ⟨q, rfl, hq⟩ := List.prefix_cons_iff.1 hp
    · exact absurd rfl hne
    · rw [List.prefix_nil.1 hq, ← hpasses.depth, depthBefore_advance]
      exact h

theorem trans (h : Above floor c c') (h' : Above floor c' c'') : Above floor c c'' := by
  obtain ⟨passed, hpasses, hfloor⟩ := h.passes
  obtain ⟨passed', hpasses', hfloor'⟩ := h'.passes
  refine ⟨h.errors.trans h'.errors, passed ++ passed', hpasses.trans hpasses', fun p hp hne => ?_⟩
  obtain hp | ⟨q, hq, rfl⟩ := prefix_of_append hp
  · exact hfloor p hp hne
  · by_cases hnil : q = []
    · rw [hnil, List.append_nil] at hne ⊢
      exact hfloor passed List.prefix_rfl hne
    · have := hfloor' q hq hnil
      rwa [hpasses.depth, Int.add_assoc, ← braceBalance_append] at this

theorem lower {floor' : Int} (h : Above floor c c') (hle : floor' ≤ floor) :
    Above floor' c c' := by
  obtain ⟨passed, hpasses, hfloor⟩ := h.passes
  exact ⟨h.errors, passed, hpasses, fun p hp hne => Int.le_trans hle (hfloor p hp hne)⟩

theorem le_depthBefore (h : Above floor c c') (hc : floor ≤ c.depthBefore) :
    floor ≤ c'.depthBefore := by
  obtain ⟨passed, hpasses, hfloor⟩ := h.passes
  rw [hpasses.depth]
  by_cases hnil : passed = []
  · rw [hnil]
    exact Int.le_trans hc (Int.le_of_eq (Int.add_zero _).symm)
  · exact hfloor passed List.prefix_rfl hnil

end Above

/-- At the second cursor `d` braces are open, and on the way to it no fewer. -/
structure RestsAt (d : Int) (c c' : Cursor) : Prop where
  above : Above d c c'
  depth_eq : c'.depth = d

theorem RestsAt.before (h : Above d c c') (h' : RestsAt d c' c'') : RestsAt d c c'' :=
  ⟨h.trans h'.above, h'.depth_eq⟩

/-! How a failed statement is skipped. -/

section Skipping

variable {base : Int}

/-- Where a walk that skips a failed statement stops before the end. -/
def Stops (base : Int) (c : Cursor) : Prop :=
  c.depth = base ∧ (c.current.kind = .semicolon ∨ c.upcoming.kind = .rbrace)

theorem recover_closed (h : c.depth < base) : c.recover base = (true, c) := by
  obtain ⟨_ | ⟨t, _ | ⟨u, rest⟩⟩, depth, errors⟩ := c
  · rw [recover, skipStatement, decide_eq_true h]
  · rw [recover, skipStatement, decide_eq_true h]
  · rw [recover, skipStatement, if_pos h]

theorem recover_stopped (hle : base ≤ c.depth) (h : Stops base c ∨ c.advance.tokens = []) :
    c.recover base = (false, c) := by
  obtain ⟨tokens, depth, errors⟩ := c
  have hfalse : decide (depth < base) = false := decide_eq_false (Int.not_lt.2 hle)
  obtain _ | ⟨t, _ | ⟨u, rest⟩⟩ := tokens
  · rw [recover, skipStatement, hfalse]
  · rw [recover, skipStatement, hfalse]
  · have hstop : depth = base ∧ (t.kind = .semicolon ∨ u.kind = .rbrace) :=
      h.resolve_right (List.cons_ne_nil u rest)
    rw [recover, skipStatement, if_neg (Int.not_lt.2 hle), if_pos hstop]

theorem recover_going (hle : base ≤ c.depth) (h : ¬ Stops base c) (hnext : c.advance.tokens ≠ []) :
    c.recover base = c.advance.recover base := by
  obtain ⟨tokens, depth, errors⟩ := c
  obtain _ | ⟨t, _ | ⟨u, rest⟩⟩ := tokens
  · exact absurd rfl hnext
  · exact absurd rfl hnext
  · have hgo : ¬ (depth = base ∧ (t.kind = .semicolon ∨ u.kind = .rbrace)) := h
    rw [recover, skipStatement, if_neg (Int.not_lt.2 hle), if_neg hgo]
    rfl

/-- A walk that does not stop passes no brace that closes more than was opened. -/
theorem le_depth_advance (hle : base ≤ c.depth) (h : ¬ Stops base c) : base ≤ c.advance.depth := by
  rw [depth_advance]
  by_cases hdepth : c.depth = base
  · have := TokenKind.braceWeight_nonneg fun hkind => h ⟨hdepth, .inr hkind⟩
    omega
  · have := c.upcoming.kind.neg_one_le_braceWeight
    omega

/-- The walk goes on token by token to where it stops for the first time or there is no
other token. -/
theorem recover_walks (hle : base ≤ c.depth) :
    ∃ k, c.recover base = (false, advance^[k] c) ∧
      (∀ j, j ≤ k → base ≤ (advance^[j] c).depth) ∧
      (∀ j, j < k → ¬ Stops base (advance^[j] c)) ∧
      (Stops base (advance^[k] c) ∨ (advance^[k] c).advance.tokens = []) := by
  induction htokens : c.tokens.length using Nat.strong_induction_on generalizing c with
  | _ length ih =>
      by_cases hstop : Stops base c ∨ c.advance.tokens = []
      · exact ⟨0, recover_stopped hle hstop, fun j hj => Nat.le_zero.1 hj ▸ hle,
          fun j hj => absurd hj (Nat.not_lt_zero j), hstop⟩
      · obtain ⟨hgo, hnext⟩ := not_or.1 hstop
        have hlt : c.advance.tokens.length < length := htokens ▸ length_advance_lt fun hnil =>
          hnext (by rw [tokens_advance, hnil]; rfl)
        obtain ⟨k, heq, habove, hfirst, hend⟩ := ih _ hlt (le_depth_advance hle hgo) rfl
        have hgoing := (recover_going hle hgo hnext).trans heq
        refine ⟨k + 1, hgoing, fun j hj => ?_, fun j hj => ?_, hend⟩
        · cases j with
          | zero => exact hle
          | succ j => exact habove j (Nat.le_of_succ_le_succ hj)
        · cases j with
          | zero => exact hgo
          | succ j => exact hfirst j (Nat.lt_of_succ_lt_succ hj)

theorem above_iterate {k : Nat} (h : ∀ j, j ≤ k → base ≤ (advance^[j] c).depth) :
    Above base c (advance^[k] c) := by
  induction k with
  | zero => exact .refl base c
  | succ k ih =>
      rw [Function.iterate_succ_apply']
      exact (ih fun j hj => h j (Nat.le_succ_of_le hj)).trans (.advance (h k (Nat.le_succ k)))

/-- Skipping a failed statement ends where it starts, beyond the brace that closes what lies
around; or as deep inside braces as the statement began, or on the last token. -/
theorem above_recover (base : Int) (c : Cursor) :
    c.depth < base ∧ c.recover base = (true, c) ∨
      ∃ c', c.recover base = (false, c') ∧ Above base c c' ∧ base ≤ c'.depth ∧
        (c'.depth = base ∨ c'.advance.tokens = []) := by
  by_cases hlt : c.depth < base
  · exact .inl ⟨hlt, recover_closed hlt⟩
  · obtain ⟨k, heq, habove, -, hend⟩ := recover_walks (Int.not_lt.1 hlt)
    exact .inr ⟨_, heq, above_iterate habove, habove k (Nat.le_refl k), hend.imp_left And.left⟩

theorem counts_recover (base : Int) (c : Cursor) : Counts c (c.recover base).2 := by
  obtain ⟨-, heq⟩ | ⟨c', heq, habove, -⟩ := above_recover base c <;> rw [heq]
  · exact .refl c
  · exact habove.counts

theorem onward_recover (base : Int) (c : Cursor) : c.Onward (c.recover base).2 := by
  obtain ⟨-, heq⟩ | ⟨c', heq, habove, -⟩ := above_recover base c <;> rw [heq]
  · exact .refl c
  · exact habove.onward

end Skipping
end Cursor
end Treewalk
