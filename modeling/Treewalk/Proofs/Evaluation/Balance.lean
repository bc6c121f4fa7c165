import Treewalk.Proofs.Evaluation.Conduct

/-!
Evaluation is balanced and leaks no scope. A scope is pinned only by the capture of a
scope inside it, and is kept when it is left only if it is pinned. So of the scopes that
an evaluation makes there remain those on whose chain a function was made; the scopes
that lived before live on, and the root, the current scope and the depth of calls are
what they were, however the evaluation ends.
-/

namespace Treewalk

open Environment (Change)

theorem Arena.pinned_of_contains_release {a : Arena} {id : ScopeId}
    (h : (a.release id).contains id = true) : (a.release id).Pinned id := by
  obtain ⟨s, hs⟩ := contains_iff.1 h
  refine ⟨s, hs, ?_⟩
  rw [get?_release] at hs
  split at hs
  · cases hs
  · rename_i hkept
    by_contra hp
    exact hkept ⟨rfl, s, hs, Bool.eq_false_iff.2 hp⟩

namespace Guarded

variable {g : Guarded} {id : ScopeId}

/-- A scope comes to life in the course of changes. -/
def Creates (g : Guarded) (changes : List Change) (id : ScopeId) : Prop :=
  ∃ before c rest, changes = before ++ c :: rest ∧
    (g.run before).arena.contains id = false ∧
    ((g.run before).apply c).arena.contains id = true

/-- A scope lies on the chain of the current one when that is captured in the course of
changes. -/
def Captures (g : Guarded) (changes : List Change) (id : ScopeId) : Prop :=
  ∃ before rest, changes = before ++ .capture :: rest ∧
    (g.run before).arena.OnChain (g.run before).current id

theorem creates_of_lives (changes : List Change) (hbefore : g.arena.contains id = false)
    (hafter : (g.run changes).arena.contains id = true) : g.Creates changes id := by
  induction changes generalizing g with
  | nil => exact absurd hafter (Bool.eq_false_iff.1 hbefore)
  | cons c changes ih =>
      cases hfirst : (g.apply c).arena.contains id with
      | true => exact ⟨[], c, changes, rfl, hbefore, hfirst⟩
      | false =>
          obtain ⟨before, c', rest, rfl, hnot, hlives⟩ := ih hfirst hafter
          exact ⟨c :: before, c', rest, rfl, hnot, hlives⟩

theorem captures_cons_iff {c : Change} {changes : List Change} :
    g.Captures (c :: changes) id ↔
      (c = .capture ∧ g.arena.OnChain g.current id) ∨ (g.apply c).Captures changes id := by
  constructor
  · rintro ⟨before, rest, heq, hchain⟩
    cases before with
    | nil =>
        cases heq
        exact .inl ⟨rfl, hchain⟩
    | cons first before =>
        cases heq
        exact .inr ⟨before, rest, rfl, hchain⟩
  · rintro (⟨rfl, hchain⟩ | ⟨before, rest, rfl, hchain⟩)
    · exact ⟨[], changes, rfl, hchain⟩
    · exact ⟨c :: before, rest, rfl, hchain⟩

theorem not_captures_of_countP {changes : List Change}
    (h : changes.countP Change.isCapture = 0) : ¬ g.Captures changes id := by
  rintro ⟨before, rest, rfl, -⟩
  exact List.countP_eq_zero.1 h .capture (List.mem_append_right _ List.mem_cons_self) rfl

theorem Sound.pinned_capture (h : g.Sound) (hid : g.arena.OnChain g.current id) :
    (g.apply .capture).arena.Pinned id :=
  (h.linked.pinned_pin_iff h.pinnedAround g.current).2 (.inr hid)

/-- Only a capture pins scopes. -/
theorem Sound.pinned_of_apply (h : g.Sound) {c : Change} (hp : (g.apply c).arena.Pinned id) :
    g.arena.Pinned id ∨ c = .capture ∧ g.arena.OnChain g.current id := by
  obtain ⟨s, hs, hpin⟩ := hp
  cases g.effect c with
  | entered _ arena_eq =>
      rw [arena_eq, Arena.get?_alloc h.linked.consistent] at hs
      split at hs
      · cases hs
        cases hpin
      · exact .inl ⟨s, hs, hpin⟩
  | left _ arena_eq =>
      rw [arena_eq] at hs
      exact .inl ⟨s, Arena.get?_of_get?_release hs, hpin⟩
  | defined name value arena_eq =>
      rw [arena_eq] at hs
      obtain ⟨before, hbefore, -, hpinned, -⟩ := Arena.get?_of_get?_define hs
      exact .inl ⟨before, hbefore, hpinned ▸ hpin⟩
  | captured arena_eq =>
      rw [arena_eq] at hs
      exact ((h.linked.pinned_pin_iff h.pinnedAround g.current).1 ⟨s, hs, hpin⟩).imp_right
        fun hchain => ⟨rfl, hchain⟩
  | untouched arena_eq =>
      rw [arena_eq] at hs
      exact .inl ⟨s, hs, hpin⟩

/-- The scopes that are pinned in the end were so before, or were captured. -/
theorem Sound.pinned_run_iff (h : g.Sound) (changes : List Change) :
    (g.run changes).arena.Pinned id ↔ g.arena.Pinned id ∨ g.Captures changes id := by
  induction changes generalizing g with
  | nil =>
      refine ⟨.inl, fun hp => hp.resolve_right ?_⟩
      rintro ⟨before, rest, heq, -⟩
      simp at heq
  | cons c changes ih =>
      rw [run_cons, ih (h.apply c), captures_cons_iff]
      constructor
      · rintro (hp | hlater)
        · exact (h.pinned_of_apply hp).imp_right .inl
        · exact .inr (.inr hlater)
      · rintro (hp | ⟨rfl, hchain⟩ | hlater)
        · exact .inl ((h.remains_apply c hp).pinned hp)
        · exact .inl (h.pinned_capture hchain)
        · exact .inr hlater

/-- What an evaluation leaves of a state, given the changes it makes, the number of
functions made before it and the machine it ends on. -/
structure Balanced (g : Guarded) (changes : List Change) (functions : Nat) (after : Machine) :
    Prop where
  /-- every scope that is entered is left again -/
  retraced : g.run changes = ⟨after.environment, g.suspended⟩
  root_eq : after.environment.root = g.environment.root
  current_eq : after.environment.current = g.current
  callDepth_eq : after.environment.callDepth = g.environment.callDepth
  lives_iff : ∀ id, after.environment.arena.contains id = true ↔
    g.arena.contains id = true ∨ g.Creates changes id ∧ g.Captures changes id
  /-- a capture for each function that is made -/
  functions_eq : after.functions = functions + changes.countP Change.isCapture
  liveIds_eq_of_no_function : after.functions = functions →
    after.environment.arena.liveIds = g.arena.liveIds
  pinned_of_created : ∀ id, after.environment.arena.contains id = true →
    g.arena.contains id = false → after.environment.arena.Pinned id

theorem Sound.balanced (h : g.Sound) {functions : Nat} {printed : String} {flag : Flag}
    {after : Machine} {changes : List Change}
    (hconduct : Conduct ⟨g.environment, printed, functions, flag⟩ changes after) :
    g.Balanced changes functions after := by
  obtain ⟨-, houtlived⟩ := hconduct.outlived h.linked.consistent
  have hretraced : g.run changes = ⟨after.environment, g.suspended⟩ :=
    hconduct.retraced g.suspended
  have harena : (g.run changes).arena = after.environment.arena := by rw [hretraced]; rfl
  have hpinned : ∀ id, after.environment.arena.Pinned id ↔
      g.arena.Pinned id ∨ g.Captures changes id := fun id => by
    rw [← harena, h.pinned_run_iff]
  have hcreated : ∀ id, after.environment.arena.contains id = true →
      g.arena.contains id = false → after.environment.arena.Pinned id := fun id hlives hbefore => by
    obtain ⟨s, hs⟩ := Arena.contains_iff.1 hlives
    obtain hold | hp := houtlived.made id s hs
    · exact absurd hold (Bool.eq_false_iff.1 hbefore)
    · exact ⟨s, hs, hp⟩
  have hlives : ∀ id, after.environment.arena.contains id = true ↔
      g.arena.contains id = true ∨ g.Creates changes id ∧ g.Captures changes id := fun id => by
    constructor
    · intro hid
      cases hbefore : g.arena.contains id with
      | true => exact .inl rfl
      | false =>
          refine .inr ⟨creates_of_lives changes hbefore (by rwa [harena]), ?_⟩
          refine ((hpinned id).1 (hcreated id hid hbefore)).resolve_left fun hp => ?_
          exact Bool.eq_false_iff.1 hbefore hp.lives
    · rintro (hid | ⟨-, hcaptured⟩)
      · exact houtlived.contains hid
      · exact ((hpinned id).2 (.inr hcaptured)).lives
  have hcount : after.functions = functions + changes.countP Change.isCapture :=
    hconduct.functions_eq
  refine ⟨hretraced, hconduct.root_eq, hconduct.current_eq, hconduct.callDepth_eq, hlives,
    hcount, fun hfunctions => ?_, hcreated⟩
  have hnone : changes.countP Change.isCapture = 0 := by omega
  refine Arena.liveIds_eq_of_contains fun id => Bool.eq_iff_iff.2 ((hlives id).trans ?_)
  exact or_iff_left fun hid => not_captures_of_countP hnone hid.2

/-- In every state a scope that outlives being left is pinned; and every evaluation that
ends is balanced, whatever its result, also where it is asked to stop on its way. -/
theorem evaluation_balanced :
    (∀ g : Guarded, g.Reachable → ∀ previous suspended, g.suspended = previous :: suspended →
      (g.apply .leave).arena.contains g.current = true →
        (g.apply .leave).arena.Pinned g.current) ∧
    ∀ g : Guarded, g.Reachable → ∀ ctx allowance (task : Task) printed functions flag r after,
      task.evalUnder ctx allowance ⟨g.environment, printed, functions, flag⟩ = some (r, after) →
        g.Balanced (task.trace ctx allowance ⟨g.environment, printed, functions, flag⟩) functions
          after := by
  refine ⟨fun g _ previous suspended hs hlives => ?_,
    fun g hg ctx allowance task printed functions flag r after h =>
      hg.sound.balanced (Task.conduct h)⟩
  rw [apply, hs] at hlives ⊢
  exact Arena.pinned_of_contains_release hlives

/-- A block makes a function and is left: its scope is the one that stays. -/
theorem evaluation_balanced_block :
    let entered := (initial.apply .enterBlock).apply .capture
    let brace : Token := ⟨.lbrace, "\x7b"⟩
    let word : Token := ⟨.functionWord, "fn"⟩
    let block := Task.block ⟨brace, [.expr word (.function word [] ⟨brace, []⟩)]⟩
    (entered.apply .leave).arena.Pinned entered.current ∧
      ∃ r after, block.evalUnder {} 0 .initial = some (r, after) ∧
        initial.Balanced (block.trace {} 0 .initial) 0 after ∧
        after.environment.arena.contains ⟨1, 0⟩ = true := by
  intro entered brace word block
  have hentered : entered.Reachable := .change (.change .start .enterBlock) .capture
  refine ⟨evaluation_balanced.1 entered hentered _ _ rfl (by decide), _, _, rfl, ?_, rfl⟩
  exact evaluation_balanced.2 initial .start {} 0 block "" 0 _ _ _ rfl

end Guarded
end Treewalk
