import Treewalk.Proofs.Evaluation.Conduct

/-!
Whether the current scope lives. An open scope knows the one to come back to by its name
alone, and a collection starts from the root and the current scope only. If each collection
reaches the scopes to come back to, then they live, and so does the current scope, in every
state; a name that is bound there is found there. A collection that does not reach one of
them frees it, and it is current again, though gone, once the scopes within it are left.
-/

namespace Treewalk

open Environment (Change)

namespace Guarded

variable {g : Guarded}

/-- A name that is bound is found again if the current scope lives; otherwise it is lost. -/
theorem get?_define (g : Guarded) (name : String) (value : Value) :
    (g.apply (.define name value)).environment.get? name =
      if g.arena.contains g.current = true then some value else none := by
  have harena : (g.apply (.define name value)).environment.arena =
      g.arena.define g.current name value := rfl
  have hcurrent : (g.apply (.define name value)).environment.current = g.current := rfl
  rw [Environment.get?, harena, hcurrent, Arena.lookup]
  by_cases hlives : g.arena.contains g.current = true
  · obtain ⟨scope, hs⟩ := Arena.contains_iff.1 hlives
    have hdefined := Arena.get?_define g.current g.current name value g.arena
    rw [if_pos rfl, hs, Option.map_some] at hdefined
    rw [Arena.lookupFrom_bound hdefined (Entries.get?_put_self ..), if_pos hlives]
    rfl
  · have hgone : (g.arena.define g.current name value).get? g.current = none := by
      rw [← Option.not_isSome_iff_eq_none]
      exact fun h => hlives ((Arena.contains_define ..).symm.trans h)
    rw [Arena.lookupFrom_gone hgone, if_neg hlives]
    rfl

/-- A collection keeps of the scopes those that it reaches. -/
theorem contains_collect_iff (h : g.Sound) (values : List Value) (id : ScopeId) :
    (g.collect values).arena.contains id = true ↔ g.Reaches values id :=
  Arena.contains_collect_iff h.linked.consistent _ values id

/-- A collection now would reach every scope to come back to. -/
def SparingSuspended (g : Guarded) (values : List Value) : Prop :=
  ∀ id ∈ g.suspended, g.Reaches values id

/-- The current scope and the scopes to come back to live, and are different scopes. -/
structure Standing (g : Guarded) : Prop where
  sound : g.Sound
  lives : ∀ id ∈ g.current :: g.suspended, g.arena.contains id = true
  nodup : (g.current :: g.suspended).Nodup

theorem standing_initial : initial.Standing :=
  ⟨sound_initial, by decide, by decide⟩

namespace Standing

theorem current_lives (h : g.Standing) : g.arena.contains g.current = true :=
  h.lives _ List.mem_cons_self

theorem apply (h : g.Standing) (c : Change) : (g.apply c).Standing := by
  have hc := h.sound.linked.consistent
  have hboth : (∀ id ∈ (g.apply c).current :: (g.apply c).suspended,
      (g.apply c).arena.contains id = true) ∧
        ((g.apply c).current :: (g.apply c).suspended).Nodup := by
    cases g.effect c with
    | @entered c outer _ arena_eq current_eq suspended_eq =>
        rw [arena_eq, current_eq, suspended_eq]
        refine ⟨fun id hid => ?_, List.nodup_cons.2 ⟨fun hmem => ?_, h.nodup⟩⟩
        · rw [Arena.contains_alloc hc]
          exact (List.mem_cons.1 hid).imp_right (h.lives id)
        · -- the name of the new scope had not been issued
          exact Arena.not_issued_alloc hc _ (.of_lives (h.lives _ hmem))
    | @left previous suspended_eq arena_eq current_eq =>
        rw [arena_eq, current_eq, ← suspended_eq]
        obtain ⟨hnot, hnodup⟩ := List.nodup_cons.1 h.nodup
        refine ⟨fun id hid => ?_, hnodup⟩
        have hne : id ≠ g.current := fun e => hnot (e ▸ hid)
        rw [Arena.contains, Arena.get?_release, if_neg fun e => hne e.1]
        exact h.lives id (List.mem_cons_of_mem _ hid)
    | defined name value arena_eq current_eq suspended_eq =>
        rw [arena_eq, current_eq, suspended_eq]
        exact ⟨fun id hid => (Arena.contains_define ..).trans (h.lives id hid), h.nodup⟩
    | captured arena_eq current_eq suspended_eq =>
        rw [arena_eq, current_eq, suspended_eq]
        exact ⟨fun id hid => (Arena.contains_pin ..).trans (h.lives id hid), h.nodup⟩
    | untouched arena_eq current_eq suspended_eq =>
        rw [arena_eq, current_eq, suspended_eq]
        exact ⟨h.lives, h.nodup⟩
  exact ⟨h.sound.apply c, hboth.1, hboth.2⟩

theorem collect (h : g.Standing) {values : List Value} (hspared : g.SparingSuspended values) :
    (g.collect values).Standing := by
  refine ⟨h.sound.collect values, fun id hid => ?_, h.nodup⟩
  rw [contains_collect_iff h.sound]
  rcases List.mem_cons.1 hid with rfl | hsuspended
  · exact .root (List.mem_cons_of_mem _ List.mem_cons_self) h.current_lives
  · exact hspared id hsuspended

end Standing

theorem Leads.standing (h : Leads SparingSuspended initial g) : g.Standing :=
  h.preserves standing_initial (fun _ c hg => hg.apply c) fun _ _ hg hspared => hg.collect hspared

/-- Leaving brings no scope to life. -/
theorem contains_of_leave {id : ScopeId} (h : (g.apply .leave).arena.contains id = true) :
    g.arena.contains id = true := by
  rw [apply] at h
  split at h
  · obtain ⟨scope, hs⟩ := Arena.contains_iff.1 h
    exact Arena.contains_iff.2 ⟨scope, Arena.get?_of_get?_release hs⟩
  · exact h

/-- Every scope to come back to is current again after so many scopes are left. -/
theorem exists_leaves (g : Guarded) {id : ScopeId} (hid : id ∈ g.suspended) :
    ∃ n, (g.run (List.replicate n .leave)).current = id ∧
      ∀ x, (g.run (List.replicate n .leave)).arena.contains x = true →
        g.arena.contains x = true := by
  obtain ⟨environment, suspended⟩ := g
  induction suspended generalizing environment with
  | nil => cases hid
  | cons previous suspended ih =>
      let left : Guarded := Guarded.apply ⟨environment, previous :: suspended⟩ .leave
      rcases List.mem_cons.1 hid with rfl | hid
      · exact ⟨1, rfl, fun x hx => contains_of_leave hx⟩
      · obtain ⟨n, hcurrent, hlives⟩ := ih left.environment hid
        exact ⟨n + 1, hcurrent, fun x hx => contains_of_leave (hlives x hx)⟩

/-- Wherever collections reach the scopes to come back to, the current scope lives and a
name that is bound is found; programs that are run while no scope is open collect so, above
any number of scopes. Any other collection loses the current scope of a later state, and the
names that are bound there. -/
theorem current_scope_lives (g : Guarded) :
    (Leads SparingSuspended initial g →
      (g.arena.contains g.current = true ∧
        ∀ name value, (g.apply (.define name value)).environment.get? name = some value) ∧
      (g.suspended = [] → ∀ ctx allowance (p : Program) printed functions flag v after,
        p.runUnder .prompt ctx allowance ⟨g.environment, printed, functions, flag⟩ =
          some (v, after) →
        Leads SparingSuspended initial ⟨after.environment, []⟩)) ∧
    (g.Reachable → ∀ values, ¬ g.SparingSuspended values →
      ∃ n, let left := (g.collect values).run (List.replicate n .leave)
        left.arena.contains left.current = false ∧
          ∀ name value, (left.apply (.define name value)).environment.get? name = none) := by
  refine ⟨fun hg => ⟨?_, fun hnone ctx allowance p printed functions flag v after hrun => ?_⟩,
    fun hg values hnot => ?_⟩
  · have hlives := hg.standing.current_lives
    exact ⟨hlives, fun name value => by rw [get?_define, if_pos hlives]⟩
  · rw [← hnone]
    refine hg.runUnder hrun fun m _ _ id hid => ?_
    rw [hnone] at hid
    cases hid
  · simp only [SparingSuspended, not_forall] at hnot
    obtain ⟨id, hid, hunreached⟩ := hnot
    obtain ⟨n, hcurrent, hlives⟩ := (g.collect values).exists_leaves hid
    have hgone : ¬ ((g.collect values).run (List.replicate n .leave)).arena.contains id = true :=
      fun h => hunreached ((contains_collect_iff hg.sound values id).1 (hlives id h))
    refine ⟨n, ?_, fun name value => ?_⟩
    · rw [hcurrent]
      exact Bool.not_eq_true _ ▸ hgone
    · rw [get?_define, hcurrent, if_neg hgone]

/-- A scope is entered inside the root while a block is open. A collection that is given a
function of the block keeps the block, and one that is given nothing loses it. -/
theorem current_scope_lives_held :
    let block := (initial.apply .enterBlock).apply .capture
    let inner := block.apply (.enterScope block.environment.root)
    let held := Value.function ⟨[], ⟨⟨.lbrace, "\x7b"⟩, []⟩, block.current, 0⟩
    let left := (inner.collect [held]).apply .leave
    (inner.SparingSuspended [held] ∧ left.current = block.current ∧
      (left.apply (.define "x" .null)).environment.get? "x" = some .null) ∧
    ¬ inner.SparingSuspended [] ∧
      ∃ n, let left := (inner.collect []).run (List.replicate n .leave)
        left.arena.contains left.current = false := by
  intro block inner held left
  have hblock : Leads SparingSuspended initial block :=
    .change (.change .start .enterBlock) .capture
  have hinner : Leads SparingSuspended initial inner := .change hblock (.enterScope _)
  have hreachable : inner.Reachable :=
    .change (.change (.change .start .enterBlock) .capture) (.enterScope _)
  have hspared : inner.SparingSuspended [held] := by
    intro id hid
    have hsuspended : inner.suspended = [⟨1, 0⟩, ⟨0, 0⟩] := rfl
    rw [hsuspended, List.mem_cons, List.mem_singleton] at hid
    rcases hid with rfl | rfl
    · exact .held List.mem_cons_self (.itself _) (by decide)
    · exact .root List.mem_cons_self (by decide)
  have hunspared : ¬ inner.SparingSuspended [] := fun h => by
    have hmem : (⟨1, 0⟩ : ScopeId) ∈ [inner.environment.root, inner.current] :=
      (h ⟨1, 0⟩ (by decide)).mem_of_closed (List.Subset.refl _) (by decide) (by decide)
    exact absurd hmem (by decide)
  obtain ⟨⟨-, hfound⟩, -⟩ := (current_scope_lives left).1 (.change (.collect hinner hspared) .leave)
  obtain ⟨n, hgone, -⟩ := (current_scope_lives inner).2 hreachable [] hunspared
  have hcurrent : left.current = block.current := by
    simp only [left, inner, block]
    rfl
  exact ⟨⟨hspared, hcurrent, hfound "x" .null⟩, hunspared, n, hgone⟩

/-- A scope is entered inside the root while a block is open, and the block is collected
before the scope is left. The current scope is gone then, and a name that is bound is lost. -/
theorem current_scope_gone :
    let block := initial.apply .enterBlock
    let inner := block.apply (.enterScope block.environment.root)
    let left := (inner.collect []).apply .leave
    left.Reachable ∧ left.arena.contains left.current = false ∧
      (left.apply (.define "x" (.integer 5))).environment.get? "x" = none := by
  intro block inner left
  have hinner : inner.Reachable := .change (.change .start .enterBlock) (.enterScope _)
  have hgone : left.arena.contains left.current = false := by
    refine Bool.eq_false_iff.2 fun hlives => ?_
    have hreached := (contains_collect_iff hinner.sound [] _).1 (contains_of_leave hlives)
    have hmem : block.current ∈ [inner.environment.root, inner.current] :=
      hreached.mem_of_closed (List.Subset.refl _) (by decide) (by decide)
    exact absurd hmem (by decide)
  refine ⟨.change (.collect hinner trivial) .leave, hgone, ?_⟩
  rw [get?_define, hgone]
  rfl

end Guarded
end Treewalk
