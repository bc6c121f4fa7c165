import Treewalk.Proofs.Scope.Reachability

/-!
A collection is exact in every store that operations can make. It frees the scopes
that are not reached and no other; the reached ones keep their name, bindings,
link and pin; the count it returns is that of the scopes freed; and the order of
the search makes no difference to the store that results.
-/

namespace Treewalk
namespace Arena

/-- A change of the store. The names given may be of scopes that are gone, or of
another store altogether. -/
inductive Operation where
  | alloc (outer : Option ScopeId)
  | release (id : ScopeId)
  | pin (id : ScopeId)
  | define (id : ScopeId) (name : String) (value : Value)
  | collect (scopes : List ScopeId) (values : List Value)

/-- The store after an operation. -/
def Operation.apply (a : Arena) : Operation → Arena
  | alloc outer => (a.alloc outer).2
  | release id => a.release id
  | pin id => a.pin id
  | define id name value => a.define id name value
  | collect scopes values => (a.collect scopes values).2

/-- The store after operations, one after another. -/
def run (a : Arena) (ops : List Operation) : Arena :=
  ops.foldl Operation.apply a

/-- Free the scopes in slots without a mark, and count them. -/
def sweep (marked : Array Bool) (a : Arena) : Nat × Arena :=
  (List.range a.slots.size).foldl (sweepSlot marked) (0, a)

theorem collect_eq_sweep (scopes : List ScopeId) (values : List Value) (a : Arena) :
    a.collect scopes values = a.sweep (a.reached scopes values) := rfl

/-- What sweeping some slots does: unmarked scopes in them go, and the sum of the
scopes counted and the scopes that live stays. -/
structure Swept (marked : Array Bool) (slots : List Nat) (before after : Nat × Arena) :
    Prop where
  consistent : after.2.Consistent
  sum_eq : after.2.live + after.1 = before.2.live + before.1
  get?_eq : ∀ id, after.2.get? id =
    if id.index ∈ slots ∧ marked[id.index]? ≠ some true then none else before.2.get? id

theorem swept_sweepSlot (marked : Array Bool) {n : Nat} {a : Arena} (h : a.Consistent)
    (i : Nat) : Swept marked [i] (n, a) (sweepSlot marked (n, a) i) := by
  rw [sweepSlot]
  split
  · rename_i hm
    refine ⟨h, rfl, fun id => ?_⟩
    by_cases hi : id.index = i
    · simp [hi, hm]
    · simp [hi]
  · rename_i hm
    split
    · rename_i ho
      refine ⟨consistent_vacate h i, ?_, fun id => ?_⟩
      · obtain ⟨generation, hc⟩ := occupied_iff.1 ho
        have hpos : 0 < a.live := by
          rw [h.live_eq]
          exact Finset.card_pos.2 ⟨_, mem_liveIds.2 hc⟩
        have hv : (a.vacate i).live = a.live - 1 := congrArg live (vacate_of_contains hc)
        show (a.vacate i).live + (n + 1) = a.live + n
        omega
      · rw [get?_vacate]
        by_cases hi : id.index = i
        · simp [hi, hm]
        · simp [hi]
    · rename_i ho
      refine ⟨h, rfl, fun id => ?_⟩
      split
      · rename_i hi
        obtain ⟨hi, -⟩ := hi
        rw [List.mem_singleton] at hi
        subst hi
        cases hs : a.get? id with
        | none => rfl
        | some scope =>
            exact absurd (occupied_iff.2 ⟨id.generation, contains_iff.2 ⟨scope, hs⟩⟩) ho
      · rfl

theorem swept_foldl (marked : Array Bool) (slots : List Nat) {n : Nat} {a : Arena}
    (h : a.Consistent) : Swept marked slots (n, a) (slots.foldl (sweepSlot marked) (n, a)) := by
  induction slots generalizing n a with
  | nil => exact ⟨h, rfl, fun id => by simp⟩
  | cons i slots ih =>
      have first := swept_sweepSlot (n := n) marked h i
      have rest := ih (n := (sweepSlot marked (n, a) i).1) first.consistent
      refine ⟨rest.consistent, rest.sum_eq.trans first.sum_eq, fun id => ?_⟩
      rw [List.foldl_cons, rest.get?_eq, first.get?_eq]
      by_cases hm : marked[id.index]? = some true
      · simp [hm]
      · by_cases hr : id.index ∈ slots <;> simp [hm, hr]

/-- A sweep keeps the scopes in marked slots and frees the others. -/
theorem get?_sweep (marked : Array Bool) {a : Arena} (h : a.Consistent) (id : ScopeId) :
    (a.sweep marked).2.get? id = if marked[id.index]? = some true then a.get? id else none := by
  rw [sweep, (swept_foldl marked _ h).get?_eq]
  by_cases hm : marked[id.index]? = some true
  · simp [hm]
  · cases hs : a.get? id with
    | none => simp
    | some scope =>
        obtain ⟨hlt, -⟩ := Array.getElem?_eq_some_iff.1 (get?_eq_some_iff.1 hs)
        simp [hm, hlt]

theorem consistent_collect {a : Arena} (h : a.Consistent) (scopes : List ScopeId)
    (values : List Value) : (a.collect scopes values).2.Consistent :=
  (swept_foldl _ _ h).consistent

/-- A collection leaves of the store what the roots lead to. -/
theorem contains_collect_iff {a : Arena} (h : a.Consistent) (scopes : List ScopeId)
    (values : List Value) (id : ScopeId) :
    (a.collect scopes values).2.contains id = true ↔ a.Reaches scopes values id := by
  have hmarks := (search_reached (a := a) scopes values).marksReached (.refl _)
  rw [collect_eq_sweep, contains, get?_sweep _ h]
  constructor
  · intro hc
    split at hc
    · rename_i hm
      obtain ⟨other, hi, hreached⟩ := (hmarks id.index).1 hm
      exact eq_of_contains hreached.lives hc hi ▸ hreached
    · cases hc
  · intro hreached
    rw [if_pos ((hmarks id.index).2 ⟨id, rfl, hreached⟩)]
    exact hreached.lives

theorem get?_collect {a : Arena} (h : a.Consistent) {scopes : List ScopeId}
    {values : List Value} {id : ScopeId} (hreached : a.Reaches scopes values id) :
    (a.collect scopes values).2.get? id = a.get? id := by
  have hmarks := (search_reached (a := a) scopes values).marksReached (.refl _)
  rw [collect_eq_sweep, get?_sweep _ h, if_pos ((hmarks id.index).2 ⟨id, rfl, hreached⟩)]

theorem consistent_apply {a : Arena} (h : a.Consistent) (op : Operation) :
    (op.apply a).Consistent := by
  cases op with
  | alloc outer => exact consistent_alloc h outer
  | release id => exact consistent_release h id
  | pin id => exact consistent_pin h id
  | define id name value => exact consistent_define h id name value
  | collect scopes values => exact consistent_collect h scopes values

theorem consistent_run {a : Arena} (h : a.Consistent) (ops : List Operation) :
    (a.run ops).Consistent := by
  induction ops generalizing a with
  | nil => exact h
  | cons op ops ih => exact ih (consistent_apply h op)

/-- All that is asked of a collection: `freed` scopes of the store `a` are freed, and
`b` is what remains. -/
structure CollectsExactly (a : Arena) (scopes : List ScopeId) (values : List Value)
    (freed : Nat) (b : Arena) : Prop where
  /-- of the scopes that live, the unreached ones are freed and no others -/
  freed_iff : ∀ id, a.contains id = true →
    (b.contains id = false ↔ ¬ a.Reaches scopes values id)
  /-- no other scope comes to life -/
  lives_before : ∀ id, b.contains id = true → a.contains id = true
  /-- a reached scope is what it was -/
  kept : ∀ id, a.Reaches scopes values id → b.get? id = a.get? id
  freed_eq : freed = (a.liveIds \ b.liveIds).card
  live_drop : b.live + freed = a.live
  /-- the result is the same in whatever order names are followed and listed -/
  any_order : ∀ work marked, work.Perm (itemScopes values ++ scopes) →
    a.Search (Array.replicate a.slots.size false) work marked → a.sweep marked = (freed, b)

theorem collectsExactly_of_consistent {a : Arena} (h : a.Consistent) (scopes : List ScopeId)
    (values : List Value) :
    a.CollectsExactly scopes values (a.collect scopes values).1 (a.collect scopes values).2 := by
  have hcontains := contains_collect_iff h scopes values
  have hsum : (a.collect scopes values).2.live + (a.collect scopes values).1 = a.live :=
    (swept_foldl _ _ h).sum_eq
  have hsub : (a.collect scopes values).2.liveIds ⊆ a.liveIds := by
    intro id hid
    rw [mem_liveIds, hcontains] at hid
    exact mem_liveIds.2 hid.lives
  refine ⟨fun id _ => ?_, fun id hid => ((hcontains id).1 hid).lives,
    fun id => get?_collect h, ?_, hsum, fun work marked hroots hsearch => ?_⟩
  · rw [← hcontains id, Bool.not_eq_true]
  · rw [Finset.card_sdiff_of_subset hsub, ← h.live_eq, ← (consistent_collect h ..).live_eq]
    omega
  · have hcode := search_reached (a := a) scopes values
    have hmarked : marked = a.reached scopes values :=
      (hsearch.marksReached hroots).unique (hcode.marksReached (.refl _))
        (hsearch.size_eq.trans hcode.size_eq.symm)
    rw [hmarked, ← collect_eq_sweep]

/-- Mark and sweep is exact in every store that operations make. -/
theorem collect_exact (ops : List Operation) (scopes : List ScopeId) (values : List Value) :
    (empty.run ops).CollectsExactly scopes values
      ((empty.run ops).collect scopes values).1 ((empty.run ops).collect scopes values).2 :=
  collectsExactly_of_consistent (consistent_run consistent_empty ops) scopes values

end Arena
end Treewalk
