import Mathlib.Data.Finset.Card
import Treewalk.Scope.Collection

/-!
The bookkeeping of the store. A store is changed by five operations alone; in
whatever order they run and whatever names they are given, the store counts its
scopes exactly and its list of vacant slots is exact. What an operation does is
said through `get?`: a new scope takes a name that names nothing, and freeing a
scope is felt under its own name only.
-/

namespace Treewalk
namespace Arena

/-- The name of the scope that lives in a slot. -/
def nameAt? (a : Arena) (i : Nat) : Option ScopeId :=
  match a.slots[i]? with
  | some ⟨generation, some _⟩ => some ⟨i, generation⟩
  | _ => none

/-- The names of all scopes that live. -/
def liveIds (a : Arena) : Finset ScopeId :=
  ((List.range a.slots.size).filterMap a.nameAt?).toFinset

/-- The count of scopes and the list of vacant slots are exact. -/
structure Consistent (a : Arena) : Prop where
  live_eq : a.live = a.liveIds.card
  free_nodup : a.free.Nodup
  mem_free_iff : ∀ i, i ∈ a.free ↔ ∃ generation, a.slots[i]? = some ⟨generation, none⟩

theorem get?_eq_some_iff {a : Arena} {id : ScopeId} {scope : Scope} :
    a.get? id = some scope ↔ a.slots[id.index]? = some ⟨id.generation, some scope⟩ := by
  rw [get?]
  split
  · rename_i slot h
    obtain ⟨generation, content⟩ := slot
    by_cases hg : generation = id.generation <;> simp [h, hg]
  · rename_i h
    simp [h]

theorem contains_iff {a : Arena} {id : ScopeId} :
    a.contains id = true ↔ ∃ scope, a.get? id = some scope := by
  rw [contains, Option.isSome_iff_exists]

theorem eq_of_contains {a : Arena} {id other : ScopeId} (h : a.contains id = true)
    (ho : a.contains other = true) (hi : id.index = other.index) : id = other := by
  obtain ⟨scope, hs⟩ := contains_iff.1 h
  obtain ⟨otherScope, hos⟩ := contains_iff.1 ho
  rw [get?_eq_some_iff] at hs hos
  rw [hi, hos] at hs
  obtain ⟨i, g⟩ := id
  obtain ⟨j, k⟩ := other
  simp_all

theorem nameAt?_eq_some_iff {a : Arena} {i : Nat} {id : ScopeId} :
    a.nameAt? i = some id ↔ id.index = i ∧ a.contains id = true := by
  constructor
  · intro h
    rw [nameAt?] at h
    split at h
    · rename_i generation scope hs
      cases h
      exact ⟨rfl, contains_iff.2 ⟨scope, get?_eq_some_iff.2 hs⟩⟩
    · cases h
  · rintro ⟨rfl, h⟩
    obtain ⟨scope, hs⟩ := contains_iff.1 h
    rw [nameAt?, get?_eq_some_iff.1 hs]

@[simp] theorem mem_liveIds {a : Arena} {id : ScopeId} :
    id ∈ a.liveIds ↔ a.contains id = true := by
  simp only [liveIds, List.mem_toFinset, List.mem_filterMap, List.mem_range,
    nameAt?_eq_some_iff]
  constructor
  · rintro ⟨i, -, -, h⟩
    exact h
  · intro h
    obtain ⟨scope, hs⟩ := contains_iff.1 h
    obtain ⟨hi, -⟩ := Array.getElem?_eq_some_iff.1 (get?_eq_some_iff.1 hs)
    exact ⟨id.index, hi, rfl, h⟩

theorem liveIds_eq_of_contains {a b : Arena} (h : ∀ id, a.contains id = b.contains id) :
    a.liveIds = b.liveIds := by
  ext id
  rw [mem_liveIds, mem_liveIds, h]

/-! A store without scopes. -/

theorem consistent_empty : empty.Consistent :=
  ⟨rfl, List.nodup_nil, by simp [empty]⟩

/-! Making a scope. -/

/-- A new scope goes to the slot vacated last, or to a new slot if none is vacant. -/
theorem alloc_cases {a : Arena} (h : a.Consistent) (outer : Option ScopeId) :
    (a.free = [] ∧
      a.alloc outer = (⟨a.slots.size, 0⟩,
        ⟨a.slots.push ⟨0, some ⟨[], outer, false⟩⟩, [], a.live + 1⟩)) ∨
    ∃ i rest generation, a.free = i :: rest ∧ a.slots[i]? = some ⟨generation, none⟩ ∧
      a.alloc outer = (⟨i, generation⟩,
        ⟨a.slots.modify i fun slot => { slot with scope := some ⟨[], outer, false⟩ }, rest,
          a.live + 1⟩) := by
  cases hf : a.free with
  | nil => exact .inl ⟨rfl, by rw [alloc, hf]⟩
  | cons i rest =>
      obtain ⟨generation, hs⟩ := (h.mem_free_iff i).1 (by simp [hf])
      exact .inr ⟨i, rest, generation, rfl, hs, by simp [alloc, hf, hs]⟩

theorem get?_alloc_self_before {a : Arena} (h : a.Consistent) (outer : Option ScopeId) :
    a.get? (a.alloc outer).1 = none := by
  obtain ⟨-, ha⟩ | ⟨i, rest, generation, -, hs, ha⟩ := alloc_cases h outer
  · simp [ha, get?]
  · simp [ha, get?, hs]

theorem get?_alloc {a : Arena} (h : a.Consistent) (outer : Option ScopeId) (id : ScopeId) :
    (a.alloc outer).2.get? id =
      if id = (a.alloc outer).1 then some ⟨[], outer, false⟩ else a.get? id := by
  obtain ⟨i, g⟩ := id
  obtain ⟨-, ha⟩ | ⟨j, rest, generation, -, hs, ha⟩ := alloc_cases h outer
  · simp only [ha, get?, Array.getElem?_push, ScopeId.mk.injEq]
    by_cases hi : i = a.slots.size
    · subst hi
      by_cases hg : g = 0 <;> simp [hg, eq_comm]
    · simp [hi]
  · simp only [ha, get?, Array.getElem?_modify, ScopeId.mk.injEq]
    by_cases hj : j = i
    · subst hj
      by_cases hg : generation = g
      · simp [hs, hg]
      · simp [hs, hg, Ne.symm hg]
    · simp [hj, Ne.symm hj]

theorem liveIds_alloc {a : Arena} (h : a.Consistent) (outer : Option ScopeId) :
    (a.alloc outer).2.liveIds = insert (a.alloc outer).1 a.liveIds := by
  ext id
  simp only [mem_liveIds, Finset.mem_insert, contains, get?_alloc h]
  by_cases hi : id = (a.alloc outer).1 <;> simp [hi]

theorem consistent_alloc {a : Arena} (h : a.Consistent) (outer : Option ScopeId) :
    (a.alloc outer).2.Consistent := by
  have hfresh : (a.alloc outer).1 ∉ a.liveIds := by
    simp [contains, get?_alloc_self_before h]
  have hcard : (a.alloc outer).2.liveIds.card = a.live + 1 := by
    rw [liveIds_alloc h, Finset.card_insert_of_notMem hfresh, h.live_eq]
  obtain ⟨hf, ha⟩ | ⟨i, rest, generation, hf, hs, ha⟩ := alloc_cases h outer
  · refine ⟨?_, by simp [ha], fun j => ?_⟩
    · rw [hcard, ha]
    · have hj := h.mem_free_iff j
      rw [hf] at hj
      simp only [ha, Array.getElem?_push]
      by_cases hsize : j = a.slots.size
      · simp [hsize]
      · simpa [hsize] using hj
  · have hnodup : i ∉ rest ∧ rest.Nodup := by simpa [hf] using h.free_nodup
    refine ⟨?_, by simpa [ha] using hnodup.2, fun j => ?_⟩
    · rw [hcard, ha]
    · have hj := h.mem_free_iff j
      simp only [ha, Array.getElem?_modify]
      by_cases hij : i = j
      · subst hij
        simp [hs, hnodup.1]
      · simpa [hf, hij, Ne.symm hij] using hj

/-! Changing a scope in its place. -/

theorem consistent_update {a : Arena} (h : a.Consistent) (id : ScopeId)
    (f : Scope → Scope) : (a.update id f).Consistent := by
  refine ⟨?_, h.free_nodup, fun i => ?_⟩
  · rw [live_update, h.live_eq]
    exact congrArg Finset.card (liveIds_eq_of_contains fun x => (contains_update ..).symm)
  · have hi := h.mem_free_iff i
    simp only [update, Array.getElem?_modify]
    by_cases hx : id.index = i
    · subst hx
      rw [if_pos rfl]
      refine hi.trans ?_
      cases a.slots[id.index]? with
      | none => simp
      | some slot =>
          obtain ⟨generation, content⟩ := slot
          by_cases hg : generation = id.generation <;> simp [hg]
    · rw [if_neg hx]
      exact hi

theorem consistent_define {a : Arena} (h : a.Consistent) (id : ScopeId) (name : String)
    (value : Value) : (a.define id name value).Consistent :=
  consistent_update h ..

theorem consistent_pinFrom {a : Arena} (h : a.Consistent) (n : Nat) (id : ScopeId) :
    (pinFrom n id a).Consistent := by
  induction n generalizing id a with
  | zero => exact h
  | succ n ih =>
      rw [pinFrom]
      split
      · exact h
      · split
        · exact h
        · have hu := consistent_update h id fun scope => { scope with pinned := true }
          dsimp only
          split
          · exact hu
          · exact ih hu _

theorem consistent_pin {a : Arena} (h : a.Consistent) (id : ScopeId) :
    (a.pin id).Consistent :=
  consistent_pinFrom h ..

/-! Freeing a scope. -/

theorem occupied_iff {a : Arena} {i : Nat} :
    (a.slots[i]?.bind Slot.scope).isSome = true ↔
      ∃ generation, a.contains ⟨i, generation⟩ = true := by
  constructor
  · intro h
    obtain ⟨scope, hs⟩ := Option.isSome_iff_exists.1 h
    obtain ⟨⟨generation, content⟩, hslot, rfl⟩ := Option.bind_eq_some_iff.1 hs
    exact ⟨generation, contains_iff.2 ⟨scope, get?_eq_some_iff.2 hslot⟩⟩
  · rintro ⟨generation, h⟩
    obtain ⟨scope, hs⟩ := contains_iff.1 h
    simp [get?_eq_some_iff.1 hs]

theorem vacate_of_contains {a : Arena} {id : ScopeId} (h : a.contains id = true) :
    a.vacate id.index =
      ⟨a.slots.modify id.index fun slot => ⟨slot.generation + 1, none⟩, id.index :: a.free,
        a.live - 1⟩ :=
  if_pos (occupied_iff.2 ⟨id.generation, h⟩)

theorem get?_vacate (a : Arena) (i : Nat) (id : ScopeId) :
    (a.vacate i).get? id = if id.index = i then none else a.get? id := by
  rw [vacate]
  split
  · simp only [get?, Array.getElem?_modify]
    by_cases hi : i = id.index
    · subst hi
      cases a.slots[id.index]? <;> simp
    · simp [hi, Ne.symm hi]
  · rename_i hv
    split
    · rename_i hi
      subst hi
      cases hs : a.get? id with
      | none => rfl
      | some scope =>
          exact absurd (occupied_iff.2 ⟨id.generation, contains_iff.2 ⟨scope, hs⟩⟩) hv
    · rfl

theorem liveIds_vacate {a : Arena} {id : ScopeId} (h : a.contains id = true) :
    (a.vacate id.index).liveIds = a.liveIds.erase id := by
  ext other
  simp only [mem_liveIds, Finset.mem_erase, contains, get?_vacate]
  by_cases hi : other.index = id.index
  · simp only [hi, if_true, Option.isSome_none, Bool.false_eq_true, false_iff, not_and]
    intro hne ho
    exact hne (eq_of_contains ho h hi)
  · have hne : other ≠ id := fun e => hi (by rw [e])
    simp [hi, hne]

theorem consistent_vacate {a : Arena} (h : a.Consistent) (i : Nat) :
    (a.vacate i).Consistent := by
  by_cases ho : (a.slots[i]?.bind Slot.scope).isSome = true
  · obtain ⟨generation, hc⟩ := occupied_iff.1 ho
    have hv := vacate_of_contains hc
    have hl := liveIds_vacate hc
    obtain ⟨scope, hs⟩ := contains_iff.1 hc
    rw [get?_eq_some_iff] at hs
    dsimp only at hv hl hs
    have hnot : i ∉ a.free := fun hf => by
      obtain ⟨g, hg⟩ := (h.mem_free_iff i).1 hf
      simp [hg] at hs
    refine ⟨?_, ?_, fun j => ?_⟩
    · rw [hl, Finset.card_erase_of_mem (mem_liveIds.2 hc), hv, ← h.live_eq]
    · rw [hv]
      exact List.nodup_cons.2 ⟨hnot, h.free_nodup⟩
    · have hj := h.mem_free_iff j
      simp only [hv, Array.getElem?_modify, List.mem_cons]
      by_cases hij : i = j
      · subst hij
        simp [hs]
      · simpa [hij, Ne.symm hij] using hj
  · rw [vacate, if_neg ho]
    exact h

theorem get?_release (a : Arena) (id other : ScopeId) :
    (a.release id).get? other =
      if other = id ∧ ∃ scope, a.get? id = some scope ∧ scope.pinned = false then none
      else a.get? other := by
  rw [release]
  cases hs : a.get? id with
  | none => simp
  | some scope =>
      cases hp : scope.pinned with
      | true => simp [hp]
      | false =>
          simp only [Bool.false_eq_true, if_false, get?_vacate, Option.some.injEq,
            exists_eq_left', hp, and_true]
          by_cases ho : other = id
          · simp [ho]
          · rw [if_neg ho]
            split
            · rename_i hi
              cases hos : a.get? other with
              | none => rfl
              | some otherScope =>
                  exact absurd (eq_of_contains (contains_iff.2 ⟨_, hos⟩)
                    (contains_iff.2 ⟨_, hs⟩) hi) ho
            · rfl

theorem consistent_release {a : Arena} (h : a.Consistent) (id : ScopeId) :
    (a.release id).Consistent := by
  rw [release]
  split
  · split
    · exact h
    · exact consistent_vacate h _
  · exact h

end Arena
end Treewalk
