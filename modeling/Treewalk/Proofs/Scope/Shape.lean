import Treewalk.Proofs.Scope.Chains

/-!
The shape of a store: its slots and their generations, the vacant ones in their order,
and the links and pins of its scopes, with nothing bound in them. All operations commute
with taking the shape, and binding a name does not change it: where a scope is made,
which scopes are pinned and which are freed is decided by the shape alone.
-/

namespace Treewalk

def Scope.shape (s : Scope) : Scope :=
  { s with bindings := [] }

def Slot.shape (slot : Slot) : Slot :=
  { slot with scope := slot.scope.map Scope.shape }

namespace Arena

/-- The store with nothing bound in its scopes. -/
def shape (a : Arena) : Arena :=
  { a with slots := a.slots.map Slot.shape }

variable {a b : Arena} {id : ScopeId}

theorem get?_shape (id : ScopeId) (a : Arena) :
    a.shape.get? id = (a.get? id).map Scope.shape := by
  simp only [get?, shape, Array.getElem?_map]
  cases a.slots[id.index]? with
  | none => rfl
  | some slot =>
      simp only [Option.map_some, Slot.shape]
      split <;> rfl

theorem contains_shape (id : ScopeId) (a : Arena) : a.shape.contains id = a.contains id := by
  rw [contains, contains, get?_shape, Option.isSome_map]

theorem consistent_shape_iff : a.shape.Consistent ↔ a.Consistent := by
  have hlive : a.shape.liveIds = a.liveIds :=
    liveIds_eq_of_contains fun id => contains_shape id a
  have hvacant : ∀ (i generation : Nat), a.shape.slots[i]? = some ⟨generation, none⟩ ↔
      a.slots[i]? = some ⟨generation, none⟩ := by
    intro i generation
    simp only [shape, Array.getElem?_map]
    cases a.slots[i]? with
    | none => simp
    | some slot =>
        obtain ⟨g, scope⟩ := slot
        cases scope <;> simp [Slot.shape]
  have hfree : ∀ i : Nat, (∃ generation, a.shape.slots[i]? = some ⟨generation, none⟩) ↔
      ∃ generation, a.slots[i]? = some ⟨generation, none⟩ :=
    fun i => exists_congr (hvacant i)
  constructor
  · rintro ⟨live_eq, free_nodup, mem_free_iff⟩
    exact ⟨hlive ▸ live_eq, free_nodup, fun i => (mem_free_iff i).trans (hfree i)⟩
  · rintro ⟨live_eq, free_nodup, mem_free_iff⟩
    exact ⟨hlive.symm ▸ live_eq, free_nodup, fun i => (mem_free_iff i).trans (hfree i).symm⟩

theorem Consistent.of_shape (h : a.Consistent) (hshape : a.shape = b.shape) : b.Consistent := by
  rw [← consistent_shape_iff, ← hshape, consistent_shape_iff]
  exact h

theorem contains_eq_of_shape (h : a.shape = b.shape) (id : ScopeId) :
    a.contains id = b.contains id := by
  rw [← contains_shape, h, contains_shape]

theorem live_eq_of_shape (h : a.shape = b.shape) : a.live = b.live := by
  show a.shape.live = b.shape.live
  rw [h]

theorem map_modify {α β : Type} {xs : Array α} {i : Nat} {f : α → α} {g : α → β} {h : β → β}
    (hcomm : ∀ x, g (f x) = h (g x)) : (xs.modify i f).map g = (xs.map g).modify i h := by
  apply Array.ext_getElem?
  intro j
  simp only [Array.getElem?_map, Array.getElem?_modify]
  split
  · rw [Option.map_map, Option.map_map]
    exact congrArg (Option.map · xs[j]?) (funext hcomm)
  · rfl

theorem alloc_shape (outer : Option ScopeId) (a : Arena) :
    a.shape.alloc outer = ((a.alloc outer).1, (a.alloc outer).2.shape) := by
  obtain ⟨slots, free, live⟩ := a
  cases free with
  | nil => simp [alloc, shape, Slot.shape, Scope.shape]
  | cons i free =>
      have hgeneration : (slots.map Slot.shape)[i]?.map Slot.generation =
          slots[i]?.map Slot.generation := by
        rw [Array.getElem?_map, Option.map_map]
        rfl
      simp only [alloc, shape, hgeneration]
      rw [map_modify (h := fun slot => { slot with scope := some ⟨[], outer, false⟩ })]
      exact fun _ => rfl

theorem shape_update {f g : Scope → Scope} (h : ∀ s, (f s).shape = g s.shape) (id : ScopeId)
    (a : Arena) : (a.update id f).shape = a.shape.update id g := by
  simp only [update, shape]
  rw [map_modify]
  intro slot
  obtain ⟨generation, scope⟩ := slot
  by_cases hg : generation = id.generation
  · simp only [Slot.shape, hg, if_true, Option.map_map]
    exact congrArg (fun k => Slot.mk id.generation (scope.map k)) (funext h)
  · simp only [Slot.shape, hg, if_false]

theorem update_self (id : ScopeId) (a : Arena) : (a.update id fun s => s) = a := by
  have hslots : a.slots.modify id.index (fun slot =>
      if slot.generation = id.generation then { slot with scope := slot.scope.map fun s => s }
      else slot) = a.slots := by
    apply Array.ext_getElem?
    intro i
    rw [Array.getElem?_modify]
    split
    · cases a.slots[i]? <;> simp
    · rfl
  rw [update, hslots]

theorem shape_define (id : ScopeId) (name : String) (value : Value) (a : Arena) :
    (a.define id name value).shape = a.shape := by
  have hshape := shape_update (f := fun s => { s with bindings := s.bindings.put name value })
    (g := fun s => s) (fun _ => rfl) id a
  rw [update_self] at hshape
  exact hshape

theorem shape_pinFrom (n : Nat) (id : ScopeId) (a : Arena) :
    (pinFrom n id a).shape = pinFrom n id a.shape := by
  induction n generalizing id a with
  | zero => rfl
  | succ n ih =>
      have hone : (a.update id fun s => { s with pinned := true }).shape =
          a.shape.update id fun s => { s with pinned := true } :=
        shape_update (f := fun s => { s with pinned := true })
          (g := fun s => { s with pinned := true }) (fun _ => rfl) id a
      rw [pinFrom, pinFrom, get?_shape]
      cases a.get? id with
      | none => rfl
      | some s =>
          obtain ⟨bindings, outer, pinned⟩ := s
          cases pinned with
          | true => rfl
          | false =>
              cases outer with
              | none => exact hone
              | some outer => exact (ih outer _).trans (congrArg (pinFrom n outer) hone)

theorem shape_pin (id : ScopeId) (a : Arena) : (a.pin id).shape = a.shape.pin id :=
  shape_pinFrom (a.live + 1) id a

theorem shape_vacate (i : Nat) (a : Arena) : (a.vacate i).shape = a.shape.vacate i := by
  have hoccupied : (a.shape.slots[i]?.bind Slot.scope).isSome =
      (a.slots[i]?.bind Slot.scope).isSome := by
    simp only [shape, Array.getElem?_map]
    cases a.slots[i]? with
    | none => rfl
    | some slot => exact Option.isSome_map
  rw [vacate, vacate, hoccupied]
  split
  · simp only [shape]
    rw [map_modify]
    exact fun _ => rfl
  · rfl

theorem shape_release (id : ScopeId) (a : Arena) :
    (a.release id).shape = a.shape.release id := by
  rw [release, release, get?_shape]
  cases a.get? id with
  | none => rfl
  | some s =>
      obtain ⟨bindings, outer, pinned⟩ := s
      cases pinned with
      | true => rfl
      | false => exact shape_vacate id.index a

end Arena
end Treewalk
