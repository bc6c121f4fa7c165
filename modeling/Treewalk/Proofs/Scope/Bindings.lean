import Treewalk.Proofs.Scope.Links

/-!
What the values bound in live scopes have in common. A property that all of them have is
kept by every operation on the store, as long as only values that have it are bound: a new
scope binds nothing, and pinning, releasing and collecting change no binding. A name is
then looked up only to a value with the property. None of this needs the store to be
consistent.
-/

namespace Treewalk
namespace Arena

/-- Every value that a live scope binds has the property. -/
def Binds (P : Value → Prop) (a : Arena) : Prop :=
  ∀ id scope name value, a.get? id = some scope → scope.bindings.get? name = some value → P value

variable {P : Value → Prop} {a b : Arena}

theorem binds_empty : empty.Binds P := by
  intro id scope name value hs
  cases hs

/-- Nothing is bound in the second store but what is bound in the first. -/
theorem Binds.of_scopes (h : a.Binds P)
    (hscopes : ∀ id scope, b.get? id = some scope →
      scope.bindings = [] ∨ ∃ before, a.get? id = some before ∧
        scope.bindings = before.bindings) : b.Binds P := by
  intro id scope name value hs hv
  obtain hnil | ⟨before, hbefore, hbindings⟩ := hscopes id scope hs
  · rw [hnil] at hv
    cases hv
  · exact h id before name value hbefore (hbindings ▸ hv)

theorem bindings_alloc (outer : Option ScopeId) {id : ScopeId} {scope : Scope}
    (hs : (a.alloc outer).2.get? id = some scope) :
    scope.bindings = [] ∨ a.get? id = some scope := by
  cases hfree : a.free with
  | nil =>
      simp only [Arena.alloc, hfree, get?, Array.getElem?_push] at hs
      split at hs
      · rename_i slot hslot
        split at hslot
        · cases hslot
          split at hs
          · cases hs
            exact .inl rfl
          · cases hs
        · rw [get?, hslot]
          exact .inr hs
      · cases hs
  | cons i free =>
      simp only [Arena.alloc, hfree, get?, Array.getElem?_modify] at hs
      by_cases hi : i = id.index
      · rw [if_pos hi] at hs
        cases hslot : a.slots[id.index]? with
        | none =>
            rw [hslot] at hs
            cases hs
        | some slot =>
            rw [hslot] at hs
            dsimp only [Option.map_some] at hs
            split at hs
            · cases hs
              exact .inl rfl
            · cases hs
      · rw [if_neg hi] at hs
        exact .inr hs

theorem Binds.alloc (h : a.Binds P) (outer : Option ScopeId) : (a.alloc outer).2.Binds P := by
  refine h.of_scopes fun id scope hs => ?_
  obtain hnil | hs := bindings_alloc outer hs
  · exact .inl hnil
  · exact .inr ⟨scope, hs, rfl⟩

theorem Binds.define (h : a.Binds P) (id : ScopeId) (name : String) {value : Value}
    (hvalue : P value) : (a.define id name value).Binds P := by
  intro other scope bound v hs hv
  obtain ⟨before, hbefore, -, -, hbindings⟩ := get?_of_get?_define hs
  rw [hbindings] at hv
  split at hv
  · by_cases hname : bound = name
    · subst hname
      rw [Entries.get?_put_self] at hv
      cases hv
      exact hvalue
    · rw [Entries.get?_put_of_ne hname] at hv
      exact h other before bound v hbefore hv
  · exact h other before bound v hbefore hv

theorem Binds.pin (h : a.Binds P) (id : ScopeId) : (a.pin id).Binds P := by
  refine h.of_scopes fun other scope hs => .inr ?_
  obtain ⟨before, hbefore, hbindings, -⟩ := (pinsMore_pin id a).get?_of_get? hs
  exact ⟨before, hbefore, hbindings⟩

theorem Binds.release (h : a.Binds P) (id : ScopeId) : (a.release id).Binds P :=
  h.of_scopes fun _ scope hs => .inr ⟨scope, get?_of_get?_release hs, rfl⟩

theorem Binds.vacate (h : a.Binds P) (i : Nat) : (a.vacate i).Binds P := by
  refine h.of_scopes fun id scope hs => .inr ⟨scope, ?_, rfl⟩
  rw [get?_vacate] at hs
  split at hs
  · cases hs
  · exact hs

theorem Binds.sweepSlot {swept : Nat × Arena} (h : swept.2.Binds P) (marked : Array Bool)
    (i : Nat) : (Arena.sweepSlot marked swept i).2.Binds P := by
  rw [Arena.sweepSlot]
  split
  · exact h
  · split
    · exact h.vacate i
    · exact h

theorem Binds.collect (h : a.Binds P) (scopes : List ScopeId) (values : List Value) :
    (a.collect scopes values).2.Binds P := by
  have hfold (slots : List Nat) (swept : Nat × Arena) (hswept : swept.2.Binds P) :
      (slots.foldl (Arena.sweepSlot (a.reached scopes values)) swept).2.Binds P := by
    induction slots generalizing swept with
    | nil => exact hswept
    | cons i slots ih => exact ih _ (hswept.sweepSlot _ i)
  exact hfold (List.range a.slots.size) (0, a) h

theorem Binds.lookupFrom (h : a.Binds P) {name : String} {value : Value} (n : Nat) (id : ScopeId)
    (hfound : a.lookupFrom name n id = some (.found value)) : P value := by
  induction n generalizing id with
  | zero => cases hfound
  | succ n ih =>
      rw [Arena.lookupFrom] at hfound
      split at hfound
      · cases hfound
      · rename_i scope hs
        split at hfound
        · rename_i hv
          cases hfound
          exact h id scope name value hs hv
        · cases hfound
        · exact ih _ hfound

theorem Binds.lookup (h : a.Binds P) {id : ScopeId} {name : String} {value : Value}
    (hfound : a.lookup id name = .found value) : P value := by
  rw [Arena.lookup] at hfound
  cases hlookup : a.lookupFrom name (a.live + 1) id with
  | none =>
      rw [hlookup] at hfound
      cases hfound
  | some found =>
      rw [hlookup] at hfound
      cases (hfound : found = .found value)
      exact h.lookupFrom (a.live + 1) id hlookup

end Arena
end Treewalk
