import Treewalk.Proofs.Scope.Chains
import Treewalk.Proofs.Scope.Collection

/-!
Links to scopes that may be gone. A name has been issued if its scope lives or has
lived; an operation issues the name of the scope it makes, which was not issued
before, and takes back none. In a linked store every scope lies in one whose name has
been issued, though that one may be gone, and no chain comes back to itself. All five
operations keep a store linked, and they keep the scopes around pinned ones pinned.
-/

namespace Treewalk
namespace Arena

/-- The name of a scope that lives or has lived. -/
def Issued (a : Arena) (id : ScopeId) : Prop :=
  a.contains id = true ∨
    ∃ slot, a.slots[id.index]? = some slot ∧ id.generation < slot.generation

variable {a b : Arena} {id : ScopeId} {height : ScopeId → Nat}

theorem Issued.of_lives (h : a.contains id = true) : a.Issued id :=
  .inl h

theorem issued_update (a : Arena) (id : ScopeId) (f : Scope → Scope) (x : ScopeId) :
    (a.update id f).Issued x ↔ a.Issued x := by
  simp only [Issued, contains_update]
  refine or_congr_right ?_
  simp only [update, Array.getElem?_modify]
  split
  · simp only [Option.map_eq_some_iff]
    constructor
    · rintro ⟨_, ⟨slot, hs, rfl⟩, hlt⟩
      exact ⟨slot, hs, by split at hlt <;> exact hlt⟩
    · rintro ⟨slot, hs, hlt⟩
      exact ⟨_, ⟨slot, hs, rfl⟩, by split <;> exact hlt⟩
  · rfl

theorem issued_pinFrom (n : Nat) (id : ScopeId) (a : Arena) (x : ScopeId) :
    (pinFrom n id a).Issued x ↔ a.Issued x := by
  induction n generalizing id a with
  | zero => rfl
  | succ n ih =>
      rw [pinFrom]
      split
      · rfl
      · split
        · rfl
        · dsimp only
          split
          · exact issued_update ..
          · rw [ih, issued_update]

theorem not_issued_alloc (h : a.Consistent) (outer : Option ScopeId) :
    ¬ a.Issued (a.alloc outer).1 := by
  rintro (hlives | ⟨slot, hs, hlt⟩)
  · simp [contains, get?_alloc_self_before h] at hlives
  · obtain ⟨-, ha⟩ | ⟨i, rest, generation, -, hfree, ha⟩ := alloc_cases h outer
    · simp [ha] at hs
    · simp only [ha] at hs hlt
      cases hs.symm.trans hfree
      exact Nat.lt_irrefl _ hlt

theorem contains_alloc (h : a.Consistent) (outer : Option ScopeId) :
    (a.alloc outer).2.contains id = true ↔ id = (a.alloc outer).1 ∨ a.contains id = true := by
  rw [← mem_liveIds, liveIds_alloc h, Finset.mem_insert, mem_liveIds]

theorem Issued.alloc (hid : a.Issued id) (h : a.Consistent) (outer : Option ScopeId) :
    (a.alloc outer).2.Issued id := by
  obtain hlives | ⟨slot, hs, hlt⟩ := hid
  · exact .inl ((contains_alloc h outer).2 (.inr hlives))
  · obtain ⟨hi, -⟩ := Array.getElem?_eq_some_iff.1 hs
    right
    obtain ⟨-, ha⟩ | ⟨i, rest, generation, -, -, ha⟩ := alloc_cases h outer
    · refine ⟨slot, ?_, hlt⟩
      rw [ha, Array.getElem?_push, if_neg (Nat.ne_of_lt hi), hs]
    · refine ⟨if i = id.index then { slot with scope := some ⟨[], outer, false⟩ } else slot,
        ?_, ?_⟩
      · rw [ha, Array.getElem?_modify, hs]
        split <;> rfl
      · split <;> exact hlt

theorem Issued.vacate (hid : a.Issued id) (i : Nat) : (a.vacate i).Issued id := by
  by_cases hi : id.index = i
  · subst hi
    rw [Arena.vacate]
    split
    · obtain hlives | ⟨slot, hs, hlt⟩ := hid
      · obtain ⟨scope, hs⟩ := contains_iff.1 hlives
        rw [get?_eq_some_iff] at hs
        exact .inr ⟨⟨id.generation + 1, none⟩, by simp [Array.getElem?_modify, hs],
          Nat.lt_succ_self _⟩
      · exact .inr ⟨⟨slot.generation + 1, none⟩, by simp [Array.getElem?_modify, hs],
          Nat.lt_succ_of_lt hlt⟩
    · exact hid
  · obtain hlives | ⟨slot, hs, hlt⟩ := hid
    · left
      rw [contains, get?_vacate, if_neg hi]
      exact hlives
    · refine .inr ⟨slot, ?_, hlt⟩
      rw [Arena.vacate]
      split
      · simp [Array.getElem?_modify, Ne.symm hi, hs]
      · exact hs

theorem Issued.release (hid : a.Issued id) (other : ScopeId) : (a.release other).Issued id := by
  rw [Arena.release]
  split
  · split
    · exact hid
    · exact hid.vacate _
  · exact hid

theorem Issued.sweep (marked : Array Bool) (slots : List Nat) {n : Nat} (hid : a.Issued id) :
    (slots.foldl (sweepSlot marked) (n, a)).2.Issued id := by
  induction slots generalizing n a with
  | nil => exact hid
  | cons i slots ih =>
      rw [List.foldl_cons, sweepSlot]
      split
      · exact ih hid
      · split
        · exact ih (hid.vacate i)
        · exact ih hid

theorem Issued.collect (hid : a.Issued id) (scopes : List ScopeId) (values : List Value) :
    (a.collect scopes values).2.Issued id :=
  hid.sweep ..

theorem get?_of_get?_release {other : ScopeId} {scope : Scope}
    (hs : (a.release id).get? other = some scope) : a.get? other = some scope := by
  rw [get?_release] at hs
  split at hs
  · cases hs
  · exact hs

theorem get?_of_get?_collect (hc : a.Consistent) {scopes : List ScopeId} {values : List Value}
    {scope : Scope} (hs : (a.collect scopes values).2.get? id = some scope) :
    a.get? id = some scope := by
  have hreached := (contains_collect_iff hc scopes values id).1 (contains_iff.2 ⟨scope, hs⟩)
  rw [← get?_collect hc hreached, hs]

/-- Every scope lies in one whose name has been issued, and no chain of scopes comes
back to itself. -/
structure Linked (a : Arena) : Prop where
  consistent : a.Consistent
  issued : ∀ id scope outer, a.get? id = some scope → scope.outer = some outer →
    a.Issued outer
  grounded : ∃ height, a.FallsOutward height

namespace Linked

theorem empty : Arena.empty.Linked :=
  ⟨consistent_empty, fun id scope outer hs => by simp [Arena.empty, get?] at hs, fun _ => 0,
    fun id scope outer hs => by simp [Arena.empty, get?] at hs⟩

/-- The scopes of one store are in their places in the other, and no name is taken
back. -/
theorem of_links (h : a.Linked) (hb : b.Consistent)
    (hlinks : ∀ id scope, b.get? id = some scope →
      ∃ before, a.get? id = some before ∧ scope.outer = before.outer)
    (hissued : ∀ id, a.Issued id → b.Issued id) : b.Linked := by
  obtain ⟨height, hfalls⟩ := h.grounded
  refine ⟨hb, fun id scope outer hs ho => ?_, height, fun id scope outer hs ho => ?_⟩
  · obtain ⟨before, hbefore, houter⟩ := hlinks id scope hs
    exact hissued outer (h.issued id before outer hbefore (houter ▸ ho))
  · obtain ⟨before, hbefore, houter⟩ := hlinks id scope hs
    exact hfalls id before outer hbefore (houter ▸ ho)

theorem alloc (h : a.Linked) (outer : Option ScopeId)
    (hissued : ∀ o, outer = some o → a.Issued o) : (a.alloc outer).2.Linked := by
  have hget := get?_alloc h.consistent outer
  have hne : ∀ o, a.Issued o → o ≠ (a.alloc outer).1 := by
    rintro o ho rfl
    exact not_issued_alloc h.consistent outer ho
  obtain ⟨height, hfalls⟩ := h.grounded
  refine ⟨consistent_alloc h.consistent outer, fun id scope o hs ho => ?_,
    Function.update height (a.alloc outer).1 ((outer.map height).getD 0 + 1),
    fun id scope o hs ho => ?_⟩
  · rw [hget] at hs
    split at hs
    · cases hs
      exact (hissued o ho).alloc h.consistent outer
    · exact (h.issued id scope o hs ho).alloc h.consistent outer
  · rw [hget] at hs
    split at hs
    · rename_i hid
      subst hid
      cases hs
      have ho' : outer = some o := ho
      rw [Function.update_self, Function.update_of_ne (hne o (hissued o ho')), ho']
      exact Nat.lt_succ_self _
    · rename_i hid
      rw [Function.update_of_ne hid, Function.update_of_ne (hne o (h.issued id scope o hs ho))]
      exact hfalls id scope o hs ho

theorem define (h : a.Linked) (id : ScopeId) (name : String) (value : Value) :
    (a.define id name value).Linked := by
  refine h.of_links (consistent_define h.consistent ..) (fun x scope hs => ?_)
    fun x hx => (issued_update ..).2 hx
  obtain ⟨before, hbefore, houter, -⟩ := get?_of_get?_define hs
  exact ⟨before, hbefore, houter⟩

theorem pin (h : a.Linked) (id : ScopeId) : (a.pin id).Linked := by
  refine h.of_links (consistent_pin h.consistent id) (fun x scope hs => ?_)
    fun x hx => (issued_pinFrom ..).2 hx
  obtain ⟨before, hbefore, -, houter⟩ := (pinsMore_pin id a).get?_of_get? hs
  exact ⟨before, hbefore, houter⟩

theorem release (h : a.Linked) (id : ScopeId) : (a.release id).Linked :=
  h.of_links (consistent_release h.consistent id)
    (fun _ scope hs => ⟨scope, get?_of_get?_release hs, rfl⟩) fun _ hx => hx.release id

theorem collect (h : a.Linked) (scopes : List ScopeId) (values : List Value) :
    (a.collect scopes values).2.Linked :=
  h.of_links (consistent_collect h.consistent ..)
    (fun _ scope hs => ⟨scope, get?_of_get?_collect h.consistent hs, rfl⟩)
    fun _ hx => hx.collect scopes values

/-- Looking for a name comes to an end, if only at a scope that is gone. -/
theorem lookupFrom_isSome (h : a.Linked) (name : String) (id : ScopeId) :
    ∃ result, a.lookupFrom name (a.live + 1) id = some result := by
  obtain ⟨height, hfalls⟩ := h.grounded
  exact lookupFrom_live_isSome h.consistent hfalls name id

theorem pinned_pin_iff (h : a.Linked) (haround : a.PinnedAround) (id : ScopeId) {x : ScopeId} :
    (a.pin id).Pinned x ↔ a.Pinned x ∨ a.OnChain id x := by
  obtain ⟨height, hfalls⟩ := h.grounded
  exact Arena.pinned_pin_iff h.consistent hfalls haround id

end Linked

namespace PinnedAround

theorem empty : Arena.empty.PinnedAround :=
  fun id scope outer hs => by simp [Arena.empty, get?] at hs

/-- Of the scopes of a store those of another are left. -/
theorem of_subset (h : a.PinnedAround)
    (hsub : ∀ id scope, b.get? id = some scope → a.get? id = some scope) : b.PinnedAround := by
  intro id scope outer hs hp ho holives
  obtain ⟨around, hb⟩ := contains_iff.1 holives
  have ha := hsub outer around hb
  obtain ⟨s, hs', hp'⟩ :=
    h id scope outer (hsub id scope hs) hp ho (contains_iff.2 ⟨around, ha⟩)
  cases ha.symm.trans hs'
  exact ⟨around, hb, hp'⟩

theorem alloc (h : a.PinnedAround) (ha : a.Linked) (outer : Option ScopeId) :
    (a.alloc outer).2.PinnedAround := by
  intro id scope o hs hp ho holives
  have hget := get?_alloc ha.consistent outer
  rw [hget] at hs
  split at hs
  · cases hs
    cases hp
  · -- an old scope does not lie in the new one, whose name had not been issued
    have hold : a.Issued o := ha.issued id scope o hs ho
    have hne : o ≠ (a.alloc outer).1 := by
      rintro rfl
      exact not_issued_alloc ha.consistent outer hold
    rw [contains_alloc ha.consistent] at holives
    obtain ⟨s, hs', hp'⟩ := h id scope o hs hp ho (holives.resolve_left hne)
    exact ⟨s, by rw [hget, if_neg hne, hs'], hp'⟩

theorem define (h : a.PinnedAround) (id : ScopeId) (name : String) (value : Value) :
    (a.define id name value).PinnedAround := by
  intro x scope outer hs hp ho holives
  obtain ⟨before, hbefore, houter, hpinned, -⟩ := get?_of_get?_define hs
  rw [contains_define] at holives
  exact (h x before outer hbefore (hpinned ▸ hp) (houter ▸ ho) holives).define id name value

theorem release (h : a.PinnedAround) (id : ScopeId) : (a.release id).PinnedAround :=
  h.of_subset fun _ _ => get?_of_get?_release

theorem collect (h : a.PinnedAround) (hc : a.Consistent) (scopes : List ScopeId)
    (values : List Value) : (a.collect scopes values).2.PinnedAround :=
  h.of_subset fun _ _ => get?_of_get?_collect hc

end PinnedAround
end Arena
end Treewalk
