import Mathlib.Data.List.Nodup
import Treewalk.Proofs.Scope.Links
import Treewalk.Scope.Environment

/-!
Names are given once. The name of a new scope has not been issued before, an issued name
stays issued, and no operation revives a scope that is gone: so the names handed out in
the course of operations differ from each other, and the name of a scope that is gone
names nothing for good, however often its slot is used again.

A slot counts the scopes that have been freed in it. As long as no slot has seen 2^32 of
them and there are fewer than 2^32 slots, names differ in their 32-bit words too.
-/

namespace Treewalk

/-- The two 32-bit words in which a name is kept. -/
def ScopeId.words (id : ScopeId) : UInt32 × UInt32 :=
  (.ofNat id.index, .ofNat id.generation)

namespace Arena

/-- The name that an operation hands out: that of the scope it makes. -/
def Operation.handsOut? (a : Arena) : Operation → Option ScopeId
  | alloc outer => some (a.alloc outer).1
  | release _ | pin _ | define _ _ _ | collect _ _ => none

/-- The names handed out in the course of operations, in order. -/
def handedOut (a : Arena) : List Operation → List ScopeId
  | [] => []
  | op :: ops => (op.handsOut? a).toList ++ handedOut (op.apply a) ops

/-- The number of scopes in a slot that one store has and another has not. -/
def goneAt (i : Nat) (a b : Arena) : Nat :=
  ((a.liveIds \ b.liveIds).filter fun id => id.index = i).card

/-- The number of scopes freed in a slot in the course of operations. -/
def freedAt (i : Nat) (a : Arena) : List Operation → Nat
  | [] => 0
  | op :: ops => goneAt i a (op.apply a) + freedAt i (op.apply a) ops

/-- The generation of a slot, the first if there is no such slot yet. -/
def generationAt (a : Arena) (i : Nat) : Nat :=
  (a.slots[i]?.map Slot.generation).getD 0

/-- Through the name nothing is seen and nothing is changed. -/
structure NamesNothing (a : Arena) (id : ScopeId) : Prop where
  contains_eq : a.contains id = false
  get?_eq : a.get? id = none
  lookup_eq : ∀ name, a.lookup id name = .dangling
  enterLive_eq : ∀ env : Environment, env.arena = a → env.enterLive id = .error .danglingScope
  update_eq : ∀ f, a.update id f = a
  pin_eq : a.pin id = a
  release_eq : a.release id = a

variable {a b c : Arena} {id : ScopeId} {i : Nat}

@[simp] theorem run_cons (a : Arena) (op : Operation) (ops : List Operation) :
    a.run (op :: ops) = (op.apply a).run ops := rfl

theorem run_append (a : Arena) (ops later : List Operation) :
    a.run (ops ++ later) = (a.run ops).run later :=
  List.foldl_append ..

/-! A name that names no scope. -/

theorem update_of_gone (h : a.get? id = none) (f : Scope → Scope) : a.update id f = a := by
  have hslots : a.slots.modify id.index (fun slot =>
      if slot.generation = id.generation then { slot with scope := slot.scope.map f }
      else slot) = a.slots := by
    apply Array.ext_getElem?
    intro j
    rw [Array.getElem?_modify]
    split
    · rename_i hj
      subst hj
      rw [get?] at h
      cases hs : a.slots[id.index]? with
      | none => rfl
      | some slot =>
          obtain ⟨generation, scope⟩ := slot
          rw [hs] at h
          by_cases hg : generation = id.generation
          · obtain rfl : scope = none := by simpa [hg] using h
            simp
          · simp [hg]
    · rfl
  rw [update, hslots]

theorem namesNothing_of_gone (h : a.contains id = false) : a.NamesNothing id := by
  have hget : a.get? id = none := by simpa [contains] using h
  refine ⟨h, hget, fun name => ?_, fun env henv => ?_, update_of_gone hget, ?_, ?_⟩
  · rw [lookup, lookupFrom_gone hget]
    rfl
  · rw [Environment.enterLive, henv, h]
    rfl
  · rw [pin, pinFrom, hget]
  · rw [release, hget]

/-! Names that have been issued. -/

theorem Issued.apply (hid : a.Issued id) (hc : a.Consistent) (op : Operation) :
    (op.apply a).Issued id := by
  cases op with
  | alloc outer => exact hid.alloc hc outer
  | release other => exact hid.release other
  | pin other => exact (issued_pinFrom ..).2 hid
  | define other name value => exact (issued_update ..).2 hid
  | collect scopes values => exact hid.collect scopes values

/-- No operation revives a scope that is gone. -/
theorem Issued.gone_apply (hid : a.Issued id) (hc : a.Consistent) (hgone : a.contains id = false)
    (op : Operation) : (op.apply a).contains id = false := by
  rw [← Bool.not_eq_true] at hgone ⊢
  intro hlives
  apply hgone
  cases op with
  | alloc outer =>
      refine ((contains_alloc hc outer).1 hlives).resolve_left ?_
      rintro rfl
      exact not_issued_alloc hc outer hid
  | release other =>
      obtain ⟨scope, hs⟩ := contains_iff.1 hlives
      exact contains_iff.2 ⟨scope, get?_of_get?_release hs⟩
  | pin other => exact (contains_pin ..).symm.trans hlives
  | define other name value => exact (contains_define ..).symm.trans hlives
  | collect scopes values => exact ((contains_collect_iff hc scopes values id).1 hlives).lives

theorem Issued.run (hid : a.Issued id) (hc : a.Consistent) (ops : List Operation) :
    (a.run ops).Issued id := by
  induction ops generalizing a with
  | nil => exact hid
  | cons op ops ih => exact ih (hid.apply hc op) (consistent_apply hc op)

theorem Issued.gone_run (hid : a.Issued id) (hc : a.Consistent) (hgone : a.contains id = false)
    (ops : List Operation) : (a.run ops).contains id = false := by
  induction ops generalizing a with
  | nil => exact hgone
  | cons op ops ih =>
      exact ih (hid.apply hc op) (consistent_apply hc op) (hid.gone_apply hc hgone op)

/-- What an operation hands out was not issued before it and is after it. -/
theorem issued_of_handsOut (hc : a.Consistent) {op : Operation} (h : op.handsOut? a = some id) :
    ¬ a.Issued id ∧ (op.apply a).Issued id := by
  cases op with
  | alloc outer =>
      cases h
      exact ⟨not_issued_alloc hc outer, .of_lives ((contains_alloc hc outer).2 (.inl rfl))⟩
  | release | pin | define | collect => cases h

theorem issued_of_mem_handedOut (hc : a.Consistent) {ops : List Operation}
    (h : id ∈ a.handedOut ops) : ¬ a.Issued id ∧ (a.run ops).Issued id := by
  induction ops generalizing a with
  | nil => cases h
  | cons op ops ih =>
      have hc' := consistent_apply hc op
      obtain h | h := List.mem_append.1 h
      · obtain ⟨hnew, hissued⟩ := issued_of_handsOut hc (Option.mem_toList.1 h)
        exact ⟨hnew, hissued.run hc' ops⟩
      · obtain ⟨hnew, hissued⟩ := ih hc' h
        exact ⟨fun hid => hnew (hid.apply hc op), hissued⟩

theorem nodup_handedOut (hc : a.Consistent) (ops : List Operation) : (a.handedOut ops).Nodup := by
  induction ops generalizing a with
  | nil => exact List.nodup_nil
  | cons op ops ih =>
      have hc' := consistent_apply hc op
      refine List.nodup_append'.2 ⟨?_, ih hc', fun id hfirst hlater => ?_⟩
      · cases op.handsOut? a with
        | none => exact List.nodup_nil
        | some id => exact List.nodup_singleton id
      · obtain ⟨-, hissued⟩ := issued_of_handsOut hc (Option.mem_toList.1 hfirst)
        exact (issued_of_mem_handedOut hc' hlater).1 hissued

/-! Slots count the scopes freed in them. -/

theorem goneAt_of_subset (h : a.liveIds ⊆ b.liveIds) : goneAt i a b = 0 := by
  rw [goneAt, Finset.sdiff_eq_empty_iff_subset.2 h]
  rfl

theorem goneAt_trans (hba : b.liveIds ⊆ a.liveIds) (hcb : c.liveIds ⊆ b.liveIds) :
    goneAt i a c = goneAt i a b + goneAt i b c := by
  have hsplit : a.liveIds \ c.liveIds = (a.liveIds \ b.liveIds) ∪ (b.liveIds \ c.liveIds) :=
    (Finset.sdiff_union_sdiff_cancel hba hcb).symm
  rw [goneAt, hsplit, Finset.filter_union, Finset.card_union_of_disjoint]
  · rfl
  · refine Finset.disjoint_filter_filter ?_
    exact Finset.disjoint_of_subset_right Finset.sdiff_subset Finset.sdiff_disjoint

/-- One store comes from another by freeing scopes, and its slots have counted them. -/
structure Freed (a b : Arena) : Prop where
  subset : b.liveIds ⊆ a.liveIds
  generationAt_eq : ∀ i, b.generationAt i = a.generationAt i + goneAt i a b

theorem Freed.refl (a : Arena) : a.Freed a :=
  ⟨Finset.Subset.refl _, fun _ => by rw [goneAt_of_subset (Finset.Subset.refl _), Nat.add_zero]⟩

theorem Freed.trans (h : a.Freed b) (k : b.Freed c) : a.Freed c := by
  refine ⟨k.subset.trans h.subset, fun i => ?_⟩
  rw [k.generationAt_eq, h.generationAt_eq, goneAt_trans h.subset k.subset, Nat.add_assoc]

theorem freed_vacate (a : Arena) (j : Nat) : a.Freed (a.vacate j) := by
  by_cases ho : (a.slots[j]?.bind Slot.scope).isSome = true
  · obtain ⟨generation, hlives⟩ := occupied_iff.1 ho
    have hids := liveIds_vacate hlives
    have hgone : a.liveIds \ (a.vacate j).liveIds = {⟨j, generation⟩} := by
      rw [hids, Finset.sdiff_erase_self (mem_liveIds.2 hlives)]
    refine ⟨by rw [hids]; exact Finset.erase_subset _ _, fun i => ?_⟩
    obtain ⟨scope, hs⟩ := contains_iff.1 hlives
    rw [get?_eq_some_iff] at hs
    dsimp only at hs
    rw [goneAt, hgone, Finset.filter_singleton, vacate, if_pos ho, generationAt, generationAt,
      Array.getElem?_modify]
    by_cases hj : j = i
    · subst hj
      simp [hs]
    · simp [hj]
  · rw [vacate, if_neg ho]
    exact .refl a

theorem freed_release (a : Arena) (id : ScopeId) : a.Freed (a.release id) := by
  rw [release]
  split
  · split
    · exact .refl a
    · exact freed_vacate a _
  · exact .refl a

theorem freed_sweep (marked : Array Bool) (slots : List Nat) (n : Nat) (a : Arena) :
    a.Freed (slots.foldl (sweepSlot marked) (n, a)).2 := by
  induction slots generalizing n a with
  | nil => exact .refl a
  | cons j slots ih =>
      rw [List.foldl_cons, sweepSlot]
      split
      · exact ih n a
      · split
        · exact (freed_vacate a j).trans (ih (n + 1) _)
        · exact ih n a

theorem generationAt_alloc (hc : a.Consistent) (outer : Option ScopeId) (i : Nat) :
    (a.alloc outer).2.generationAt i = a.generationAt i := by
  obtain ⟨-, ha⟩ | ⟨j, rest, generation, -, -, ha⟩ := alloc_cases hc outer
  · rw [ha, generationAt, generationAt, Array.getElem?_push]
    split
    · rename_i hi
      simp [hi]
    · rfl
  · rw [ha, generationAt, generationAt, Array.getElem?_modify]
    split
    · rw [Option.map_map]
      rfl
    · rfl

theorem generationAt_update (a : Arena) (id : ScopeId) (f : Scope → Scope) (i : Nat) :
    (a.update id f).generationAt i = a.generationAt i := by
  rw [update, generationAt, generationAt, Array.getElem?_modify]
  split
  · rw [Option.map_map]
    congr 2
    funext slot
    dsimp only [Function.comp]
    split <;> rfl
  · rfl

theorem generationAt_pinFrom (n : Nat) (id : ScopeId) (a : Arena) (i : Nat) :
    (pinFrom n id a).generationAt i = a.generationAt i := by
  induction n generalizing id a with
  | zero => rfl
  | succ n ih =>
      rw [pinFrom]
      split
      · rfl
      · split
        · rfl
        · dsimp only
          split
          · exact generationAt_update ..
          · rw [ih, generationAt_update]

theorem generationAt_eq_of_subset (hsub : a.liveIds ⊆ b.liveIds)
    (h : b.generationAt i = a.generationAt i) :
    b.generationAt i = a.generationAt i + goneAt i a b := by
  rw [goneAt_of_subset hsub, h, Nat.add_zero]

/-- An operation adds to the generation of a slot the scopes that it frees there. -/
theorem generationAt_apply (hc : a.Consistent) (op : Operation) (i : Nat) :
    (op.apply a).generationAt i = a.generationAt i + goneAt i a (op.apply a) := by
  cases op with
  | alloc outer =>
      refine generationAt_eq_of_subset ?_ (generationAt_alloc hc outer i)
      rw [Operation.apply, liveIds_alloc hc]
      exact Finset.subset_insert _ _
  | release id => exact (freed_release a id).generationAt_eq i
  | pin id =>
      refine generationAt_eq_of_subset ?_ (generationAt_pinFrom _ id a i)
      exact (liveIds_eq_of_contains fun x => (contains_pin id x a).symm).subset
  | define id name value =>
      refine generationAt_eq_of_subset ?_ (generationAt_update a id _ i)
      exact (liveIds_eq_of_contains fun x => (contains_define id x name value a).symm).subset
  | collect scopes values => exact (freed_sweep _ _ 0 a).generationAt_eq i

theorem generationAt_run (hc : a.Consistent) (ops : List Operation) (i : Nat) :
    (a.run ops).generationAt i = a.generationAt i + a.freedAt i ops := by
  induction ops generalizing a with
  | nil => rfl
  | cons op ops ih =>
      rw [run_cons, ih (consistent_apply hc op), generationAt_apply hc, freedAt, Nat.add_assoc]

/-- An issued name is that of a slot, and of no later generation than that of the slot. -/
theorem Issued.bounds (hid : a.Issued id) :
    id.index < a.slots.size ∧ id.generation ≤ a.generationAt id.index := by
  obtain hlives | ⟨slot, hs, hlt⟩ := hid
  · obtain ⟨scope, hs⟩ := contains_iff.1 hlives
    rw [get?_eq_some_iff] at hs
    refine ⟨(Array.getElem?_eq_some_iff.1 hs).1, ?_⟩
    rw [generationAt, hs]
    exact Nat.le_refl _
  · refine ⟨(Array.getElem?_eq_some_iff.1 hs).1, ?_⟩
    rw [generationAt, hs]
    exact Nat.le_of_lt hlt

theorem eq_of_words {x y : ScopeId} (hx : x.index < UInt32.size ∧ x.generation < UInt32.size)
    (hy : y.index < UInt32.size ∧ y.generation < UInt32.size) (h : x.words = y.words) : x = y := by
  obtain ⟨j, g⟩ := x
  obtain ⟨k, l⟩ := y
  obtain ⟨hindex, hgeneration⟩ := Prod.mk.inj h
  rw [← UInt32.toNat_inj, UInt32.toNat_ofNat', UInt32.toNat_ofNat'] at hindex hgeneration
  rw [Nat.mod_eq_of_lt hx.1, Nat.mod_eq_of_lt hy.1] at hindex
  rw [Nat.mod_eq_of_lt hx.2, Nat.mod_eq_of_lt hy.2] at hgeneration
  exact congrArg₂ ScopeId.mk hindex hgeneration

/-- The names handed out in the course of operations differ from each other, in their
words too where these have room for them; and a name whose scope is gone names nothing for
good, whatever operations follow. -/
theorem names_never_alias (ops : List Operation) :
    (empty.handedOut ops).Nodup ∧
    (∀ id ∈ empty.handedOut ops, (empty.run ops).contains id = false →
      ∀ later, (empty.run (ops ++ later)).NamesNothing id) ∧
    ((∀ i, empty.freedAt i ops < UInt32.size) → (empty.run ops).slots.size < UInt32.size →
      ((empty.handedOut ops).map ScopeId.words).Nodup) := by
  have hc := consistent_run consistent_empty ops
  have hissued : ∀ id ∈ empty.handedOut ops, (empty.run ops).Issued id :=
    fun id hid => (issued_of_mem_handedOut consistent_empty hid).2
  refine ⟨nodup_handedOut consistent_empty ops, fun id hid hgone later => ?_,
    fun hfreed hsize => ?_⟩
  · rw [run_append]
    exact namesNothing_of_gone ((hissued id hid).gone_run hc hgone later)
  · have hroom : ∀ id ∈ empty.handedOut ops,
        id.index < UInt32.size ∧ id.generation < UInt32.size := by
      intro id hid
      obtain ⟨hindex, hgeneration⟩ := (hissued id hid).bounds
      have hcount : (empty.run ops).generationAt id.index = empty.freedAt id.index ops :=
        (generationAt_run consistent_empty ops id.index).trans (Nat.zero_add _)
      rw [hcount] at hgeneration
      exact ⟨hindex.trans hsize, hgeneration.trans_lt (hfreed id.index)⟩
    refine (nodup_handedOut consistent_empty ops).map_on fun x hx y hy => ?_
    exact eq_of_words (hroom x hx) (hroom y hy)

/-- A scope is freed and its slot used again: the new scope has another name, and the old
name names nothing. -/
theorem names_never_alias_reused :
    let ops : List Operation := [.alloc none, .release ⟨0, 0⟩, .alloc none]
    (empty.handedOut ops = [⟨0, 0⟩, ⟨0, 1⟩] ∧ (empty.run ops).contains ⟨0, 1⟩ = true) ∧
      (empty.handedOut ops).Nodup ∧ (empty.run ops).NamesNothing ⟨0, 0⟩ ∧
      ((empty.handedOut ops).map ScopeId.words).Nodup := by
  intro ops
  obtain ⟨-, hnothing, -⟩ := names_never_alias [.alloc none, .release ⟨0, 0⟩]
  obtain ⟨hnodup, -, hwords⟩ := names_never_alias ops
  have hfreed : ∀ i, empty.freedAt i ops < UInt32.size := fun i => by
    have hcount := generationAt_run consistent_empty ops i
    have hgeneration : (empty.run ops).generationAt i ≤ 1 := by
      cases i with
      | zero => decide
      | succ i => exact Nat.zero_le 1
    have hstart : empty.generationAt i = 0 := rfl
    have hroom : 1 < UInt32.size := by decide
    omega
  refine ⟨⟨by decide, by decide⟩, hnodup, ?_, hwords hfreed (by decide)⟩
  exact hnothing ⟨0, 0⟩ (by decide) (by decide) [.alloc none]

end Arena
end Treewalk
