import Treewalk.Proofs.Evaluation.Conduct

/-!
Occupied and vacant slots. Whatever operations have run, also midway through a
collection, the count of scopes is the number of occupied slots, and the list of vacant
slots holds each of them once and nothing else. So a new scope never takes the place of
another, no slot is looked for that is not there, and no scope is taken off a count of
none. In an environment, the root scope stays in the first slot, pinned, inside no other.

None of this rests on the generations of slots: it holds as well where these are counted
in a word and start again from zero, so that names of scopes long gone come back.
-/

namespace Treewalk

def Slot.isOccupied (slot : Slot) : Bool :=
  slot.scope.isSome

namespace Arena

/-- A scope lives in the slot. -/
def isOccupied (a : Arena) (i : Nat) : Bool :=
  a.slots[i]?.any Slot.isOccupied

/-- There is such a slot, and no scope lives in it. -/
def isVacant (a : Arena) (i : Nat) : Bool :=
  a.slots[i]?.any fun slot => !slot.isOccupied

/-- Count generations in a word that has so many values. With none it has no bound. -/
def wrap (span : Nat) (a : Arena) : Arena :=
  { a with slots := a.slots.map fun slot => { slot with generation := slot.generation % span } }

/-- The stores that operations make, whatever names they are given. -/
inductive Made (span : Nat) : Arena → Prop where
  | empty : Made span empty
  | operation {a : Arena} (before : Made span a) (op : Operation) : Made span (op.apply a)
  /-- a collection that has gone through the first slots -/
  | sweeping {a : Arena} (before : Made span a) (scopes : List ScopeId) (values : List Value)
      (n : Nat) :
      Made span ((List.range n).foldl (sweepSlot (a.reached scopes values)) (0, a)).2
  | wrapped {a : Arena} (before : Made span a) : Made span (a.wrap span)

/-- The count and the list of vacant slots say what the slots say. -/
structure Exact (a : Arena) : Prop where
  live_eq : a.live = a.slots.countP Slot.isOccupied
  free_count : ∀ i, a.free.count i = if a.isVacant i then 1 else 0

/-- What operations do next does not go wrong. -/
structure Secure (a : Arena) : Prop where
  /-- a scope is made where none lives -/
  alloc_unoccupied : ∀ outer, a.isOccupied (a.alloc outer).1.index = false
  alloc_contains : ∀ outer, (a.alloc outer).2.contains (a.alloc outer).1 = true
  /-- the other slots are not touched -/
  alloc_others : ∀ outer i, i ≠ (a.alloc outer).1.index →
    (a.alloc outer).2.slots[i]? = a.slots[i]?
  /-- the slots that are to be used again are there -/
  free_lt : ∀ i ∈ a.free, i < a.slots.size
  /-- the slots of scopes that live are there -/
  index_lt : ∀ id, a.contains id = true → id.index < a.slots.size
  /-- a collection has a mark for each slot -/
  reached_size : ∀ scopes values, (a.reached scopes values).size = a.slots.size
  /-- freeing scopes leaves the slots that are to be looked at there -/
  vacate_size : ∀ i, (a.vacate i).slots.size = a.slots.size
  /-- where a scope is freed one has been counted -/
  vacate_live : ∀ i, a.isOccupied i = true → 0 < a.live ∧ (a.vacate i).live + 1 = a.live

variable {a : Arena} {i : Nat} {id : ScopeId} {span : Nat}

theorem isOccupied_eq (a : Arena) (i : Nat) :
    a.isOccupied i = (a.slots[i]?.bind Slot.scope).isSome := by
  rw [isOccupied]
  cases a.slots[i]? <;> rfl

theorem isOccupied_iff :
    a.isOccupied i = true ↔ ∃ generation, a.contains ⟨i, generation⟩ = true := by
  rw [isOccupied_eq, occupied_iff]

theorem isVacant_iff :
    a.isVacant i = true ↔ ∃ generation, a.slots[i]? = some ⟨generation, none⟩ := by
  rw [isVacant]
  cases a.slots[i]? with
  | none => simp
  | some slot =>
      obtain ⟨generation, scope⟩ := slot
      cases scope <;> simp [Slot.isOccupied]

/-! The number of scopes that live is that of the occupied slots. -/

theorem countP_range_any {α : Type} (xs : Array α) (p : α → Bool) :
    (List.range xs.size).countP (fun i => xs[i]?.any p) = xs.countP p := by
  have hentries : (List.range xs.size).map (fun i => xs[i]?) = xs.toList.map some := by
    apply List.ext_getElem?
    intro i
    by_cases hi : i < xs.size <;> simp [hi]
  have hcount := congrArg (List.countP (Option.any p)) hentries
  rw [List.countP_map, List.countP_map] at hcount
  exact hcount.trans (Array.countP_toList ..)

theorem card_liveIds (a : Arena) : a.liveIds.card = a.slots.countP Slot.isOccupied := by
  have hnodup : ((List.range a.slots.size).filterMap a.nameAt?).Nodup := by
    refine List.Nodup.filterMap (fun i j id hi hj => ?_) List.nodup_range
    exact (nameAt?_eq_some_iff.1 hi).1.symm.trans (nameAt?_eq_some_iff.1 hj).1
  have hname : ∀ i, (a.nameAt? i).isSome = a.slots[i]?.any Slot.isOccupied := by
    intro i
    rw [nameAt?]
    cases a.slots[i]? with
    | none => rfl
    | some slot =>
        obtain ⟨generation, scope⟩ := slot
        cases scope <;> rfl
  rw [liveIds, List.toFinset_card_of_nodup hnodup, List.length_filterMap_eq_countP]
  simp only [hname]
  exact countP_range_any ..

theorem exact_iff_consistent : a.Exact ↔ a.Consistent := by
  constructor
  · intro h
    have hmem : ∀ i, i ∈ a.free ↔ a.isVacant i = true := by
      intro i
      rw [← List.count_pos_iff, h.free_count]
      split <;> simp_all
    refine ⟨h.live_eq.trans a.card_liveIds.symm, ?_, fun i => (hmem i).trans isVacant_iff⟩
    refine List.nodup_iff_count_le_one.2 fun i => ?_
    rw [h.free_count]
    split <;> omega
  · intro h
    refine ⟨h.live_eq.trans a.card_liveIds, fun i => ?_⟩
    split
    · rename_i hi
      exact List.count_eq_one_of_mem h.free_nodup ((h.mem_free_iff i).2 (isVacant_iff.1 hi))
    · rename_i hi
      exact List.count_eq_zero.2 fun hmem => hi (isVacant_iff.2 ((h.mem_free_iff i).1 hmem))

/-! Counting generations in a word. -/

theorem getElem?_wrap (span : Nat) (a : Arena) (i : Nat) : (a.wrap span).slots[i]? =
    a.slots[i]?.map fun slot => { slot with generation := slot.generation % span } :=
  Array.getElem?_map ..

theorem Exact.wrap (h : a.Exact) (span : Nat) : (a.wrap span).Exact := by
  refine ⟨h.live_eq.trans ?_, fun i => (h.free_count i).trans ?_⟩
  · rw [Arena.wrap, Array.countP_map]
    rfl
  · have hvacant : (a.wrap span).isVacant i = a.isVacant i := by
      rw [isVacant, isVacant, getElem?_wrap, Option.any_map]
      rfl
    rw [hvacant]

theorem get?_wrap {scope : Scope} (hs : a.get? id = some scope)
    (hid : id.generation % span = id.generation) : (a.wrap span).get? id = some scope := by
  rw [get?_eq_some_iff] at hs ⊢
  rw [getElem?_wrap, hs, Option.map_some, hid]

/-! Every store that is made. -/

theorem Made.exact (h : Made span a) : a.Exact := by
  induction h with
  | empty => exact exact_iff_consistent.2 consistent_empty
  | operation _ op ih =>
      exact exact_iff_consistent.2 (consistent_apply (exact_iff_consistent.1 ih) op)
  | sweeping _ scopes values n ih =>
      exact exact_iff_consistent.2 (swept_foldl _ _ (exact_iff_consistent.1 ih)).consistent
  | wrapped _ ih => exact ih.wrap _

theorem secure_of_consistent (h : a.Consistent) : a.Secure where
  alloc_unoccupied outer := by
    rw [← Bool.not_eq_true, isOccupied_iff]
    rintro ⟨generation, hlives⟩
    obtain ⟨s, hs⟩ := contains_iff.1 hlives
    rw [get?_eq_some_iff] at hs
    obtain ⟨-, ha⟩ | ⟨i, rest, generation', -, hvacant, ha⟩ := alloc_cases h outer
    · simp [ha] at hs
    · simp [ha, hvacant] at hs
  alloc_contains outer := (contains_alloc h outer).2 (.inl rfl)
  alloc_others outer i hi := by
    obtain ⟨-, ha⟩ | ⟨j, rest, generation, -, -, ha⟩ := alloc_cases h outer
    · rw [ha] at hi ⊢
      rw [Array.getElem?_push, if_neg hi]
    · rw [ha] at hi ⊢
      rw [Array.getElem?_modify, if_neg (Ne.symm hi)]
  free_lt i hi := by
    obtain ⟨generation, hs⟩ := (h.mem_free_iff i).1 hi
    exact (Array.getElem?_eq_some_iff.1 hs).1
  index_lt id hid := by
    obtain ⟨s, hs⟩ := contains_iff.1 hid
    exact (Array.getElem?_eq_some_iff.1 (get?_eq_some_iff.1 hs)).1
  reached_size scopes values := by
    rw [(search_reached scopes values).size_eq, Array.size_replicate]
  vacate_size i := by
    rw [vacate]
    split
    · exact Array.size_modify ..
    · rfl
  vacate_live i hi := by
    obtain ⟨generation, hlives⟩ := isOccupied_iff.1 hi
    have hpos : 0 < a.live := by
      rw [h.live_eq]
      exact Finset.card_pos.2 ⟨_, mem_liveIds.2 hlives⟩
    have hvacated : (a.vacate i).live = a.live - 1 := congrArg live (vacate_of_contains hlives)
    exact ⟨hpos, by omega⟩

end Arena

namespace Guarded

open Arena (Made)

/-- Count generations in a word that has so many values. -/
def wrap (span : Nat) (g : Guarded) : Guarded :=
  { g with environment := { g.environment with arena := g.arena.wrap span } }

/-- The states that changes, collections and evaluations lead to. -/
inductive Reached (span : Nat) : Guarded → Prop where
  | start : Reached span initial
  | leads {g g' : Guarded} (before : Reached span g) (way : Leads (fun _ _ => True) g g') :
      Reached span g'
  | wrapped {g : Guarded} (before : Reached span g) : Reached span (g.wrap span)

/-- The root scope is there, pinned, and lies in no other. -/
def RootStands (g : Guarded) : Prop :=
  ∃ scope, g.arena.get? g.environment.root = some scope ∧ scope.pinned = true ∧
    scope.outer = none

variable {g : Guarded} {span : Nat}

theorem root_apply (g : Guarded) (c : Environment.Change) :
    (g.apply c).environment.root = g.environment.root := by
  cases c with
  | enterScope outer =>
      rw [apply]
      split
      · rename_i inside h
        rw [Environment.enterLive] at h
        split at h <;> cases h
        rfl
      · rfl
  | leave =>
      rw [apply]
      split <;> rfl
  | enterCall limit =>
      rw [apply]
      split
      · rename_i environment h
        rw [Environment.eq_of_enterCall h]
      · rfl
  | define | enterBlock | capture | exitCall => rfl

/-- A change of an environment is an operation on its store, or none. -/
theorem made_apply (h : Made span g.arena) (c : Environment.Change) :
    Made span (g.apply c).arena := by
  cases g.effect c with
  | entered _ arena_eq => exact arena_eq ▸ h.operation (.alloc _)
  | left _ arena_eq => exact arena_eq ▸ h.operation (.release _)
  | defined name value arena_eq => exact arena_eq ▸ h.operation (.define _ name value)
  | captured arena_eq => exact arena_eq ▸ h.operation (.pin _)
  | untouched arena_eq => exact arena_eq ▸ h

/-- The store is made by operations, and the root scope of the first slot stands. -/
structure Founded (span : Nat) (g : Guarded) : Prop where
  made : Made span g.arena
  root_eq : g.environment.root = ⟨0, 0⟩
  stands : g.RootStands

theorem founded_initial : Founded span initial where
  made := (Made.empty.operation (.alloc none)).operation (.pin ⟨0, 0⟩)
  root_eq := rfl
  stands := ⟨⟨[], none, true⟩, rfl, rfl, rfl⟩

namespace Founded

theorem consistent (h : Founded span g) : g.arena.Consistent :=
  Arena.exact_iff_consistent.1 h.made.exact

theorem of_remains {g' : Guarded} (h : Founded span g) (made : Made span g'.arena)
    (hroot : g'.environment.root = g.environment.root)
    (hremains : g.arena.Remains g'.arena g.environment.root) : Founded span g' := by
  refine ⟨made, hroot.trans h.root_eq, ?_⟩
  obtain ⟨s, hs, hpinned, houter⟩ := h.stands
  obtain ⟨t, ht, houter', hpinned', -⟩ := hremains s hs
  exact ⟨t, hroot ▸ ht, hpinned' hpinned, houter'.trans houter⟩

theorem apply (h : Founded span g) (c : Environment.Change) : Founded span (g.apply c) := by
  obtain ⟨s, hs, hpinned, -⟩ := h.stands
  exact h.of_remains (made_apply h.made c) (root_apply g c)
    (remains_apply h.consistent c ⟨s, hs, hpinned⟩)

theorem collect (h : Founded span g) (values : List Value) : Founded span (g.collect values) := by
  obtain ⟨s, hs, -⟩ := h.stands
  have hreached : g.Reaches values g.environment.root :=
    .root List.mem_cons_self (Arena.contains_iff.2 ⟨s, hs⟩)
  exact h.of_remains (h.made.operation (.collect _ values)) rfl
    (.of_eq (Arena.get?_collect h.consistent hreached))

theorem wrap (h : Founded span g) : Founded span (g.wrap span) := by
  obtain ⟨s, hs, -⟩ := h.stands
  have hfirst : g.environment.root.generation % span = g.environment.root.generation := by
    rw [h.root_eq]
    exact Nat.zero_mod span
  exact h.of_remains h.made.wrapped rfl (.of_eq ((Arena.get?_wrap hs hfirst).trans hs.symm))

end Founded

theorem Reached.founded (h : Reached span g) : Founded span g := by
  induction h with
  | start => exact founded_initial
  | leads _ way ih =>
      exact way.preserves ih (fun _ c hg => hg.apply c) fun _ values hg _ => hg.collect values
  | wrapped _ ih => exact ih.wrap

/-- Whatever operations have run, the books of the store are exact and what operations do
next does not go wrong; so it is in every state of an environment, where moreover the
root scope stands. Generations may be counted in a word of any size. -/
theorem store_exact (span : Nat) :
    (∀ a, Made span a → a.Exact ∧ a.Secure) ∧
    ∀ g, Reached span g → g.arena.Exact ∧ g.arena.Secure ∧ g.RootStands ∧
      g.environment.liveScopes = g.arena.slots.countP Slot.isOccupied := by
  have hmade : ∀ a, Made span a → a.Exact ∧ a.Secure := fun a ha =>
    ⟨ha.exact, Arena.secure_of_consistent (Arena.exact_iff_consistent.1 ha.exact)⟩
  refine ⟨hmade, fun g hg => ?_⟩
  have hfounded := hg.founded
  obtain ⟨hexact, hsecure⟩ := hmade g.arena hfounded.made
  exact ⟨hexact, hsecure, hfounded.stands, hexact.live_eq⟩

/-- With generations of one bit, a block is entered for the third time under the name that it
had the first time. -/
theorem store_exact_wrapped :
    let entered := initial.apply .enterBlock
    let again := ((entered.apply .leave).wrap 2).apply .enterBlock
    let g := ((again.apply .leave).wrap 2).apply .enterBlock
    (entered.current = ⟨1, 0⟩ ∧ again.current = ⟨1, 1⟩ ∧ g.current = ⟨1, 0⟩) ∧
      (g.arena.Exact ∧ g.arena.Secure) ∧ g.RootStands ∧
        g.arena.slots.countP Slot.isOccupied = 2 := by
  intro entered again g
  have step : ∀ {g : Guarded}, Reached 2 g → ∀ c, Reached 2 (g.apply c) :=
    fun hg c => hg.leads (.change .start c)
  have hagain : Reached 2 again := step (step (step .start .enterBlock) .leave).wrapped .enterBlock
  have hg : Reached 2 g := step (step hagain .leave).wrapped .enterBlock
  -- the block is left and its slot vacant, for the first time and for the second
  have hfirst : (entered.apply .leave).wrap 2 = ⟨⟨⟨#[⟨0, some ⟨[], none, true⟩⟩, ⟨1, none⟩],
      [1], 1⟩, ⟨0, 0⟩, ⟨0, 0⟩, 0⟩, []⟩ := by
    show wrap 2 ⟨⟨⟨#[⟨0, some ⟨[], none, true⟩⟩, ⟨1, none⟩], [1], 1⟩, ⟨0, 0⟩, ⟨0, 0⟩, 0⟩, []⟩ = _
    simp [wrap, Arena.wrap, arena]
  have hsecond : (again.apply .leave).wrap 2 = ⟨⟨⟨#[⟨0, some ⟨[], none, true⟩⟩, ⟨0, none⟩],
      [1], 1⟩, ⟨0, 0⟩, ⟨0, 0⟩, 0⟩, []⟩ := by
    simp only [again, hfirst]
    show wrap 2 ⟨⟨⟨#[⟨0, some ⟨[], none, true⟩⟩, ⟨2, none⟩], [1], 1⟩, ⟨0, 0⟩, ⟨0, 0⟩, 0⟩, []⟩ = _
    simp [wrap, Arena.wrap, arena]
  obtain ⟨hstores, hstates⟩ := store_exact 2
  obtain ⟨-, -, hstands, hlive⟩ := hstates g hg
  refine ⟨⟨rfl, ?_, ?_⟩, hstores g.arena hg.founded.made, hstands, ?_⟩
  · simp only [again, hfirst]
    rfl
  · simp only [g, hsecond]
    rfl
  · rw [← hlive]
    simp only [g, hsecond]
    rfl

end Guarded
end Treewalk
