import Mathlib.Data.Finmap
import Mathlib.Data.Finset.Sort
import Mathlib.Data.String.Basic
import Treewalk.Proofs.Evaluation.Occupancy

/-!
Blocks as a stack of maps. Where scopes are entered as blocks only, the environment
answers as if it had nothing but a map for each open block, the innermost on top. Scopes
that outlive their blocks, slots that are used again and collections amid open blocks make
no difference: the links from the current scope lead through the open blocks, in their
order, and none of these is freed before it is left.
-/

namespace Treewalk

/-- Names and what they are bound to. -/
abbrev Frame := Finmap fun _ : String => Value

/-- The maps of the open blocks, and that of the root below them. -/
structure Blocks where
  top : Frame
  below : List Frame

namespace Blocks

/-- What is done to an environment by one who enters blocks only. -/
inductive Step where
  | define (name : String) (value : Value)
  | enter
  /-- leave the block entered last; with none open nothing is done -/
  | leave
  | capture
  | collect (values : List Value)

def initial : Blocks :=
  ⟨∅, []⟩

def apply (b : Blocks) : Step → Blocks
  | .define name value => { b with top := b.top.insert name value }
  | .enter => ⟨∅, b.top :: b.below⟩
  | .leave =>
      match b.below with
      | [] => b
      | top :: below => ⟨top, below⟩
  | .capture | .collect _ => b

def run (b : Blocks) (steps : List Step) : Blocks :=
  steps.foldl apply b

/-- What the innermost map that binds the name binds it to. -/
def lookup (name : String) (b : Blocks) : Option Value :=
  (b.top :: b.below).findSome? fun frame => frame.lookup name

/-- The environment answers as the stack of maps does. -/
structure Answers (env : Environment) (b : Blocks) : Prop where
  get?_eq : ∀ name, env.get? name = b.lookup name
  /-- a scope that is gone is not met -/
  resolve_eq : ∀ name, env.resolve name = .ok (b.lookup name)
  contains_eq : ∀ name, env.contains name = (b.lookup name).isSome
  containsHere_eq : ∀ name, env.containsHere name = decide (name ∈ b.top)
  namesHere_eq : env.namesHere = b.top.keys.sort

end Blocks

namespace Entries

/-- The entries are those of the map. -/
structure Shows (entries : Entries String Value) (frame : Frame) : Prop where
  lookup_eq : ∀ name, frame.lookup name = entries.get? name
  nodup : entries.keys.Nodup

variable {entries : Entries String Value} {frame : Frame}

theorem shows_empty : Shows [] ∅ :=
  ⟨fun name => Finmap.lookup_empty name, List.nodup_nil⟩

theorem Shows.put (h : entries.Shows frame) (name : String) (value : Value) :
    (entries.put name value).Shows (frame.insert name value) := by
  refine ⟨fun other => ?_, ?_⟩
  · by_cases hname : other = name
    · rw [hname, Finmap.lookup_insert, get?_put_self]
    · rw [Finmap.lookup_insert_of_ne _ hname, get?_put_of_ne hname, h.lookup_eq]
  · rw [keys_put]
    split
    · exact h.nodup
    · rename_i hnew
      exact List.nodup_append.2 ⟨h.nodup, List.nodup_singleton name, fun a ha b hb e =>
        hnew (List.mem_singleton.1 hb ▸ e ▸ ha)⟩

theorem Shows.mem_iff (h : entries.Shows frame) (name : String) :
    name ∈ frame ↔ name ∈ entries.keys := by
  rw [← not_iff_not, ← get?_eq_none_iff, ← h.lookup_eq, Finmap.lookup_eq_none]

theorem pairwise_le_mergeSort (names : List String) :
    (names.mergeSort fun a b => !decide (b < a)).Pairwise (· ≤ ·) := by
  have hle : ∀ a b : String, (!decide (b < a)) = true ↔ a ≤ b := fun a b => by
    rw [Bool.not_eq_true', decide_eq_false_iff_not, not_lt]
  refine List.Pairwise.imp (fun {a b} => (hle a b).1) (List.pairwise_mergeSort ?_ ?_ _)
  · intro a b c hab hbc
    rw [hle] at hab hbc ⊢
    exact hab.trans hbc
  · intro a b
    rw [Bool.or_eq_true, hle, hle]
    exact le_total a b

theorem Shows.sort_keys (h : entries.Shows frame) :
    frame.keys.sort = entries.keys.mergeSort fun a b => !decide (b < a) := by
  have hnodup : (entries.keys.mergeSort fun a b => !decide (b < a)).Nodup :=
    (List.mergeSort_perm ..).nodup_iff.2 h.nodup
  have hkeys : frame.keys = (entries.keys.mergeSort fun a b => !decide (b < a)).toFinset := by
    ext name
    rw [List.mem_toFinset, List.mem_mergeSort, Finmap.mem_keys, h.mem_iff]
  rw [hkeys]
  exact (List.toFinset_sort (· ≤ ·) hnodup).2 (pairwise_le_mergeSort _)

end Entries

/-- What looking for a name comes to where no scope is gone. -/
def Lookup.ofOption : Option Value → Lookup
  | some value => .found value
  | none => .unbound

namespace Arena

/-- The links lead from the first scope through the others to a scope that lies in none, and
the maps show what is bound in them. -/
inductive Stacked (a : Arena) : ScopeId → List ScopeId → Frame → List Frame → Prop where
  | outermost {id : ScopeId} {scope : Scope} {frame : Frame} (found : a.get? id = some scope)
      (link : scope.outer = none) (bound : scope.bindings.Shows frame) :
      Stacked a id [] frame []
  | inside {id outer : ScopeId} {scope : Scope} {ids : List ScopeId} {frame next : Frame}
      {frames : List Frame} (found : a.get? id = some scope) (link : scope.outer = some outer)
      (bound : scope.bindings.Shows frame) (around : Stacked a outer ids next frames) :
      Stacked a id (outer :: ids) frame (next :: frames)

/-- The scope has its place and its bindings still. -/
def Unmoved (a b : Arena) (id : ScopeId) : Prop :=
  ∀ scope, a.get? id = some scope → ∃ scope', b.get? id = some scope' ∧
    scope'.outer = scope.outer ∧ scope'.bindings = scope.bindings

variable {a b : Arena} {id : ScopeId} {ids : List ScopeId} {frame : Frame} {frames : List Frame}

theorem Unmoved.of_eq (h : b.get? id = a.get? id) : a.Unmoved b id :=
  fun scope hs => ⟨scope, h.trans hs, rfl, rfl⟩

theorem PinsMore.unmoved (h : a.PinsMore b) (id : ScopeId) : a.Unmoved b id := by
  intro scope hs
  obtain ⟨p, hp⟩ := h id
  exact ⟨raisePin p scope, by rw [hp, hs]; rfl, rfl, rfl⟩

namespace Stacked

theorem top (h : a.Stacked id ids frame frames) :
    ∃ scope, a.get? id = some scope ∧ scope.bindings.Shows frame := by
  cases h with
  | outermost found _ bound | inside found _ bound _ => exact ⟨_, found, bound⟩

theorem lives (h : a.Stacked id ids frame frames) : ∀ x ∈ id :: ids, a.contains x = true := by
  induction h with
  | outermost found => simpa using contains_iff.2 ⟨_, found⟩
  | inside found _ _ _ ih => exact List.forall_mem_cons.2 ⟨contains_iff.2 ⟨_, found⟩, ih⟩

theorem of_unmoved (h : a.Stacked id ids frame frames) (hids : ∀ x ∈ id :: ids, a.Unmoved b x) :
    b.Stacked id ids frame frames := by
  induction h with
  | outermost found link bound =>
      obtain ⟨scope, hs, houter, hbindings⟩ := hids _ List.mem_cons_self _ found
      exact .outermost hs (houter.trans link) (hbindings ▸ bound)
  | inside found link bound _ ih =>
      obtain ⟨scope, hs, houter, hbindings⟩ := hids _ List.mem_cons_self _ found
      exact .inside hs (houter.trans link) (hbindings ▸ bound)
        (ih fun x hx => hids x (List.mem_cons_of_mem _ hx))

/-- Binding a name in the first scope puts it into the topmost map. -/
theorem define (h : a.Stacked id ids frame frames) (hnot : id ∉ ids) (name : String)
    (value : Value) : (a.define id name value).Stacked id ids (frame.insert name value) frames := by
  have hfirst := get?_define id id name value a
  rw [if_pos rfl] at hfirst
  have hothers : ∀ x ∈ ids, a.Unmoved (a.define id name value) x := fun x hx =>
    .of_eq (by rw [get?_define, if_neg (ne_of_mem_of_not_mem hx hnot)])
  cases h with
  | outermost found link bound =>
      rw [found, Option.map_some] at hfirst
      exact .outermost hfirst link (bound.put name value)
  | inside found link bound around =>
      rw [found, Option.map_some] at hfirst
      exact .inside hfirst link (bound.put name value) (around.of_unmoved hothers)

theorem onChain (h : a.Stacked id ids frame frames) : ∀ x ∈ id :: ids, a.OnChain id x := by
  induction h with
  | outermost found => simpa using OnChain.self (contains_iff.2 ⟨_, found⟩)
  | inside found link _ _ ih =>
      refine List.forall_mem_cons.2 ⟨.self (contains_iff.2 ⟨_, found⟩), fun x hx => ?_⟩
      exact (onChain_iff found).2 (.inr ⟨_, link, ih x hx⟩)

/-- Scopes that live and differ are no more than the scopes that live. -/
theorem length_le (h : a.Stacked id ids frame frames) (hc : a.Consistent)
    (hnodup : (id :: ids).Nodup) : (id :: ids).length ≤ a.live := by
  rw [hc.live_eq, ← List.toFinset_card_of_nodup hnodup]
  exact Finset.card_le_card fun x hx => mem_liveIds.2 (h.lives x (List.mem_toFinset.1 hx))

theorem lookupFrom_eq (h : a.Stacked id ids frame frames) (name : String) {n : Nat}
    (hn : (id :: ids).length ≤ n) : a.lookupFrom name n id =
      some (.ofOption ((frame :: frames).findSome? fun frame => frame.lookup name)) := by
  induction h generalizing n with
  | @outermost id scope frame found link bound =>
      obtain ⟨m, rfl⟩ := Nat.exists_eq_succ_of_ne_zero (Nat.ne_of_gt hn)
      rw [List.findSome?_cons, bound.lookup_eq]
      cases hv : scope.bindings.get? name with
      | some value => exact lookupFrom_bound found hv
      | none => exact lookupFrom_outermost found hv link
  | @inside id outer scope ids frame next frames found link bound _ ih =>
      obtain ⟨m, rfl⟩ := Nat.exists_eq_succ_of_ne_zero (Nat.ne_of_gt (Nat.zero_lt_of_lt hn))
      rw [List.findSome?_cons, bound.lookup_eq]
      cases hv : scope.bindings.get? name with
      | some value => exact lookupFrom_bound found hv
      | none =>
          rw [lookupFrom_outward found hv link]
          exact ih (Nat.le_of_succ_le_succ hn)

end Stacked
end Arena

namespace Guarded

open Blocks (Answers Step)

/-- The current scope and those to come back to are the open blocks, with the root below
them. -/
structure Shows (g : Guarded) (b : Blocks) : Prop where
  consistent : g.arena.Consistent
  stacked : g.arena.Stacked g.current g.suspended b.top b.below
  nodup : (g.current :: g.suspended).Nodup

variable {g : Guarded} {b : Blocks} {span : Nat}

theorem Shows.lookup_eq (h : g.Shows b) (name : String) :
    g.environment.arena.lookup g.environment.current name = .ofOption (b.lookup name) := by
  have hlength := h.stacked.length_le h.consistent h.nodup
  have hlookup := h.stacked.lookupFrom_eq name (Nat.le_succ_of_le hlength)
  exact congrArg (Option.getD · .unbound) hlookup

theorem Shows.bindings (h : g.Shows b) : g.environment.currentBindings.Shows b.top := by
  obtain ⟨scope, hs, hbound⟩ := h.stacked.top
  have hcurrent : g.environment.arena.get? g.environment.current = some scope := hs
  rw [Environment.currentBindings, hcurrent]
  exact hbound

theorem Shows.answers (h : g.Shows b) : Answers g.environment b := by
  have hget : ∀ name, g.environment.get? name = b.lookup name := by
    intro name
    rw [Environment.get?, h.lookup_eq]
    cases b.lookup name <;> rfl
  refine ⟨hget, fun name => ?_, fun name => ?_, fun name => ?_, ?_⟩
  · rw [Environment.resolve, h.lookup_eq]
    cases b.lookup name <;> rfl
  · rw [Environment.contains, hget]
  · rw [Environment.containsHere, ← h.bindings.lookup_eq]
    exact Bool.eq_iff_iff.2 (Finmap.lookup_isSome.trans decide_eq_true_iff.symm)
  · rw [Environment.namesHere, h.bindings.sort_keys]

/-- What a step does, before generations are brought back into their word. -/
def takeUnbounded (g : Guarded) : Step → Guarded
  | .define name value => g.apply (.define name value)
  | .enter => g.apply .enterBlock
  | .leave => g.apply .leave
  | .capture => g.apply .capture
  | .collect values => g.collect values

/-- What a step does, with generations counted in a word that has so many values. -/
def take (span : Nat) (g : Guarded) (s : Step) : Guarded :=
  (g.takeUnbounded s).wrap span

def takeAll (span : Nat) (g : Guarded) (steps : List Step) : Guarded :=
  steps.foldl (take span) g

theorem Shows.define (h : g.Shows b) (name : String) (value : Value) :
    (g.apply (.define name value)).Shows (b.apply (.define name value)) where
  consistent := Arena.consistent_define h.consistent ..
  stacked := h.stacked.define (List.nodup_cons.1 h.nodup).1 name value
  nodup := h.nodup

theorem Shows.enter (h : g.Shows b) : (g.apply .enterBlock).Shows (b.apply .enter) := by
  have hnew : (g.arena.alloc (some g.current)).1 ∉ g.current :: g.suspended := fun hmem =>
    Arena.not_issued_alloc h.consistent _ (.of_lives (h.stacked.lives _ hmem))
  have hget := Arena.get?_alloc h.consistent (some g.current)
  have hfound := (hget (g.arena.alloc (some g.current)).1).trans (if_pos rfl)
  refine ⟨Arena.consistent_alloc h.consistent _, ?_, List.nodup_cons.2 ⟨hnew, h.nodup⟩⟩
  refine .inside hfound rfl Entries.shows_empty (h.stacked.of_unmoved fun x hx => .of_eq ?_)
  exact (hget x).trans (if_neg (ne_of_mem_of_not_mem hx hnew))

theorem Shows.leave (h : g.Shows b) : (g.apply .leave).Shows (b.apply .leave) := by
  obtain ⟨environment, suspended⟩ := g
  obtain ⟨top, below⟩ := b
  obtain ⟨hconsistent, hstacked, hnodup⟩ := h
  cases hstacked with
  | outermost found link bound => exact ⟨hconsistent, .outermost found link bound, hnodup⟩
  | @inside _ outer _ ids _ next frames found link bound around =>
      obtain ⟨hnot, hrest⟩ := List.nodup_cons.1 hnodup
      refine ⟨Arena.consistent_release hconsistent _,
        around.of_unmoved fun x hx => .of_eq ?_, hrest⟩
      exact (Arena.get?_release ..).trans (if_neg fun e => ne_of_mem_of_not_mem hx hnot e.1)

theorem Shows.capture (h : g.Shows b) : (g.apply .capture).Shows b where
  consistent := Arena.consistent_pin h.consistent _
  stacked := h.stacked.of_unmoved fun x _ => (Arena.pinsMore_pin _ _).unmoved x
  nodup := h.nodup

/-- The scopes of open blocks are around the current one, from which collections start. -/
theorem Shows.collect (h : g.Shows b) (values : List Value) : (g.collect values).Shows b where
  consistent := Arena.consistent_collect h.consistent ..
  stacked := h.stacked.of_unmoved fun x hx => by
    have hcurrent : g.Reaches values g.current :=
      .root (List.mem_cons_of_mem _ List.mem_cons_self) (h.stacked.lives _ List.mem_cons_self)
    exact .of_eq (Arena.get?_collect h.consistent (hcurrent.onChain (h.stacked.onChain x hx)))
  nodup := h.nodup

theorem Shows.takeUnbounded (h : g.Shows b) (s : Step) :
    (g.takeUnbounded s).Shows (b.apply s) := by
  cases s with
  | define name value => exact h.define name value
  | enter => exact h.enter
  | leave => exact h.leave
  | capture => exact h.capture
  | collect values => exact h.collect values

/-! Generations in a word. -/

/-- The state shows the stack of maps, and the generation of each slot is one of its word. -/
structure Fitted (span : Nat) (g : Guarded) (b : Blocks) : Prop where
  shows_maps : g.Shows b
  fits : ∀ (i : Nat) (slot : Slot), g.arena.slots[i]? = some slot →
    slot.generation % span = slot.generation

theorem fitted_initial (span : Nat) : initial.Fitted span .initial where
  shows_maps := ⟨(founded_initial : initial.Founded span).consistent,
    .outermost rfl rfl Entries.shows_empty, by decide⟩
  fits i slot hs := by
    cases i with
    | zero =>
        cases hs
        exact Nat.zero_mod span
    | succ i => cases hs

theorem Shows.wrap (h : g.Shows b) (hfits : ∀ id ∈ g.current :: g.suspended,
    id.generation % span = id.generation) : (g.wrap span).Shows b where
  consistent :=
    Arena.exact_iff_consistent.1 ((Arena.exact_iff_consistent.2 h.consistent).wrap span)
  stacked := h.stacked.of_unmoved fun x hx scope hs =>
    ⟨scope, Arena.get?_wrap hs (hfits x hx), rfl, rfl⟩
  nodup := h.nodup

namespace Fitted

theorem generation_of_lives (h : g.Fitted span b) {id : ScopeId}
    (hlives : g.arena.contains id = true) : id.generation % span = id.generation := by
  obtain ⟨scope, hs⟩ := Arena.contains_iff.1 hlives
  exact h.fits _ _ (Arena.get?_eq_some_iff.1 hs)

theorem generation_alloc (h : g.Fitted span b) (outer : Option ScopeId) :
    (g.arena.alloc outer).1.generation % span = (g.arena.alloc outer).1.generation := by
  obtain ⟨-, ha⟩ | ⟨i, rest, generation, -, hs, ha⟩ :=
    Arena.alloc_cases h.shows_maps.consistent outer
  · rw [ha]
    exact Nat.zero_mod span
  · rw [ha]
    exact h.fits i _ hs

/-- No open block has a name that is counted on beyond its word. -/
theorem generation_takeUnbounded (h : g.Fitted span b) (s : Step) :
    ∀ id ∈ (g.takeUnbounded s).current :: (g.takeUnbounded s).suspended,
      id.generation % span = id.generation := by
  have hopen : ∀ id ∈ g.current :: g.suspended, id.generation % span = id.generation :=
    fun id hid => h.generation_of_lives (h.shows_maps.stacked.lives id hid)
  cases s with
  | define | capture | collect => exact hopen
  | enter => exact List.forall_mem_cons.2 ⟨h.generation_alloc _, hopen⟩
  | leave =>
      rw [takeUnbounded, Guarded.apply]
      split
      · rename_i previous suspended hs
        exact fun id hid => hopen id (List.mem_cons_of_mem _ (hs ▸ hid))
      · exact hopen

theorem take (h : g.Fitted span b) (s : Step) : (g.take span s).Fitted span (b.apply s) where
  shows_maps := (h.shows_maps.takeUnbounded s).wrap (h.generation_takeUnbounded s)
  fits i slot hs := by
    obtain ⟨before, -, rfl⟩ := Option.map_eq_some_iff.1 ((Arena.getElem?_wrap ..).symm.trans hs)
    exact Nat.mod_mod ..

theorem takeAll (h : g.Fitted span b) (steps : List Step) :
    (g.takeAll span steps).Fitted span (b.run steps) := by
  induction steps generalizing g b with
  | nil => exact h
  | cons s steps ih => exact ih (h.take s)

end Fitted

/-- Whatever is bound, captured and collected, and however blocks are entered and left, the
environment answers as a stack of maps does, and no scope that is gone is ever met.
Generations may be counted in a word of any size. -/
theorem blocks_answer_as_maps (span : Nat) (steps : List Step) :
    Answers (initial.takeAll span steps).environment (Blocks.initial.run steps) :=
  ((fitted_initial span).takeAll steps).shows_maps.answers

end Guarded
end Treewalk
