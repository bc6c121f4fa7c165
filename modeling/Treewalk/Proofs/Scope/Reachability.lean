import Treewalk.Proofs.Scope.Slots

/-!
What a collection keeps. A scope is reached if it lives and is a root, or is
captured by a function found anywhere inside a root value, or is around a scope
that is reached, or is captured by a function found anywhere inside a value
bound there. The search may take the names it has yet to follow in any order and
may list the references of a scope in any order: the slots marked in the end are
those of the reached scopes.
-/

namespace Treewalk

/-- A function is found inside a value, at any depth. -/
inductive Value.Holds : Value → Function → Prop where
  | itself (f : Function) : Holds (.function f) f
  | item {items : List Value} {v : Value} {f : Function} (mem : v ∈ items)
      (inside : Holds v f) : Holds (.array items) f
  | entry {entries : List (HashKey × Value)} {k : HashKey} {v : Value} {f : Function}
      (mem : (k, v) ∈ entries) (inside : Holds v f) : Holds (.hash entries) f

theorem mem_itemScopes_iff {id : ScopeId} {values : List Value} :
    id ∈ itemScopes values ↔ ∃ v ∈ values, id ∈ v.scopes := by
  induction values with
  | nil => simp [itemScopes]
  | cons v vs ih => simp [itemScopes, ih]

theorem mem_entryScopes_iff {id : ScopeId} {entries : List (HashKey × Value)} :
    id ∈ entryScopes entries ↔ ∃ k v, (k, v) ∈ entries ∧ id ∈ v.scopes := by
  induction entries with
  | nil => simp [entryScopes]
  | cons e es ih =>
      obtain ⟨k, v⟩ := e
      simp only [entryScopes, List.mem_append, ih, List.mem_cons, Prod.mk.injEq]
      constructor
      · rintro (h | ⟨k', v', hm, h⟩)
        · exact ⟨k, v, .inl ⟨rfl, rfl⟩, h⟩
        · exact ⟨k', v', .inr hm, h⟩
      · rintro ⟨k', v', ⟨rfl, rfl⟩ | hm, h⟩
        · exact .inl h
        · exact .inr ⟨k', v', hm, h⟩

theorem Value.mem_scopes_of_holds {v : Value} {f : Function} (h : v.Holds f) :
    f.scope ∈ v.scopes := by
  induction h with
  | itself f => simp [scopes]
  | item mem _ ih =>
      rw [scopes, mem_itemScopes_iff]
      exact ⟨_, mem, ih⟩
  | entry mem _ ih =>
      rw [scopes, mem_entryScopes_iff]
      exact ⟨_, _, mem, ih⟩

mutual

theorem Value.holds_of_mem_scopes {id : ScopeId} :
    (v : Value) → id ∈ v.scopes → ∃ f, v.Holds f ∧ f.scope = id
  | .function f, h => ⟨f, .itself f, by simpa [Value.scopes, eq_comm] using h⟩
  | .array items, h => by
      obtain ⟨v, mem, f, hf, hs⟩ := holds_of_mem_itemScopes items (by simpa [Value.scopes] using h)
      exact ⟨f, .item mem hf, hs⟩
  | .hash entries, h => by
      obtain ⟨k, v, mem, f, hf, hs⟩ :=
        holds_of_mem_entryScopes entries (by simpa [Value.scopes] using h)
      exact ⟨f, .entry mem hf, hs⟩
  | .integer _, h | .boolean _, h | .string _, h | .null, h | .builtin _, h
  | .error _, h => by simp [Value.scopes] at h

theorem holds_of_mem_itemScopes {id : ScopeId} :
    (vs : List Value) → id ∈ itemScopes vs → ∃ v ∈ vs, ∃ f, v.Holds f ∧ f.scope = id
  | [], h => by simp [itemScopes] at h
  | v :: vs, h => by
      rw [itemScopes, List.mem_append] at h
      cases h with
      | inl h => exact ⟨v, by simp, Value.holds_of_mem_scopes v h⟩
      | inr h =>
          obtain ⟨w, mem, hw⟩ := holds_of_mem_itemScopes vs h
          exact ⟨w, by simp [mem], hw⟩

theorem holds_of_mem_entryScopes {id : ScopeId} :
    (es : List (HashKey × Value)) → id ∈ entryScopes es →
      ∃ k v, (k, v) ∈ es ∧ ∃ f, v.Holds f ∧ f.scope = id
  | [], h => by simp [entryScopes] at h
  | (k, v) :: es, h => by
      rw [entryScopes, List.mem_append] at h
      cases h with
      | inl h => exact ⟨k, v, by simp, Value.holds_of_mem_scopes v h⟩
      | inr h =>
          obtain ⟨k', w, mem, hw⟩ := holds_of_mem_entryScopes es h
          exact ⟨k', w, by simp [mem], hw⟩

end

theorem Value.mem_scopes_iff {id : ScopeId} {v : Value} :
    id ∈ v.scopes ↔ ∃ f, v.Holds f ∧ f.scope = id := by
  constructor
  · exact holds_of_mem_scopes v
  · rintro ⟨f, h, rfl⟩
    exact mem_scopes_of_holds h

namespace Arena

/-- The scopes that root scopes and root values lead to. -/
inductive Reaches (a : Arena) (scopes : List ScopeId) (values : List Value) :
    ScopeId → Prop where
  | root {id : ScopeId} (mem : id ∈ scopes) (lives : a.contains id = true) :
      Reaches a scopes values id
  | held {v : Value} {f : Function} (mem : v ∈ values) (inside : v.Holds f)
      (lives : a.contains f.scope = true) : Reaches a scopes values f.scope
  | outer {id outer : ScopeId} {scope : Scope} (reached : Reaches a scopes values id)
      (found : a.get? id = some scope) (link : scope.outer = some outer)
      (lives : a.contains outer = true) : Reaches a scopes values outer
  | captured {id : ScopeId} {scope : Scope} {name : String} {v : Value} {f : Function}
      (reached : Reaches a scopes values id) (found : a.get? id = some scope)
      (bound : (name, v) ∈ scope.bindings) (inside : v.Holds f)
      (lives : a.contains f.scope = true) : Reaches a scopes values f.scope

variable {a : Arena} {scopes : List ScopeId} {values : List Value}

theorem Reaches.lives {id : ScopeId} (h : a.Reaches scopes values id) :
    a.contains id = true := by
  cases h <;> assumption

theorem mem_references_iff {scope : Scope} {id : ScopeId} :
    id ∈ scope.references ↔ scope.outer = some id ∨
      ∃ name v f, (name, v) ∈ scope.bindings ∧ v.Holds f ∧ f.scope = id := by
  simp only [Scope.references, List.mem_append, Option.mem_toList, mem_itemScopes_iff,
    List.mem_map, Prod.exists, exists_eq_right, Value.mem_scopes_iff]
  constructor
  · rintro (h | ⟨v, ⟨name, mem⟩, f, hf, hs⟩)
    · exact .inl h
    · exact .inr ⟨name, v, f, mem, hf, hs⟩
  · rintro (h | ⟨name, v, f, mem, hf, hs⟩)
    · exact .inl h
    · exact .inr ⟨v, ⟨name, mem⟩, f, hf, hs⟩

/-- What scopes lead to that lead to none but each other. -/
theorem Reaches.mem_of_closed {kept : List ScopeId} {id : ScopeId}
    (h : a.Reaches scopes values id) (hroots : scopes ⊆ kept)
    (hvalues : ∀ v ∈ values, v.scopes ⊆ kept)
    (hclosed : ∀ id ∈ kept, ∀ scope ∈ a.get? id, scope.references ⊆ kept) : id ∈ kept := by
  induction h with
  | root mem _ => exact hroots mem
  | held mem inside _ => exact hvalues _ mem (Value.mem_scopes_of_holds inside)
  | outer _ found link _ ih =>
      exact hclosed _ ih _ found (mem_references_iff.2 (.inl link))
  | captured _ found bound inside _ ih =>
      exact hclosed _ ih _ found (mem_references_iff.2 (.inr ⟨_, _, _, bound, inside, rfl⟩))

/-- A search that a list of names starts, in whatever order it is done. Any name
yet to be followed may be next; the references of a scope met for the first time
join the others in any order. -/
inductive Search (a : Arena) : Array Bool → List ScopeId → Array Bool → Prop where
  | done {marked : Array Bool} : Search a marked [] marked
  | gone {marked result : Array Bool} {work rest : List ScopeId} {id : ScopeId}
      (next : work.Perm (id :: rest)) (missing : a.get? id = none)
      (later : Search a marked rest result) : Search a marked work result
  | seen {marked result : Array Bool} {work rest : List ScopeId} {id : ScopeId}
      (next : work.Perm (id :: rest)) (lives : a.contains id = true)
      (before : marked[id.index]? = some true)
      (later : Search a marked rest result) : Search a marked work result
  | fresh {marked result : Array Bool} {work rest references : List ScopeId}
      {id : ScopeId} {scope : Scope}
      (next : work.Perm (id :: rest)) (found : a.get? id = some scope)
      (first : marked[id.index]? = some false) (listed : references.Perm scope.references)
      (later : Search a (marked.setIfInBounds id.index true) (references ++ rest) result) :
      Search a marked work result

/-- The slots that are marked are those of the scopes that roots lead to. -/
def MarksReached (a : Arena) (scopes : List ScopeId) (values : List Value)
    (marked : Array Bool) : Prop :=
  ∀ i, marked[i]? = some true ↔ ∃ id, id.index = i ∧ a.Reaches scopes values id

namespace Search

variable {marked result : Array Bool} {work : List ScopeId}

theorem size_eq (h : a.Search marked work result) : result.size = marked.size := by
  induction h with
  | done => rfl
  | gone _ _ _ ih | seen _ _ _ _ ih => exact ih
  | fresh _ _ _ _ _ ih => rw [ih, Array.size_setIfInBounds]

theorem grows (h : a.Search marked work result) {i : Nat} (hi : marked[i]? = some true) :
    result[i]? = some true := by
  induction h with
  | done => exact hi
  | gone _ _ _ ih | seen _ _ _ _ ih => exact ih hi
  | @fresh marked _ _ _ _ id _ _ _ _ _ _ ih =>
      apply ih
      rw [Array.getElem?_setIfInBounds]
      split
      · rename_i h
        subst h
        obtain ⟨hlt, -⟩ := Array.getElem?_eq_some_iff.1 hi
        simp [hlt]
      · exact hi

/-- Only slots of reached scopes are marked, if the search starts from such. -/
theorem sound (h : a.Search marked work result)
    (hwork : ∀ id ∈ work, a.contains id = true → a.Reaches scopes values id)
    (hmarked : ∀ i, marked[i]? = some true → ∃ id, id.index = i ∧ a.Reaches scopes values id)
    (i : Nat) (hi : result[i]? = some true) :
    ∃ id, id.index = i ∧ a.Reaches scopes values id := by
  induction h with
  | done => exact hmarked i hi
  | gone next _ _ ih | seen next _ _ _ ih =>
      exact ih (fun x hx => hwork x (next.mem_iff.2 (List.mem_cons_of_mem _ hx))) hmarked hi
  | @fresh marked result work rest references id scope next found first listed _ ih =>
      have hreached : a.Reaches scopes values id :=
        hwork id (next.mem_iff.2 List.mem_cons_self) (contains_iff.2 ⟨scope, found⟩)
      refine ih ?_ ?_ hi
      · intro x hx lives
        rw [List.mem_append, listed.mem_iff, mem_references_iff] at hx
        obtain (link | ⟨name, v, f, bound, inside, rfl⟩) | hx := hx
        · exact .outer hreached found link lives
        · exact .captured hreached found bound inside lives
        · exact hwork x (next.mem_iff.2 (List.mem_cons_of_mem _ hx)) lives
      · intro j hj
        rw [Array.getElem?_setIfInBounds] at hj
        split at hj
        · rename_i hij
          exact ⟨id, hij, hreached⟩
        · exact hmarked j hj

/-- Every scope of the work list is marked in the end, and so is every scope that a
newly marked one refers to. -/
theorem complete (h : a.Search marked work result) (hsize : marked.size = a.slots.size) :
    (∀ id ∈ work, a.contains id = true → result[id.index]? = some true) ∧
    ∀ id scope, a.get? id = some scope → result[id.index]? = some true →
      marked[id.index]? = some true ∨
        ∀ r ∈ scope.references, a.contains r = true → result[r.index]? = some true := by
  induction h with
  | done => exact ⟨fun _ h => absurd h List.not_mem_nil, fun _ _ _ h => .inl h⟩
  | gone next missing _ ih =>
      refine ⟨fun x hx lives => ?_, (ih hsize).2⟩
      rw [next.mem_iff, List.mem_cons] at hx
      obtain rfl | hx := hx
      · simp [contains, missing] at lives
      · exact (ih hsize).1 x hx lives
  | seen next _ before later ih =>
      refine ⟨fun x hx lives => ?_, (ih hsize).2⟩
      rw [next.mem_iff, List.mem_cons] at hx
      obtain rfl | hx := hx
      · exact later.grows before
      · exact (ih hsize).1 x hx lives
  | @fresh marked result work rest references id scope next found first listed later ih =>
      obtain ⟨ihwork, ihclosed⟩ := ih (by rw [Array.size_setIfInBounds, hsize])
      have hself : result[id.index]? = some true := by
        apply later.grows
        obtain ⟨hlt, -⟩ := Array.getElem?_eq_some_iff.1 first
        simp [hlt]
      refine ⟨fun x hx lives => ?_, fun x s hs hx => ?_⟩
      · rw [next.mem_iff, List.mem_cons] at hx
        obtain rfl | hx := hx
        · exact hself
        · exact ihwork x (List.mem_append_right _ hx) lives
      · by_cases hxid : x.index = id.index
        · obtain rfl := eq_of_contains (contains_iff.2 ⟨s, hs⟩)
            (contains_iff.2 ⟨scope, found⟩) hxid
          obtain rfl : s = scope := Option.some.inj (hs.symm.trans found)
          right
          intro r hr lives
          exact ihwork r (List.mem_append_left _ (listed.mem_iff.2 hr)) lives
        · have h := ihclosed x s hs hx
          rwa [Array.getElem?_setIfInBounds_ne (Ne.symm hxid)] at h

/-- Whatever its order, a search that starts from the roots with no slot marked ends
with the slots of the reached scopes marked. -/
theorem marksReached (h : a.Search (Array.replicate a.slots.size false) work result)
    (hroots : work.Perm (itemScopes values ++ scopes)) :
    a.MarksReached scopes values result := by
  obtain ⟨hwork, hclosed⟩ := h.complete (by simp)
  have hunmarked : ∀ i : Nat, (Array.replicate a.slots.size false)[i]? ≠ some true := by
    intro i
    rw [Array.getElem?_replicate]
    split <;> simp
  have hrefs : ∀ id scope, a.get? id = some scope → result[id.index]? = some true →
      ∀ r ∈ scope.references, a.contains r = true → result[r.index]? = some true :=
    fun id scope hs hid => (hclosed id scope hs hid).resolve_left (hunmarked _)
  have hmem : ∀ id, id ∈ work ↔ (∃ v ∈ values, ∃ f, v.Holds f ∧ f.scope = id) ∨ id ∈ scopes := by
    intro id
    simp only [hroots.mem_iff, List.mem_append, mem_itemScopes_iff, Value.mem_scopes_iff]
  intro i
  constructor
  · refine fun hi => h.sound (fun id hid lives => ?_) (fun j hj => absurd hj (hunmarked j)) i hi
    obtain ⟨v, mem, f, inside, rfl⟩ | mem := (hmem id).1 hid
    · exact .held mem inside lives
    · exact .root mem lives
  · rintro ⟨id, rfl, hid⟩
    induction hid with
    | root mem lives => exact hwork _ ((hmem _).2 (.inr mem)) lives
    | held mem inside lives => exact hwork _ ((hmem _).2 (.inl ⟨_, mem, _, inside, rfl⟩)) lives
    | outer _ found link lives ih =>
        exact hrefs _ _ found ih _ (mem_references_iff.2 (.inl link)) lives
    | captured _ found bound inside lives ih =>
        exact hrefs _ _ found ih _
          (mem_references_iff.2 (.inr ⟨_, _, _, bound, inside, rfl⟩)) lives

end Search

theorem MarksReached.unique {marked other : Array Bool} (h : a.MarksReached scopes values marked)
    (ho : a.MarksReached scopes values other) (hsize : marked.size = other.size) :
    marked = other := by
  apply Array.ext hsize
  intro i hi hi'
  have key : marked[i]? = some true ↔ other[i]? = some true := (h i).trans (ho i).symm
  rw [Array.getElem?_eq_getElem hi, Array.getElem?_eq_getElem hi', Option.some.injEq,
    Option.some.injEq] at key
  exact Bool.eq_iff_iff.2 key

theorem search_markFrom (marked : Array Bool) (work : List ScopeId)
    (hsize : marked.size = a.slots.size) : a.Search marked work (a.markFrom marked work) := by
  fun_induction markFrom a marked work with
  | case1 marked => exact .done
  | case2 marked id work hmissing ih => exact .gone (.refl _) hmissing (ih hsize)
  | case3 marked id work scope hfound hfirst ih =>
      exact .fresh (.refl _) hfound hfirst (.refl _) (ih (by rw [Array.size_setIfInBounds, hsize]))
  | case4 marked id work scope hfound hseen ih =>
      obtain ⟨hlt, -⟩ := Array.getElem?_eq_some_iff.1 (get?_eq_some_iff.1 hfound)
      rw [← hsize] at hlt
      have htrue : marked[id.index]? = some true := by
        simpa [Array.getElem?_eq_getElem hlt] using hseen
      exact .seen (.refl _) (contains_iff.2 ⟨scope, hfound⟩) htrue (ih hsize)

theorem search_reached (scopes : List ScopeId) (values : List Value) :
    a.Search (Array.replicate a.slots.size false) (itemScopes values ++ scopes)
      (a.reached scopes values) :=
  search_markFrom _ _ (by simp)

end Arena
end Treewalk
