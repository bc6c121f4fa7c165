import Mathlib.Data.List.Perm.Subperm
import Treewalk.Evaluation.Operators
import Treewalk.Proofs.Value.Traits
import Treewalk.Value.Equality

/-!
Notions of equality. Values are compared by a function, keys of hashes by their content,
operands by the operators of the language, and keys again when a hash is looked into. All
of these agree. Of the hashes inside of values it is used that no two entries have the same
key; this is so for every hash that is made by putting.
-/

namespace Treewalk

/-- Nothing twice, or equal values. -/
abbrev SameAt : Option Value → Option Value → Prop :=
  Option.Rel fun v w => v.same w = true

namespace SameAt

variable {x y z : Option Value}

theorem isSome_eq (h : SameAt x y) : x.isSome = y.isSome := by
  cases h <;> rfl

theorem self (h : ∀ v, x = some v → v.same v = true) : SameAt x x := by
  cases x with
  | none => exact .none
  | some v => exact .some (h v rfl)

theorem symm (hxy : SameAt x y)
    (h : ∀ v w, x = some v → y = some w → v.same w = true → w.same v = true) : SameAt y x := by
  cases hxy with
  | none => exact .none
  | some hvw => exact .some (h _ _ rfl rfl hvw)

theorem trans (hxy : SameAt x y) (hyz : SameAt y z)
    (h : ∀ u v w, x = some u → y = some v → z = some w → u.same v = true → v.same w = true →
      u.same w = true) : SameAt x z := by
  cases hxy with
  | none => exact hyz
  | some huv =>
      cases hyz with
      | some hvw => exact .some (h _ _ _ rfl rfl rfl huv hvw)

end SameAt

theorem sameItems_iff {xs ys : List Value} :
    sameItems xs ys = true ↔ ∀ i : Nat, SameAt xs[i]? ys[i]? := by
  induction xs generalizing ys with
  | nil =>
      cases ys with
      | nil => simp [sameItems]
      | cons y ys =>
          refine iff_of_false (by simp [sameItems]) fun h => ?_
          cases h 0
  | cons x xs ih =>
      cases ys with
      | nil =>
          refine iff_of_false (by simp [sameItems]) fun h => ?_
          cases h 0
      | cons y ys =>
          rw [sameItems, Bool.and_eq_true, ih]
          constructor
          · rintro ⟨hfirst, hrest⟩ i
            cases i with
            | zero => exact .some hfirst
            | succ i => exact hrest i
          · intro h
            have hfirst := h 0
            exact ⟨by simpa using hfirst, fun i => h (i + 1)⟩

theorem sameEntries_iff {es fs : List (HashKey × Value)} :
    sameEntries es fs = true ↔
      ∀ e ∈ es, ∃ w, Entries.get? e.1 fs = some w ∧ e.2.same w = true := by
  induction es with
  | nil => simp [sameEntries]
  | cons e es ih =>
      obtain ⟨k, v⟩ := e
      rw [sameEntries, Bool.and_eq_true, ih, List.forall_mem_cons]
      cases Entries.get? k fs <;> simp

namespace Value

/-- In every hash inside of the value, at any depth, no two entries have the same key. -/
inductive WellKeyed : Value → Prop where
  | integer (n : Int64) : WellKeyed (.integer n)
  | boolean (b : Bool) : WellKeyed (.boolean b)
  | string (s : String) : WellKeyed (.string s)
  | null : WellKeyed .null
  | array {items : List Value} (hitems : ∀ v ∈ items, WellKeyed v) : WellKeyed (.array items)
  | hash {entries : List (HashKey × Value)} (hkeys : (Entries.keys entries).Nodup)
      (hvalues : ∀ e ∈ entries, WellKeyed e.2) : WellKeyed (.hash entries)
  | function (f : Function) : WellKeyed (.function f)
  | builtin (b : Builtin) : WellKeyed (.builtin b)
  | error (message : String) : WellKeyed (.error message)

theorem wellKeyed_array_iff (items : List Value) :
    (array items).WellKeyed ↔ ∀ v ∈ items, v.WellKeyed := by
  refine ⟨fun h => ?_, .array⟩
  cases h with
  | array hitems => exact hitems

theorem wellKeyed_hash_iff (entries : List (HashKey × Value)) :
    (hash entries).WellKeyed ↔
      (Entries.keys entries).Nodup ∧ ∀ e ∈ entries, e.2.WellKeyed := by
  refine ⟨fun h => ?_, fun h => .hash h.1 h.2⟩
  cases h with
  | hash hkeys hvalues => exact ⟨hkeys, hvalues⟩

end Value

/-- To hold no hash with the same key twice, as all values do that are made by evaluation. -/
def Trait.wellKeyed : Trait where
  Has := Value.WellKeyed
  integer := .integer
  boolean := .boolean
  string := .string
  null := .null
  function := .function
  builtin := .builtin
  array_iff := Value.wellKeyed_array_iff
  hash_nil := .hash .nil (by simp)
  hash_put := by
    intro entries v k hentries hv
    rw [Value.wellKeyed_hash_iff] at hentries ⊢
    refine ⟨Entries.nodup_keys_put hentries.1, fun e he => ?_⟩
    obtain rfl | he := Entries.mem_put he
    · exact hv
    · exact hentries.2 e he
  hash_get? := fun hentries hget =>
    ((Value.wellKeyed_hash_iff _).1 hentries).2 _ (Entries.mem_of_get? hget)

namespace Value

variable {es fs : List (HashKey × Value)}

theorem same_array_iff {xs ys : List Value} :
    (array xs).same (array ys) = true ↔ ∀ i : Nat, SameAt xs[i]? ys[i]? :=
  sameItems_iff

/-- Under each key there are equal values, or both times none, if the keys are the same and
their values are equal. -/
theorem sameAt_get?_iff (hes : (Entries.keys es).Nodup) (hfs : (Entries.keys fs).Nodup) :
    (∀ k, SameAt (Entries.get? k es) (Entries.get? k fs)) ↔
      (∀ k, k ∈ Entries.keys es ↔ k ∈ Entries.keys fs) ∧
        ∀ k v w, (k, v) ∈ es → (k, w) ∈ fs → v.same w = true := by
  constructor
  · intro h
    refine ⟨fun k => ?_, fun k v w hv hw => ?_⟩
    · rw [← Entries.isSome_get?_iff, ← Entries.isSome_get?_iff, (h k).isSome_eq]
    · have hk := h k
      rw [Entries.get?_of_mem hes hv, Entries.get?_of_mem hfs hw] at hk
      simpa using hk
  · rintro ⟨hkeys, hvalues⟩ k
    have hk := hkeys k
    rw [← Entries.isSome_get?_iff, ← Entries.isSome_get?_iff] at hk
    cases hv : Entries.get? k es with
    | none =>
        cases hw : Entries.get? k fs with
        | none => exact .none
        | some w => simp [hv, hw] at hk
    | some v =>
        cases hw : Entries.get? k fs with
        | none => simp [hv, hw] at hk
        | some w =>
            exact .some (hvalues k v w (Entries.mem_of_get? hv) (Entries.mem_of_get? hw))

theorem same_hash_iff (hes : (Entries.keys es).Nodup) (hfs : (Entries.keys fs).Nodup) :
    (hash es).same (hash fs) = true ↔ ∀ k, SameAt (Entries.get? k es) (Entries.get? k fs) := by
  rw [same_hash, Bool.and_eq_true, beq_iff_eq, sameEntries_iff, sameAt_get?_iff hes hfs]
  constructor
  · rintro ⟨hlength, hsame⟩
    have hsubset : Entries.keys es ⊆ Entries.keys fs := by
      intro k hk
      obtain ⟨e, he, rfl⟩ := List.mem_map.1 hk
      obtain ⟨w, hw, -⟩ := hsame e he
      simp [← Entries.isSome_get?_iff, hw]
    -- There are no more keys on the other side, so none of them is new.
    have hperm : (Entries.keys es).Perm (Entries.keys fs) :=
      (hes.subperm hsubset).perm_of_length_le (by simp [Entries.keys, hlength])
    refine ⟨fun k => hperm.mem_iff, fun k v w hv hw => ?_⟩
    obtain ⟨x, hx, hvx⟩ := hsame (k, v) hv
    rw [Entries.get?_of_mem hfs hw] at hx
    cases hx
    exact hvx
  · rintro ⟨hkeys, hvalues⟩
    have hperm := (List.perm_ext_iff_of_nodup hes hfs).2 hkeys
    refine ⟨by simpa [Entries.keys] using hperm.length_eq, fun e he => ?_⟩
    have hmem : e.1 ∈ Entries.keys fs := (hkeys e.1).1 (List.mem_map_of_mem he)
    obtain ⟨w, hw⟩ := Option.isSome_iff_exists.1 (Entries.isSome_get?_iff.2 hmem)
    exact ⟨w, hw, hvalues e.1 e.2 w he (Entries.mem_of_get? hw)⟩

/-! Equality is an equivalence. -/

theorem exists_of_same_array {xs : List Value} {w : Value} (h : (array xs).same w = true) :
    ∃ ys, w = .array ys := by
  have htype := type_eq_of_same h
  cases w <;> simp_all [type]

theorem exists_of_same_hash {w : Value} (h : (hash es).same w = true) :
    ∃ fs, w = .hash fs := by
  have htype := type_eq_of_same h
  cases w <;> simp_all [type]

theorem exists_of_same_function {f : Function} {w : Value} (h : (function f).same w = true) :
    ∃ g, w = .function g ∧ f.identity = g.identity := by
  have htype := type_eq_of_same h
  cases w <;> simp_all [type]

/-- Values that hold no others, and are no functions, are equal to themselves only. -/
theorem eq_of_same {v w : Value} (h : v.same w = true) (harray : ∀ xs, v ≠ .array xs)
    (hhash : ∀ es, v ≠ .hash es) (hfunction : ∀ f, v ≠ .function f) : v = w := by
  have htype := type_eq_of_same h
  cases v <;> cases w <;> simp_all [type]

namespace WellKeyed

variable {u v w : Value}

theorem same_self (hv : v.WellKeyed) : v.same v = true := by
  induction hv with
  | array _ ih => exact same_array_iff.2 fun i => .self fun v hv => ih v (List.mem_of_getElem? hv)
  | hash hkeys _ ih =>
      exact (same_hash_iff hkeys hkeys).2 fun k => .self fun v hv => ih _ (Entries.mem_of_get? hv)
  | null => rfl
  | integer | boolean | string | function | builtin | error => simp

theorem same_symm (hv : v.WellKeyed) (hw : w.WellKeyed) (h : v.same w = true) :
    w.same v = true := by
  induction hv generalizing w with
  | array _ ih =>
      obtain ⟨ys, rfl⟩ := exists_of_same_array h
      rw [same_array_iff] at h ⊢
      rw [wellKeyed_array_iff] at hw
      refine fun i => (h i).symm fun x y hx hy => ?_
      exact ih x (List.mem_of_getElem? hx) (hw y (List.mem_of_getElem? hy))
  | hash hkeys _ ih =>
      obtain ⟨fs, rfl⟩ := exists_of_same_hash h
      obtain ⟨hkeys', hws⟩ := (wellKeyed_hash_iff fs).1 hw
      rw [same_hash_iff hkeys hkeys'] at h
      refine (same_hash_iff hkeys' hkeys).2 fun k => (h k).symm fun x y hx hy => ?_
      exact ih _ (Entries.mem_of_get? hx) (hws _ (Entries.mem_of_get? hy))
  | function f =>
      obtain ⟨g, rfl, hfg⟩ := exists_of_same_function h
      simp [hfg]
  | integer | boolean | string | null | builtin | error =>
      obtain rfl := eq_of_same h nofun nofun nofun
      exact h

theorem same_trans (hu : u.WellKeyed) (hv : v.WellKeyed) (hw : w.WellKeyed)
    (huv : u.same v = true) (hvw : v.same w = true) : u.same w = true := by
  induction hu generalizing v w with
  | array _ ih =>
      obtain ⟨ys, rfl⟩ := exists_of_same_array huv
      obtain ⟨zs, rfl⟩ := exists_of_same_array hvw
      rw [same_array_iff] at huv hvw ⊢
      rw [wellKeyed_array_iff] at hv hw
      refine fun i => (huv i).trans (hvw i) fun x y z hx hy hz => ?_
      exact ih x (List.mem_of_getElem? hx) (hv y (List.mem_of_getElem? hy))
        (hw z (List.mem_of_getElem? hz))
  | hash hkeys _ ih =>
      obtain ⟨fs, rfl⟩ := exists_of_same_hash huv
      obtain ⟨gs, rfl⟩ := exists_of_same_hash hvw
      obtain ⟨hkeys', hvs⟩ := (wellKeyed_hash_iff fs).1 hv
      obtain ⟨hkeys'', hws⟩ := (wellKeyed_hash_iff gs).1 hw
      rw [same_hash_iff hkeys hkeys'] at huv
      rw [same_hash_iff hkeys' hkeys''] at hvw
      rw [same_hash_iff hkeys hkeys'']
      refine fun k => (huv k).trans (hvw k) fun x y z hx hy hz => ?_
      exact ih _ (Entries.mem_of_get? hx) (hvs _ (Entries.mem_of_get? hy))
        (hws _ (Entries.mem_of_get? hz))
  | function f =>
      obtain ⟨g, rfl, hfg⟩ := exists_of_same_function huv
      obtain ⟨k, rfl, hgk⟩ := exists_of_same_function hvw
      simp [hfg, hgk]
  | integer | boolean | string | null | builtin | error =>
      obtain rfl := eq_of_same huv nofun nofun nofun
      exact hvw

end WellKeyed

/-! The other notions of equality. -/

theorem same_toValue_iff (k l : HashKey) : k.toValue.same l.toValue = true ↔ k = l := by
  refine ⟨fun h => ?_, fun h => ?_⟩
  · have htype := type_eq_of_same h
    cases k <;> cases l <;> simp_all [HashKey.toValue, type]
  · subst h
    cases k <;> simp [HashKey.toValue]

theorem key_eq_iff {v w : Value} {k l : HashKey} (hk : HashKey.ofValue? v = some k)
    (hl : HashKey.ofValue? w = some l) : k = l ↔ v.same w = true := by
  rw [← HashKey.toValue_of_ofValue? hk, ← HashKey.toValue_of_ofValue? hl, same_toValue_iff]

end Value

/-- The values are of one type, and of one whose values the operators can compare. -/
def Value.Comparable (v w : Value) : Prop :=
  v.type = w.type ∧ v.type ∈ [.integer, .boolean, .string, .null]

namespace InfixOp

theorem apply_equality {v w : Value} (h : v.Comparable w) :
    equal.apply v w = .ok (.boolean (v.same w)) ∧
      unequal.apply v w = .ok (.boolean (!v.same w)) := by
  unfold apply
  split
  · simp [applyIntegers, bne]
  · simp [applyEquality]
  · simp [applyEquality]
  · simp [applyEquality]
  · obtain ⟨htype, hcomparable⟩ := h
    cases v <;> cases w <;> simp_all [Value.type]

theorem apply_of_not_comparable (op : InfixOp) {v w : Value} (h : ¬ v.Comparable w) :
    ∃ e, op.apply v w = .error e := by
  unfold apply
  split
  · simp [Value.Comparable, Value.type] at h
  · simp [Value.Comparable, Value.type] at h
  · simp [Value.Comparable, Value.type] at h
  · simp [Value.Comparable, Value.type] at h
  · split <;> exact ⟨_, rfl⟩

/-- The operators for equality yield what comparing the values does, or nothing. -/
theorem apply_equality_eq_ok_iff {v w x : Value} :
    (equal.apply v w = .ok x ↔ v.Comparable w ∧ x = .boolean (v.same w)) ∧
      (unequal.apply v w = .ok x ↔ v.Comparable w ∧ x = .boolean (!v.same w)) := by
  by_cases h : v.Comparable w
  · obtain ⟨hequal, hunequal⟩ := apply_equality h
    rw [hequal, hunequal, and_iff_right h, and_iff_right h, Except.ok.injEq, Except.ok.injEq]
    exact ⟨eq_comm, eq_comm⟩
  · obtain ⟨e, he⟩ := apply_of_not_comparable equal h
    obtain ⟨e', he'⟩ := apply_of_not_comparable unequal h
    simp [he, he', h]

end InfixOp

namespace Value

/-- In a hash of one entry a key is found if it is equal to that of the entry. -/
theorem select_single {v w : Value} {k l : HashKey} (x : Value)
    (hk : HashKey.ofValue? v = some k) (hl : HashKey.ofValue? w = some l) :
    (hash [(k, x)]).select w = .ok (if v.same w then x else .null) := by
  simp only [select, hl, entryAt, Entries.get?, ← key_eq_iff hk hl]
  split <;> rfl

/-- Equality of values is an equivalence. It takes two hashes for equal if they have the same
keys, with equal values under each, wherever the entries stand. The other notions of equality
agree with it: that of keys; the operators, on operands of one type that can be compared; and
the one by which the key of an entry is found. -/
theorem equalities_agree :
    (∀ a : Value, a.WellKeyed → a.same a = true) ∧
    (∀ a b : Value, a.WellKeyed → b.WellKeyed → a.same b = true → b.same a = true) ∧
    (∀ a b c : Value, a.WellKeyed → b.WellKeyed → c.WellKeyed →
      a.same b = true → b.same c = true → a.same c = true) ∧
    (∀ es fs : List (HashKey × Value), (hash es).WellKeyed → (hash fs).WellKeyed →
      ((hash es).same (hash fs) = true ↔
        (∀ k, k ∈ Entries.keys es ↔ k ∈ Entries.keys fs) ∧
          ∀ k v w, (k, v) ∈ es → (k, w) ∈ fs → v.same w = true)) ∧
    ∀ a b : Value,
      (∀ k l, HashKey.ofValue? a = some k → HashKey.ofValue? b = some l →
        ((k = l ↔ a.same b = true) ∧
          ∀ x, (hash [(k, x)]).select b = .ok (if a.same b then x else .null))) ∧
      ∀ x, (InfixOp.equal.apply a b = .ok x ↔ a.Comparable b ∧ x = .boolean (a.same b)) ∧
        (InfixOp.unequal.apply a b = .ok x ↔ a.Comparable b ∧ x = .boolean (!a.same b)) := by
  refine ⟨fun a ha => ha.same_self, fun a b ha hb hab => ha.same_symm hb hab,
    fun a b c ha hb hc hab hbc => ha.same_trans hb hc hab hbc, fun es fs hes hfs => ?_,
    fun a b => ⟨fun k l hk hl => ⟨key_eq_iff hk hl, fun x => select_single x hk hl⟩,
      fun x => InfixOp.apply_equality_eq_ok_iff⟩⟩
  have hkeys := ((wellKeyed_hash_iff es).1 hes).1
  have hkeys' := ((wellKeyed_hash_iff fs).1 hfs).1
  rw [same_hash_iff hkeys hkeys', sameAt_get?_iff hkeys hkeys']

/-- Two hashes of the same entries, put in different orders, and comparisons of keys. -/
theorem equalities_agree_reordered :
    let f : Function := ⟨["x"], ⟨⟨.lbrace, "\x7b"⟩, []⟩, ⟨0, 0⟩, 3⟩
    let items := array [.function f, .null]
    let v := hash [(.integer 1, items), (.string "a", .boolean true)]
    let w := hash [(.string "a", .boolean true), (.integer 1, items)]
    v.WellKeyed ∧ w.WellKeyed ∧ v.same w = true ∧ w.same v = true ∧ v.same v = true ∧
      (hash [(.integer 1, v)]).select (.integer 1) = .ok v ∧
      (hash [(.integer 1, v)]).select (.string "1") = .ok .null ∧
      InfixOp.unequal.apply (.string "a") (.string "b") = .ok (.boolean true) := by
  intro f items v w
  have hitems : items.WellKeyed :=
    .array (List.forall_mem_cons.2 ⟨.function f, List.forall_mem_singleton.2 .null⟩)
  have hfirst := Trait.wellKeyed.hash_put (.integer 1) Trait.wellKeyed.hash_nil hitems
  have hv : v.WellKeyed := Trait.wellKeyed.hash_put (.string "a") hfirst (.boolean true)
  have hsecond := Trait.wellKeyed.hash_put (.string "a") Trait.wellKeyed.hash_nil (.boolean true)
  have hw : w.WellKeyed := Trait.wellKeyed.hash_put (.integer 1) hsecond hitems
  obtain ⟨hself, hsymm, htrans, hhashes, hkeys⟩ := equalities_agree
  have hvw : v.same w = true := by
    refine (hhashes _ _ hv hw).2 ⟨fun k => by simp [Entries.keys, or_comm], fun k x y hx hy => ?_⟩
    have hitem := hself items hitems
    have htrue := hself (.boolean true) (.boolean true)
    simp only [List.mem_cons, Prod.mk.injEq, List.not_mem_nil, or_false] at hx hy
    obtain ⟨rfl, rfl⟩ | ⟨rfl, rfl⟩ := hx <;> simp_all
  have hwv := hsymm v w hv hw hvw
  exact ⟨hv, hw, hvw, hwv, htrans v w v hv hw hv hvw hwv,
    ((hkeys (.integer 1) (.integer 1)).1 _ _ rfl rfl).2 v,
    ((hkeys (.integer 1) (.string "1")).1 _ _ rfl rfl).2 v,
    ((hkeys (.string "a") (.string "b")).2 (.boolean true)).2.2 ⟨by simp [Comparable, type], rfl⟩⟩

end Value
end Treewalk
