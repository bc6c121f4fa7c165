import Mathlib.Data.List.Nodup
import Treewalk.Entries

/-!
Dictionaries. If no two entries have the same key, then what is found under a key is just
what an entry has beside it, and putting keeps this so. Pairs that are put one after another
into an empty dictionary make one entry for each key: the keys stand in the order in which
each comes first, and each has the value that comes last.
-/

namespace Treewalk
namespace Entries

variable {κ α : Type} [DecidableEq κ] {key : κ} {value : α} {entries : Entries κ α}

theorem mem_of_get? (h : entries.get? key = some value) : (key, value) ∈ entries := by
  induction entries with
  | nil => cases h
  | cons e rest ih =>
      rw [get?] at h
      split at h
      · rename_i hkey
        cases h
        cases hkey
        exact List.mem_cons_self
      · exact List.mem_cons_of_mem _ (ih h)

theorem get?_of_mem (hkeys : entries.keys.Nodup) (h : (key, value) ∈ entries) :
    entries.get? key = some value := by
  induction entries with
  | nil => cases h
  | cons e rest ih =>
      obtain ⟨k, v⟩ := e
      obtain ⟨hfirst, hrest⟩ := List.nodup_cons.1 hkeys
      rw [get?]
      cases h with
      | head => rw [if_pos rfl]
      | tail _ h =>
          have hne : k ≠ key := by
            rintro rfl
            exact hfirst (List.mem_map.2 ⟨(_, value), h, rfl⟩)
          rw [if_neg hne]
          exact ih hrest h

theorem isSome_get?_iff : (entries.get? key).isSome = true ↔ key ∈ entries.keys := by
  rw [← not_iff_not, ← get?_eq_none_iff]
  simp

theorem mem_put {e : κ × α} (h : e ∈ put key value entries) : e = (key, value) ∨ e ∈ entries := by
  induction entries with
  | nil => exact .inl (List.mem_singleton.1 h)
  | cons first rest ih =>
      rw [put] at h
      split at h
      · rename_i hkey
        cases hkey
        obtain rfl | h := List.mem_cons.1 h
        · exact .inl rfl
        · exact .inr (List.mem_cons_of_mem _ h)
      · obtain rfl | h := List.mem_cons.1 h
        · exact .inr List.mem_cons_self
        · exact (ih h).imp_right (List.mem_cons_of_mem _)

/-- A new key comes last. -/
theorem put_of_notMem (h : key ∉ entries.keys) :
    put key value entries = entries ++ [(key, value)] := by
  induction entries with
  | nil => rfl
  | cons e rest ih =>
      obtain ⟨k, v⟩ := e
      obtain ⟨hne, hrest⟩ := List.ne_and_not_mem_of_not_mem_cons h
      rw [put, if_neg (Ne.symm hne), ih hrest]
      rfl

theorem nodup_keys_put (h : entries.keys.Nodup) : (put key value entries).keys.Nodup := by
  rw [keys_put]
  split
  · exact h
  · rename_i hnew
    have hne : ∀ k ∈ entries.keys, k ≠ key := by
      rintro k hk rfl
      exact hnew hk
    simpa [List.nodup_append] using ⟨h, hne⟩

/-- Put pairs one after another. -/
def putAll (pairs : List (κ × α)) (entries : Entries κ α) : Entries κ α :=
  pairs.foldl (fun entries pair => put pair.1 pair.2 entries) entries

variable {pairs : List (κ × α)}

theorem nodup_keys_putAll (h : entries.keys.Nodup) : (putAll pairs entries).keys.Nodup := by
  induction pairs generalizing entries with
  | nil => exact h
  | cons pair pairs ih => exact ih (nodup_keys_put h)

/-- The keys that are new come last, in the order in which each comes first. -/
theorem keys_putAll (pairs : List (κ × α)) (entries : Entries κ α) :
    (putAll pairs entries).keys = entries.keys ++
      ((pairs.map Prod.fst).filter fun k => !entries.keys.contains k).eraseDups := by
  induction pairs generalizing entries with
  | nil => simp [putAll]
  | cons pair pairs ih =>
      obtain ⟨k, v⟩ := pair
      have hstep := ih (put k v entries)
      rw [keys_put] at hstep
      by_cases hk : k ∈ entries.keys
      · rw [if_pos hk] at hstep
        simpa [putAll, hk] using hstep
      · rw [if_neg hk] at hstep
        simpa [putAll, hk, List.eraseDups_cons, List.filter_filter, Bool.and_comm,
          beq_eq_decide] using hstep

/-- What is put last is found. -/
theorem get?_putAll (pairs : List (κ × α)) (entries : Entries κ α) (key : κ) :
    (putAll pairs entries).get? key = (pairs.reverse.lookup key).or (entries.get? key) := by
  induction pairs generalizing entries with
  | nil => simp [putAll]
  | cons pair pairs ih =>
      obtain ⟨k, v⟩ := pair
      have hstep := ih (put k v entries)
      by_cases hk : key = k
      · subst hk
        rw [get?_put_self] at hstep
        simpa [putAll, List.lookup_append] using hstep
      · have hne : (key == k) = false := beq_eq_false_iff_ne.2 hk
        rw [get?_put_of_ne hk] at hstep
        simpa [putAll, List.lookup_append, List.lookup_cons, hne] using hstep

/-- The entries are the ordered dictionary of the pairs: there is one for each key, in the
order in which each comes first, and beside it stands the value that comes last. -/
structure DictionaryOf (pairs : List (κ × α)) (entries : Entries κ α) : Prop where
  keys_eq : entries.keys = (pairs.map Prod.fst).eraseDups
  nodup_keys : entries.keys.Nodup
  get?_eq : ∀ key, entries.get? key = pairs.reverse.lookup key

theorem dictionaryOf_putAll (pairs : List (κ × α)) : DictionaryOf pairs (putAll pairs []) where
  keys_eq := by simpa [keys] using keys_putAll pairs []
  nodup_keys := nodup_keys_putAll .nil
  get?_eq key := by simpa using get?_putAll pairs [] key

end Entries
end Treewalk
