/-!
Entries: a dictionary as a list of pairs in the order in which the keys were
first put. Putting a key again keeps its place and replaces its value. The main
statements say what is found after putting, and what the keys are then.
-/

namespace Treewalk

/-- Pairs of a key and a value, one for each key, in order of first putting. -/
abbrev Entries (κ α : Type) := List (κ × α)

namespace Entries

variable {κ α : Type} [DecidableEq κ]

def get? (key : κ) : Entries κ α → Option α
  | [] => none
  | (k, v) :: rest => if k = key then some v else get? key rest

/-- Put a value under a key: in the place of the key, or at the end. -/
def put (key : κ) (value : α) : Entries κ α → Entries κ α
  | [] => [(key, value)]
  | (k, v) :: rest => if k = key then (k, value) :: rest else (k, v) :: put key value rest

def keys (entries : Entries κ α) : List κ :=
  entries.map Prod.fst

@[simp] theorem get?_nil (key : κ) : get? key ([] : Entries κ α) = none := rfl

theorem get?_put_self (key : κ) (value : α) (entries : Entries κ α) :
    (put key value entries).get? key = some value := by
  induction entries with
  | nil => simp [put, get?]
  | cons e rest ih =>
      obtain ⟨k, v⟩ := e
      by_cases h : k = key <;> simp [put, get?, h, ih]

theorem get?_put_of_ne {key other : κ} (h : other ≠ key) (value : α)
    (entries : Entries κ α) : (put key value entries).get? other = entries.get? other := by
  induction entries with
  | nil => simp [put, get?, Ne.symm h]
  | cons e rest ih =>
      obtain ⟨k, v⟩ := e
      by_cases hk : k = key
      · subst hk
        simp [put, get?, Ne.symm h]
      · simp [put, get?, hk, ih]

theorem get?_eq_none_iff (key : κ) (entries : Entries κ α) :
    entries.get? key = none ↔ key ∉ entries.keys := by
  induction entries with
  | nil => simp [keys]
  | cons e rest ih =>
      obtain ⟨k, v⟩ := e
      by_cases hk : k = key
      · simp [get?, keys, hk]
      · simp_all [get?, keys, Ne.symm hk]

/-- A key that is already there keeps its place, a new one comes last. -/
theorem keys_put (key : κ) (value : α) (entries : Entries κ α) :
    (put key value entries).keys =
      if key ∈ entries.keys then entries.keys else entries.keys ++ [key] := by
  induction entries with
  | nil => simp [put, keys]
  | cons e rest ih =>
      obtain ⟨k, v⟩ := e
      by_cases hk : k = key
      · simp [put, keys, hk]
      · simp only [put, hk, if_false, keys, List.map_cons, List.mem_cons] at ih ⊢
        rw [ih]
        by_cases hr : key ∈ rest.map Prod.fst <;> simp [hr, Ne.symm hk]

end Entries
end Treewalk
