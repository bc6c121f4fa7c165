import Treewalk.Proofs.Value.Equality

/-!
Data: the values that are made of integers and booleans alone, by arrays and hashes. No hash
has two entries with the same key, so such a value is equal to itself.
-/

namespace Treewalk

namespace Value

/-- A value made of integers, booleans, arrays, and hashes whose keys are integers and
booleans, each with one entry. -/
inductive IsData : Value → Prop where
  | integer (n : Int64) : IsData (.integer n)
  | boolean (b : Bool) : IsData (.boolean b)
  | array {items : List Value} (hitems : ∀ v ∈ items, IsData v) : IsData (.array items)
  | hash {entries : List (HashKey × Value)} (hkeys : (Entries.keys entries).Nodup)
      (hplain : ∀ e ∈ entries, ∀ s, e.1 ≠ .string s) (hvalues : ∀ e ∈ entries, IsData e.2) :
      IsData (.hash entries)

/-- The integer is the value or is in it, as an item, a key or a value, at any depth. -/
inductive HasInteger (n : Int64) : Value → Prop where
  | itself : HasInteger n (.integer n)
  | item {items : List Value} {v : Value} (mem : v ∈ items) (inside : HasInteger n v) :
      HasInteger n (.array items)
  | key {entries : List (HashKey × Value)} {v : Value} (mem : (.integer n, v) ∈ entries) :
      HasInteger n (.hash entries)
  | value {entries : List (HashKey × Value)} {k : HashKey} {v : Value} (mem : (k, v) ∈ entries)
      (inside : HasInteger n v) : HasInteger n (.hash entries)

variable {n : Int64}

theorem hasInteger_integer_iff {m : Int64} : (integer m).HasInteger n ↔ m = n := by
  constructor
  · rintro ⟨⟩
    rfl
  · rintro rfl
    exact .itself

theorem hasInteger_array_iff {items : List Value} :
    (array items).HasInteger n ↔ ∃ v ∈ items, v.HasInteger n := by
  constructor
  · rintro (_ | ⟨mem, inside⟩)
    exact ⟨_, mem, inside⟩
  · rintro ⟨v, mem, inside⟩
    exact .item mem inside

theorem hasInteger_toValue_iff {k : HashKey} : k.toValue.HasInteger n ↔ k = .integer n := by
  constructor
  · cases k with
    | integer m =>
        intro h
        rw [hasInteger_integer_iff.1 h]
    | boolean b => rintro ⟨⟩
    | string s => rintro ⟨⟩
  · rintro rfl
    exact .itself

/-- The integer is the key of the entry, or is in its value. -/
def EntryHas (n : Int64) (entry : HashKey × Value) : Prop :=
  entry.1.toValue.HasInteger n ∨ entry.2.HasInteger n

theorem hasInteger_hash_iff {entries : List (HashKey × Value)} :
    (hash entries).HasInteger n ↔ ∃ entry ∈ entries, EntryHas n entry := by
  constructor
  · rintro (_ | _ | mem | ⟨mem, inside⟩)
    · exact ⟨_, mem, .inl .itself⟩
    · exact ⟨_, mem, .inr inside⟩
  · rintro ⟨⟨k, v⟩, mem, hkey | hvalue⟩
    · obtain rfl := hasInteger_toValue_iff.1 hkey
      exact .key mem
    · exact .value mem hvalue

theorem IsData.wellKeyed {v : Value} (h : v.IsData) : v.WellKeyed := by
  induction h with
  | integer n => exact .integer n
  | boolean b => exact .boolean b
  | array _ ih => exact .array ih
  | hash hkeys _ _ ih => exact .hash hkeys ih

theorem IsData.same_self {v : Value} (h : v.IsData) : v.same v = true :=
  h.wellKeyed.same_self

end Value
end Treewalk
