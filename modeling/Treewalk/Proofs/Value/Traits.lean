import Treewalk.Proofs.Value.Alike
import Treewalk.Proofs.Value.Entries

/-!
Traits: what can be said of a value by what is said of the values inside it. Operators,
indices and builtins yield only values that have a trait if they are given such values. To
hold no error anywhere inside is a trait, since none of them makes an error value: what
fails ends in an error of the evaluation.
-/

namespace Treewalk

/-- A property that simple values have, and that arrays and hashes have by what is in them. -/
structure Trait where
  Has : Value → Prop
  integer : ∀ n, Has (.integer n)
  boolean : ∀ b, Has (.boolean b)
  string : ∀ s, Has (.string s)
  null : Has .null
  function : ∀ f, Has (.function f)
  builtin : ∀ b, Has (.builtin b)
  array_iff : ∀ items, Has (.array items) ↔ ∀ v ∈ items, Has v
  hash_nil : Has (.hash [])
  hash_put : ∀ {entries v} k, Has (.hash entries) → Has v → Has (.hash (Entries.put k v entries))
  hash_get? : ∀ {entries k v}, Has (.hash entries) → Entries.get? k entries = some v → Has v

/-- The result has the property `Q`, and a value carried by a return has the property `P`. -/
def Passes {α : Type} (P : Value → Prop) (Q : α → Prop) : Except EvalError α → Prop
  | .ok a => Q a
  | .error (.returning v) => P v
  | .error _ => True

namespace Trait

variable (T : Trait)

/-- A result with the trait, or an error that carries no other value. -/
abbrev Good : Except EvalError Value → Prop :=
  Passes T.Has T.Has

theorem prefixed (op : PrefixOp) (v : Value) : T.Good (op.apply v) := by
  cases op with
  | not => exact T.boolean _
  | negate =>
      cases v with
      | integer n => exact T.integer _
      | _ => trivial

theorem infixIntegers (op : InfixOp) (l r : Int64) : T.Good (op.applyIntegers l r) := by
  cases op with
  | add | subtract | multiply => exact T.integer _
  | divide =>
      rw [InfixOp.applyIntegers]
      split
      · trivial
      · exact T.integer _
  | less | greater | equal | unequal => exact T.boolean _

theorem infixEquality (op : InfixOp) (type : ValueType) (areEqual : Bool) :
    T.Good (op.applyEquality type areEqual) := by
  cases op with
  | equal | unequal => exact T.boolean _
  | _ => trivial

theorem binary (op : InfixOp) (l r : Value) : T.Good (op.apply l r) := by
  unfold InfixOp.apply
  split
  · exact T.infixIntegers op _ _
  · split
    · exact T.string _
    · exact T.infixEquality op _ _
  · exact T.infixEquality op _ _
  · exact T.infixEquality op _ _
  · split <;> trivial

theorem getD {v : Option Value} (h : ∀ w, v = some w → T.Has w) : T.Has (v.getD .null) := by
  cases v with
  | none => exact T.null
  | some w => exact h w rfl

theorem index {collection : Value} (h : T.Has collection) (i : Value) :
    T.Good (collection.select i) := by
  unfold Value.select
  split
  · rename_i items n
    rw [T.array_iff] at h
    show T.Has (Value.elementAt items n)
    rw [Value.elementAt]
    split
    · exact T.null
    · exact T.getD fun w hw => h w (List.mem_of_getElem? hw)
  · split
    · exact T.getD fun w hw => T.hash_get? h hw
    · trivial
  · trivial

theorem applied (b : Builtin) {args : List Value} (h : ∀ v ∈ args, T.Has v) :
    T.Good (b.apply args) := by
  have hitems {items : List Value} (harray : .array items ∈ args) : ∀ v ∈ items, T.Has v :=
    (T.array_iff items).1 (h _ harray)
  unfold Builtin.apply
  split
  · exact T.integer _
  · exact T.integer _
  · exact T.getD fun w hw => hitems List.mem_cons_self w (List.mem_of_head? hw)
  · exact T.getD fun w hw => hitems List.mem_cons_self w (List.mem_of_getLast? hw)
  · exact T.null
  · refine (T.array_iff _).2 fun w hw => ?_
    exact hitems List.mem_cons_self w (List.mem_cons_of_mem _ hw)
  · rename_i v
    refine (T.array_iff _).2 fun w hw => ?_
    obtain hw | hw := List.mem_append.1 hw
    · exact hitems List.mem_cons_self w hw
    · rw [List.mem_singleton.1 hw]
      exact h v (List.mem_cons_of_mem _ List.mem_cons_self)
  · exact T.null
  all_goals trivial

end Trait

/-! Errors inside values. -/

namespace Value

/-- The one value is the other or is in it, at any depth of arrays and hashes. -/
inductive Inside (part : Value) : Value → Prop where
  | itself : Inside part part
  | item {items : List Value} {v : Value} (mem : v ∈ items) (inside : Inside part v) :
      Inside part (.array items)
  | entry {entries : List (HashKey × Value)} {k : HashKey} {v : Value}
      (mem : (k, v) ∈ entries) (inside : Inside part v) : Inside part (.hash entries)

/-- The value is no error and holds none. -/
def ErrorFree (v : Value) : Prop :=
  ∀ message, ¬ Inside (.error message) v

theorem ErrorFree.isError_eq {v : Value} (h : v.ErrorFree) : v.isError = false := by
  cases v with
  | error message => exact absurd .itself (h message)
  | _ => rfl

theorem errorFree_array_iff (items : List Value) :
    (array items).ErrorFree ↔ ∀ v ∈ items, v.ErrorFree := by
  refine ⟨fun h v hv message hinside => h message (.item hv hinside), fun h message hinside => ?_⟩
  cases hinside with
  | item mem inside => exact h _ mem message inside

theorem errorFree_hash_iff (entries : List (HashKey × Value)) :
    (hash entries).ErrorFree ↔ ∀ e ∈ entries, e.2.ErrorFree := by
  refine ⟨fun h e he message hinside => h message (.entry he hinside), fun h message hinside => ?_⟩
  cases hinside with
  | entry mem inside => exact h _ mem message inside

end Value

/-- To be no error and to hold none. -/
def Trait.errorFree : Trait where
  Has := Value.ErrorFree
  integer _ _ := nofun
  boolean _ _ := nofun
  string _ _ := nofun
  null _ := nofun
  function _ _ := nofun
  builtin _ _ := nofun
  array_iff := Value.errorFree_array_iff
  hash_nil := (Value.errorFree_hash_iff []).2 nofun
  hash_put := by
    intro entries v k hentries hv
    rw [Value.errorFree_hash_iff] at hentries ⊢
    intro e he
    obtain rfl | he := Entries.mem_put he
    · exact hv
    · exact hentries e he
  hash_get? := fun hentries hget =>
    (Value.errorFree_hash_iff _).1 hentries _ (Entries.mem_of_get? hget)

end Treewalk
