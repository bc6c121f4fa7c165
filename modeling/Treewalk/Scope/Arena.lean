import Treewalk.Value

/-!
The store of scopes. Scopes live in slots that are used again; a slot counts its
generations, so that the name of a scope that is gone is told apart from the
name of its successor in the same slot. A scope that a function has captured is
pinned, together with the scopes around it, and is not freed when it is left. The
main statements say that binding and pinning reach the scope that is named and
neither make nor free a scope.
-/

namespace Treewalk

/-- A scope: its bindings, the scope around it, and whether a function has
captured it or a scope inside it. -/
structure Scope where
  bindings : Entries String Value
  outer : Option ScopeId
  pinned : Bool

/-- A place for scopes, one after another. -/
structure Slot where
  /-- the number of scopes freed here so far -/
  generation : Nat
  /-- the scope that lives here now -/
  scope : Option Scope

/-- The slots, the vacant ones among them with the next to be used first, and
the number of scopes that live. -/
structure Arena where
  slots : Array Slot
  free : List Nat
  live : Nat

/-- What looking for a name can come to. -/
inductive Lookup where
  | found (value : Value)
  | unbound
  /-- one of the scopes on the way is gone -/
  | dangling

namespace Arena

def empty : Arena := ⟨#[], [], 0⟩

/-- The scope of that name, if it lives. -/
def get? (id : ScopeId) (a : Arena) : Option Scope :=
  match a.slots[id.index]? with
  | some slot => if slot.generation = id.generation then slot.scope else none
  | none => none

def contains (id : ScopeId) (a : Arena) : Bool :=
  (a.get? id).isSome

/-- Change the scope of that name, if it lives. -/
def update (id : ScopeId) (f : Scope → Scope) (a : Arena) : Arena :=
  { a with
    slots := a.slots.modify id.index fun slot =>
      if slot.generation = id.generation then
        { slot with scope := slot.scope.map f }
      else slot }

/-- Make an empty scope inside another. It takes the slot vacated last. -/
def alloc (outer : Option ScopeId) (a : Arena) : ScopeId × Arena :=
  let scope : Scope := ⟨[], outer, false⟩
  match a.free with
  | [] => (⟨a.slots.size, 0⟩, ⟨a.slots.push ⟨0, some scope⟩, [], a.live + 1⟩)
  | i :: free =>
      let generation := (a.slots[i]?.map Slot.generation).getD 0
      (⟨i, generation⟩,
        ⟨a.slots.modify i fun slot => { slot with scope := some scope }, free, a.live + 1⟩)

/-- Empty a slot; its next scope is of the next generation. -/
def vacate (i : Nat) (a : Arena) : Arena :=
  if (a.slots[i]?.bind Slot.scope).isSome then
    ⟨a.slots.modify i fun slot => ⟨slot.generation + 1, none⟩, i :: a.free, a.live - 1⟩
  else a

/-- Free a scope that is left, unless it is pinned. -/
def release (id : ScopeId) (a : Arena) : Arena :=
  match a.get? id with
  | some scope => if scope.pinned then a else a.vacate id.index
  | none => a

/-- Bind a name in a scope, in place of what it was bound to there. -/
def define (id : ScopeId) (name : String) (value : Value) (a : Arena) : Arena :=
  a.update id fun scope => { scope with bindings := scope.bindings.put name value }

/-- Look for a name in a scope and outward through at most so many scopes. -/
def lookupFrom (name : String) (a : Arena) : Nat → ScopeId → Option Lookup
  | 0, _ => none
  | n + 1, id =>
      match a.get? id with
      | none => some .dangling
      | some scope =>
          match scope.bindings.get? name, scope.outer with
          | some value, _ => some (.found value)
          | none, none => some .unbound
          | none, some outer => lookupFrom name a n outer

/-- Look for a name in a scope and outward. A chain of scopes is no longer than
the number of scopes that live, but for one that is gone. -/
def lookup (id : ScopeId) (name : String) (a : Arena) : Lookup :=
  (lookupFrom name a (a.live + 1) id).getD .unbound

/-- Pin a scope and those around it, at most so many. -/
def pinFrom : Nat → ScopeId → Arena → Arena
  | 0, _, a => a
  | n + 1, id, a =>
      match a.get? id with
      | none => a
      | some scope =>
          if scope.pinned then a
          else
            let pinned := a.update id fun scope => { scope with pinned := true }
            match scope.outer with
            | none => pinned
            | some outer => pinFrom n outer pinned

/-- Pin a scope and those around it. A scope that is pinned already ends the
walk, since those around it are pinned too. -/
def pin (id : ScopeId) (a : Arena) : Arena :=
  pinFrom (a.live + 1) id a

@[simp] theorem live_update (id : ScopeId) (f : Scope → Scope) (a : Arena) :
    (a.update id f).live = a.live := rfl

theorem get?_update (id other : ScopeId) (f : Scope → Scope) (a : Arena) :
    (a.update id f).get? other =
      if other = id then (a.get? id).map f else a.get? other := by
  obtain ⟨i, g⟩ := id
  obtain ⟨j, h⟩ := other
  simp only [get?, update, Array.getElem?_modify, ScopeId.mk.injEq]
  by_cases hij : i = j
  · subst hij
    cases a.slots[i]? with
    | none => simp
    | some slot =>
        by_cases hg : slot.generation = g
        · subst hg
          by_cases hh : slot.generation = h
          · simp [hh]
          · simp [hh, Ne.symm hh]
        · simp only [if_true, Option.map_some, hg, if_false, true_and]
          by_cases hh : slot.generation = h
          · subst hh
            simp [hg]
          · simp [hh]
  · simp [hij, Ne.symm hij]

@[simp] theorem contains_update (id other : ScopeId) (f : Scope → Scope) (a : Arena) :
    (a.update id f).contains other = a.contains other := by
  simp only [contains, get?_update]
  split
  · rename_i h
    simp [h]
  · rfl

@[simp] theorem contains_define (id other : ScopeId) (name : String) (value : Value)
    (a : Arena) : (a.define id name value).contains other = a.contains other :=
  contains_update ..

theorem contains_pinFrom (other : ScopeId) (n : Nat) (id : ScopeId) (a : Arena) :
    (pinFrom n id a).contains other = a.contains other := by
  induction n generalizing id a with
  | zero => rfl
  | succ n ih =>
      rw [pinFrom]
      split
      · rfl
      · split
        · rfl
        · dsimp only
          split <;> simp [ih]

@[simp] theorem contains_pin (id other : ScopeId) (a : Arena) :
    (a.pin id).contains other = a.contains other :=
  contains_pinFrom ..

end Arena
end Treewalk
