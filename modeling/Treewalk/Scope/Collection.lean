import Treewalk.Scope.Arena

/-!
Reclaiming scopes. A scope is kept if it is a root, if it is around a scope that
is kept, or if a function that is bound in a kept scope, or held by a root
value, has captured it; arrays and hashes are searched for functions. All other
scopes are freed, in the order of their slots.
-/

namespace Treewalk

mutual

/-- The scopes captured by the functions inside a value. -/
def Value.scopes : Value → List ScopeId
  | .function f => [f.scope]
  | .array items => itemScopes items
  | .hash entries => entryScopes entries
  | _ => []
termination_by structural v => v

def itemScopes : List Value → List ScopeId
  | [] => []
  | v :: vs => v.scopes ++ itemScopes vs
termination_by structural vs => vs

/-- The scopes captured by the functions inside the values of a hash. -/
def entryScopes : List (HashKey × Value) → List ScopeId
  | [] => []
  | (_, v) :: es => v.scopes ++ entryScopes es
termination_by structural es => es

end

namespace Scope

/-- The scopes that a scope leads to: the one around it, and those captured by
the functions bound in it. -/
def references (s : Scope) : List ScopeId :=
  s.outer.toList ++ itemScopes (s.bindings.map Prod.snd)

end Scope

namespace Arena

theorem count_false_set_lt (marked : Array Bool) (i : Nat) (h : marked[i]? = some false) :
    (marked.setIfInBounds i true).count false < marked.count false := by
  obtain ⟨hi, hv⟩ := Array.getElem?_eq_some_iff.1 h
  have hpos : 0 < marked.count false :=
    Array.count_pos_iff.2 (hv ▸ Array.getElem_mem hi)
  have hold : (marked[i] == false) = true := by rw [hv]; rfl
  have hnew : ¬(true == false) = true := by decide
  rw [Array.setIfInBounds, dif_pos hi, Array.count_set, if_pos hold, if_neg hnew]
  exact Nat.sub_lt hpos Nat.one_pos

/-- Mark the slots of the scopes that the listed ones lead to. -/
def markFrom (a : Arena) (marked : Array Bool) : List ScopeId → Array Bool
  | [] => marked
  | id :: work =>
      match a.get? id with
      | none => markFrom a marked work
      | some scope =>
          if _h : marked[id.index]? = some false then
            markFrom a (marked.setIfInBounds id.index true) (scope.references ++ work)
          else markFrom a marked work
termination_by work => (marked.count false, work.length)
decreasing_by
  · exact Prod.Lex.right _ (Nat.lt_succ_self _)
  · exact Prod.Lex.left _ _ (count_false_set_lt marked id.index (by assumption))
  · exact Prod.Lex.right _ (Nat.lt_succ_self _)

/-- The marks of all slots whose scopes the given roots lead to. -/
def reached (scopes : List ScopeId) (values : List Value) (a : Arena) : Array Bool :=
  markFrom a (Array.replicate a.slots.size false) (itemScopes values ++ scopes)

/-- Empty a slot that is not marked, and count it if a scope lived there. -/
def sweepSlot (marked : Array Bool) (swept : Nat × Arena) (i : Nat) : Nat × Arena :=
  if marked[i]? = some true then swept
  else if (swept.2.slots[i]?.bind Slot.scope).isSome then
    (swept.1 + 1, swept.2.vacate i)
  else swept

/-- Free every scope that the given roots do not lead to, and count them. -/
def collect (scopes : List ScopeId) (values : List Value) (a : Arena) : Nat × Arena :=
  (List.range a.slots.size).foldl (sweepSlot (a.reached scopes values)) (0, a)

end Arena
end Treewalk
