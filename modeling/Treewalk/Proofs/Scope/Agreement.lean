import Treewalk.Proofs.Scope.Links
import Treewalk.Proofs.Scope.Mirror
import Treewalk.Proofs.Scope.Shape

/-!
Stores that agree outside a set of scopes. They have one shape, and in the scopes outside
the set they bind the same; and nothing outside the set leads into it, neither a link nor
a function that is bound. When both are changed alike outside the set they agree again,
and a name that is looked for from outside the set is found alike.
-/

namespace Treewalk

section

variable {R : Function → Function → Prop} {κ : Type}

mutual

theorem Value.Alike.eq {v w : Value} (hR : ∀ f g, R f g → f = g) : Value.Alike R v w → v = w
  | .integer _ | .boolean _ | .string _ | .null | .builtin _ | .error _ => rfl
  | .array items => by rw [items.eq hR]
  | .hash keys values => by
      rw [List.zip_of_prod keys (values.eq hR), ← List.zip_of_prod rfl rfl]
  | .function answers => by rw [hR _ _ answers]

theorem AlikeItems.eq {vs ws : List Value} (hR : ∀ f g, R f g → f = g) :
    AlikeItems R vs ws → vs = ws
  | .nil => rfl
  | .cons head tail => by rw [head.eq hR, tail.eq hR]

end

mutual

theorem Value.Alike.refl_of_holds : (v : Value) → (∀ f, v.Holds f → R f f) → Value.Alike R v v
  | .integer n, _ => .integer n
  | .boolean b, _ => .boolean b
  | .string s, _ => .string s
  | .null, _ => .null
  | .array items, h =>
      .array (AlikeItems.refl_of_holds items fun _ mem f inside => h f (.item mem inside))
  | .hash entries, h =>
      .hash rfl (entries_refl entries fun _ _ mem f inside => h f (.entry mem inside))
  | .function f, h => .function (h f (.itself f))
  | .builtin b, _ => .builtin b
  | .error message, _ => .error message

theorem AlikeItems.refl_of_holds : (vs : List Value) → (∀ v ∈ vs, ∀ f, v.Holds f → R f f) →
    AlikeItems R vs vs
  | [], _ => .nil
  | v :: vs, h =>
      .cons (Value.Alike.refl_of_holds v (h v List.mem_cons_self))
        (AlikeItems.refl_of_holds vs fun w mem => h w (List.mem_cons_of_mem _ mem))

theorem entries_refl : (es : List (HashKey × Value)) →
    (∀ k v, (k, v) ∈ es → ∀ f, v.Holds f → R f f) →
    AlikeItems R (es.map Prod.snd) (es.map Prod.snd)
  | [], _ => .nil
  | (k, v) :: es, h =>
      .cons (Value.Alike.refl_of_holds v (h k v List.mem_cons_self))
        (entries_refl es fun k w mem => h k w (List.mem_cons_of_mem _ mem))

end

end

/-- Scopes inside the same scope, pinned alike, in which the same names are bound to the same
values, in whatever order they were bound first. -/
structure Scope.Same (s t : Scope) : Prop where
  outer_eq : t.outer = s.outer
  pinned_eq : t.pinned = s.pinned
  get?_eq : ∀ name, t.bindings.get? name = s.bindings.get? name

/-- The same scope lives in one place of two stores, or in neither of them. -/
def Arena.SameAt (a b : Arena) (id : ScopeId) : Prop :=
  Option.Rel Scope.Same (a.get? id) (b.get? id)

/-- One function, that has captured no scope of the set. -/
def Function.OutsideOf (secret : ScopeId → Prop) (f g : Function) : Prop :=
  f = g ∧ ¬ secret f.scope

namespace Arena

/-- Stores of one shape that bind the same outside of a set of scopes, into which nothing
outside of it leads. -/
structure AgreeOutside (secret : ScopeId → Prop) (a b : Arena) : Prop where
  shape_eq : a.shape = b.shape
  consistent : a.Consistent
  secret_lives : ∀ id, secret id → a.contains id = true
  outer_outside : ∀ id s outer, ¬ secret id → a.get? id = some s → s.outer = some outer →
    ¬ secret outer
  get?_eq : ∀ id s t, ¬ secret id → a.get? id = some s → b.get? id = some t → ∀ name,
    t.bindings.get? name = s.bindings.get? name
  bound_outside : ∀ id s name v, ¬ secret id → a.get? id = some s →
    s.bindings.get? name = some v → Value.Alike (Function.OutsideOf secret) v v

namespace AgreeOutside

variable {secret : ScopeId → Prop} {a b : Arena}

theorem mirror_consistent (h : AgreeOutside secret a b) : b.Consistent :=
  h.consistent.of_shape h.shape_eq

/-- The scopes in one place of both stores differ in their bindings at most. -/
theorem exists_get? (h : AgreeOutside secret a b) {id : ScopeId} {s : Scope}
    (hs : a.get? id = some s) :
    ∃ t, b.get? id = some t ∧ t.outer = s.outer ∧ t.pinned = s.pinned := by
  have hshape := congrArg (get? id) h.shape_eq
  rw [get?_shape, get?_shape, hs] at hshape
  obtain ⟨t, ht, hts⟩ := Option.map_eq_some_iff.1 hshape.symm
  exact ⟨t, ht, (Scope.mk.inj hts).2⟩

theorem get?_eq_none (h : AgreeOutside secret a b) {id : ScopeId} (hs : a.get? id = none) :
    b.get? id = none := by
  have hshape := congrArg (get? id) h.shape_eq
  rw [get?_shape, get?_shape, hs] at hshape
  exact Option.map_eq_none_iff.1 hshape.symm

theorem sameAt (h : AgreeOutside secret a b) {id : ScopeId} (hid : ¬ secret id) :
    SameAt a b id := by
  rw [SameAt]
  cases hs : a.get? id with
  | none =>
      rw [h.get?_eq_none hs]
      exact .none
  | some s =>
      obtain ⟨t, ht, houter, hpinned⟩ := h.exists_get? hs
      rw [ht]
      exact .some ⟨houter, hpinned, h.get?_eq id s t hid hs ht⟩

theorem not_secret_alloc (h : AgreeOutside secret a b) (outer : Option ScopeId) :
    ¬ secret (a.alloc outer).1 := by
  intro hsecret
  have hlives := h.secret_lives _ hsecret
  rw [contains, get?_alloc_self_before h.consistent] at hlives
  cases hlives

/-! Looking for a name. -/

theorem lookupFrom (h : AgreeOutside secret a b) (name : String) (n : Nat) {id : ScopeId}
    (hid : ¬ secret id) :
    b.lookupFrom name n id = a.lookupFrom name n id ∧
      ∀ v, a.lookupFrom name n id = some (.found v) →
        Value.Alike (Function.OutsideOf secret) v v := by
  induction n generalizing id with
  | zero => exact ⟨rfl, nofun⟩
  | succ n ih =>
      cases hs : a.get? id with
      | none =>
          rw [lookupFrom_gone hs, lookupFrom_gone (h.get?_eq_none hs)]
          exact ⟨rfl, nofun⟩
      | some s =>
          obtain ⟨t, ht, houter, -⟩ := h.exists_get? hs
          have hsame := h.get?_eq id s t hid hs ht name
          cases hv : s.bindings.get? name with
          | some v =>
              rw [lookupFrom_bound hs hv, lookupFrom_bound ht (hsame.trans hv)]
              refine ⟨rfl, fun w hw => ?_⟩
              cases hw
              exact h.bound_outside id s name v hid hs hv
          | none =>
              have hv' := hsame.trans hv
              cases ho : s.outer with
              | none =>
                  rw [lookupFrom_outermost hs hv ho,
                    lookupFrom_outermost ht hv' (houter.trans ho)]
                  exact ⟨rfl, nofun⟩
              | some outer =>
                  rw [lookupFrom_outward hs hv ho, lookupFrom_outward ht hv' (houter.trans ho)]
                  exact ih (h.outer_outside id s outer hid hs ho)

theorem lookup (h : AgreeOutside secret a b) (name : String) {id : ScopeId}
    (hid : ¬ secret id) :
    b.lookup id name = a.lookup id name ∧
      ∀ v, a.lookup id name = .found v → Value.Alike (Function.OutsideOf secret) v v := by
  obtain ⟨hsame, hfound⟩ := h.lookupFrom name (a.live + 1) hid
  rw [Arena.lookup, Arena.lookup, ← live_eq_of_shape h.shape_eq, hsame]
  refine ⟨rfl, fun v hv => hfound v ?_⟩
  cases hl : a.lookupFrom name (a.live + 1) id with
  | none => rw [hl] at hv; cases hv
  | some l => rw [hl] at hv; exact congrArg some hv

/-! Changes outside of the set. -/

/-- Names that are looked up alike still are when one of them is bound. -/
theorem get?_put_eq {es fs : List (String × Value)} (name : String) (v : Value)
    (h : ∀ x, Entries.get? x fs = Entries.get? x es) (x : String) :
    (Entries.put name v fs).get? x = (Entries.put name v es).get? x := by
  by_cases hx : x = name
  · rw [hx, Entries.get?_put_self, Entries.get?_put_self]
  · rw [Entries.get?_put_of_ne hx, Entries.get?_put_of_ne hx, h]

theorem define (h : AgreeOutside secret a b) (id : ScopeId) (name : String) {v : Value}
    (hv : Value.Alike (Function.OutsideOf secret) v v) :
    AgreeOutside secret (a.define id name v) (b.define id name v) := by
  refine ⟨?_, consistent_define h.consistent .., fun x hx => ?_, fun x s outer hx hs ho => ?_,
    fun x s t hx hs ht => ?_, fun x s y w hx hs hw => ?_⟩
  · rw [shape_define, shape_define, h.shape_eq]
  · rw [contains_define]
    exact h.secret_lives x hx
  · obtain ⟨before, hbefore, houter, -⟩ := get?_of_get?_define hs
    exact h.outer_outside x before outer hx hbefore (houter ▸ ho)
  · obtain ⟨s', hs', -, -, hsbindings⟩ := get?_of_get?_define hs
    obtain ⟨t', ht', -, -, htbindings⟩ := get?_of_get?_define ht
    have hsame := h.get?_eq x s' t' hx hs' ht'
    rw [hsbindings, htbindings]
    split
    · exact get?_put_eq name v hsame
    · exact hsame
  · obtain ⟨s', hs', -, -, hsbindings⟩ := get?_of_get?_define hs
    rw [hsbindings] at hw
    split at hw
    · by_cases hy : y = name
      · rw [hy, Entries.get?_put_self] at hw
        cases hw
        exact hv
      · rw [Entries.get?_put_of_ne hy] at hw
        exact h.bound_outside x s' y w hx hs' hw
    · exact h.bound_outside x s' y w hx hs' hw

theorem pin (h : AgreeOutside secret a b) (id : ScopeId) :
    AgreeOutside secret (a.pin id) (b.pin id) := by
  refine ⟨?_, consistent_pin h.consistent id, fun x hx => ?_, fun x s outer hx hs ho => ?_,
    fun x s t hx hs ht => ?_, fun x s name v hx hs hv => ?_⟩
  · rw [shape_pin, shape_pin, h.shape_eq]
  · rw [contains_pin]
    exact h.secret_lives x hx
  · obtain ⟨before, hbefore, -, houter⟩ := (pinsMore_pin id a).get?_of_get? hs
    exact h.outer_outside x before outer hx hbefore (houter ▸ ho)
  · obtain ⟨s', hs', hsbindings, -⟩ := (pinsMore_pin id a).get?_of_get? hs
    obtain ⟨t', ht', htbindings, -⟩ := (pinsMore_pin id b).get?_of_get? ht
    rw [hsbindings, htbindings]
    exact h.get?_eq x s' t' hx hs' ht'
  · obtain ⟨s', hs', hsbindings, -⟩ := (pinsMore_pin id a).get?_of_get? hs
    exact h.bound_outside x s' name v hx hs' (hsbindings ▸ hv)

theorem alloc_eq (h : AgreeOutside secret a b) (outer : Option ScopeId) :
    (a.alloc outer).1 = (b.alloc outer).1 ∧
      (a.alloc outer).2.shape = (b.alloc outer).2.shape := by
  have halloc := alloc_shape outer a
  rw [h.shape_eq, alloc_shape] at halloc
  exact ⟨(congrArg Prod.fst halloc).symm, (congrArg Prod.snd halloc).symm⟩

theorem alloc (h : AgreeOutside secret a b) (outer : Option ScopeId)
    (houter : ∀ o, outer = some o → ¬ secret o) :
    AgreeOutside secret (a.alloc outer).2 (b.alloc outer).2 := by
  obtain ⟨hname, hshape⟩ := h.alloc_eq outer
  refine ⟨hshape, consistent_alloc h.consistent outer, fun x hx => ?_,
    fun x s o hx hs ho => ?_, fun x s t hx hs ht => ?_, fun x s name v hx hs hv => ?_⟩
  · exact (contains_alloc h.consistent outer).2 (.inr (h.secret_lives x hx))
  · rw [get?_alloc h.consistent] at hs
    split at hs
    · cases hs
      exact houter o ho
    · exact h.outer_outside x s o hx hs ho
  · rw [get?_alloc h.consistent] at hs
    rw [get?_alloc h.mirror_consistent, ← hname] at ht
    split at hs
    · rename_i hself
      rw [if_pos hself] at ht
      cases hs
      cases ht
      exact fun _ => rfl
    · rename_i hold
      rw [if_neg hold] at ht
      exact h.get?_eq x s t hx hs ht
  · rw [get?_alloc h.consistent] at hs
    split at hs
    · cases hs
      cases hv
    · exact h.bound_outside x s name v hx hs hv

theorem release (h : AgreeOutside secret a b) {id : ScopeId} (hid : ¬ secret id) :
    AgreeOutside secret (a.release id) (b.release id) := by
  refine ⟨?_, consistent_release h.consistent id, fun x hx => ?_, fun x s outer hx hs ho => ?_,
    fun x s t hx hs ht => ?_, fun x s name v hx hs hv => ?_⟩
  · rw [shape_release, shape_release, h.shape_eq]
  · have hne : x ≠ id := fun e => hid (e ▸ hx)
    rw [contains, get?_release, if_neg fun e => hne e.1]
    exact h.secret_lives x hx
  · exact h.outer_outside x s outer hx (get?_of_get?_release hs) ho
  · exact h.get?_eq x s t hx (get?_of_get?_release hs) (get?_of_get?_release ht)
  · exact h.bound_outside x s name v hx (get?_of_get?_release hs) hv

end AgreeOutside
end Arena
end Treewalk
