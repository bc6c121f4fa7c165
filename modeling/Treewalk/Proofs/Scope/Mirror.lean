import Treewalk.Proofs.Scope.Chains
import Treewalk.Proofs.Scope.Collection
import Treewalk.Proofs.Value.Alike

/-!
One store mirrors another. The scopes of a store have counterparts in its mirror
under other names; links, bindings and the scopes that functions have captured
agree up to that renaming. The mirror may hold scopes that the store has given up.
A store keeps its mirror when both are changed alike, and when scopes that nothing
refers to are freed on one side only.
-/

namespace Treewalk

section

variable {R S : Function → Function → Prop} {κ : Type}

mutual

/-- It is enough to compare the functions inside the value. -/
theorem Value.Alike.mono_of_holds {v w : Value} :
    Value.Alike R v w → (∀ f g, v.Holds f → R f g → S f g) → Value.Alike S v w
  | .integer n, _ => .integer n
  | .boolean b, _ => .boolean b
  | .string s, _ => .string s
  | .null, _ => .null
  | .array items, h =>
      .array (items.mono_of_holds fun _ f g mem inside => h f g (.item mem inside))
  | .hash keys values, h => by
      refine .hash keys (values.mono_of_holds fun v f g mem inside => h f g ?_)
      obtain ⟨⟨k, v'⟩, hmem, rfl⟩ := List.mem_map.1 mem
      exact .entry hmem inside
  | .function answers, h => .function (h _ _ (.itself _) answers)
  | .builtin b, _ => .builtin b
  | .error message, _ => .error message

theorem AlikeItems.mono_of_holds {vs ws : List Value} :
    AlikeItems R vs ws → (∀ v f g, v ∈ vs → v.Holds f → R f g → S f g) → AlikeItems S vs ws
  | .nil, _ => .nil
  | .cons head tail, h =>
      .cons (head.mono_of_holds fun f g inside => h _ f g List.mem_cons_self inside)
        (tail.mono_of_holds fun v f g mem inside => h v f g (List.mem_cons_of_mem _ mem) inside)

end

theorem AlikeEntries.mono_of_holds {es fs : List (κ × Value)} (h : AlikeEntries R es fs)
    (hRS : ∀ k v f g, (k, v) ∈ es → v.Holds f → R f g → S f g) : AlikeEntries S es fs := by
  refine ⟨h.1, h.2.mono_of_holds fun v f g mem inside => ?_⟩
  obtain ⟨⟨k, v'⟩, hmem, rfl⟩ := List.mem_map.1 mem
  exact hRS k v' f g hmem inside

theorem AlikeItems.exists_alike {vs ws : List Value} (h : AlikeItems R vs ws) {v : Value}
    (mem : v ∈ vs) : ∃ w ∈ ws, Value.Alike R v w := by
  cases h with
  | nil => cases mem
  | cons head tail =>
      cases mem with
      | head => exact ⟨_, List.mem_cons_self, head⟩
      | tail _ mem =>
          obtain ⟨w, hw, hvw⟩ := tail.exists_alike mem
          exact ⟨w, List.mem_cons_of_mem _ hw, hvw⟩

theorem Value.Alike.exists_answer {v w : Value} (h : Value.Alike R v w) {f : Function}
    (inside : v.Holds f) : ∃ g, R f g := by
  induction inside generalizing w with
  | itself f =>
      cases h with
      | function answers => exact ⟨_, answers⟩
  | item mem _ ih =>
      cases h with
      | array items =>
          obtain ⟨w, -, hvw⟩ := items.exists_alike mem
          exact ih hvw
  | entry mem _ ih =>
      cases h with
      | hash keys values =>
          obtain ⟨w, -, hvw⟩ := values.exists_alike (List.mem_map_of_mem mem)
          exact ih hvw

theorem AlikeEntries.exists_answer {es fs : List (κ × Value)} (h : AlikeEntries R es fs)
    {k : κ} {v : Value} (mem : (k, v) ∈ es) {f : Function} (inside : v.Holds f) :
    ∃ g, R f g := by
  obtain ⟨w, -, hvw⟩ := h.2.exists_alike (List.mem_map_of_mem (f := Prod.snd) mem)
  exact hvw.exists_answer inside

end

namespace Arena

/-- The second function is the first with its scope renamed, a scope that is pinned. -/
def CapturedAs (a : Arena) (rename : ScopeId → ScopeId) (f g : Function) : Prop :=
  a.Pinned f.scope ∧ g = { f with scope := rename f.scope }

/-- The store `b` mirrors the store `a`. -/
structure Mirrors (rename : ScopeId → ScopeId) (a b : Arena) : Prop where
  nested : a.Nested
  pinnedOutward : a.PinnedOutward
  mirror_nested : b.Nested
  injective : ∀ id other, a.contains id = true → a.contains other = true →
    rename id = rename other → id = other
  scope : ∀ id s, a.get? id = some s →
    ∃ t, b.get? (rename id) = some t ∧ t.outer = s.outer.map rename ∧
      AlikeEntries (a.CapturedAs rename) s.bindings t.bindings

namespace Mirrors

variable {rename : ScopeId → ScopeId} {a b : Arena}

theorem contains (h : Mirrors rename a b) {id : ScopeId} (hid : a.contains id = true) :
    b.contains (rename id) = true := by
  obtain ⟨s, hs⟩ := contains_iff.1 hid
  obtain ⟨t, ht, -⟩ := h.scope id s hs
  exact contains_iff.2 ⟨t, ht⟩

/-! Looking for a name. -/

inductive SameFind (R : Function → Function → Prop) : Lookup → Lookup → Prop where
  | found {v w : Value} (values : Value.Alike R v w) : SameFind R (.found v) (.found w)
  | unbound : SameFind R .unbound .unbound

theorem lookupFrom (h : Mirrors rename a b) (name : String) (n m : Nat) (id : ScopeId)
    (hid : a.contains id = true) {l l' : Lookup} (hl : a.lookupFrom name n id = some l)
    (hl' : b.lookupFrom name m (rename id) = some l') :
    SameFind (a.CapturedAs rename) l l' := by
  induction n generalizing id m with
  | zero => cases hl
  | succ n ih =>
      cases m with
      | zero => cases hl'
      | succ m =>
          obtain ⟨s, hs⟩ := contains_iff.1 hid
          obtain ⟨t, ht, houter, hbindings⟩ := h.scope id s hs
          obtain ⟨hn, hn'⟩ | ⟨v, w, hv, hw, hvw⟩ := hbindings.get? name
          · cases ho : s.outer with
            | none =>
                rw [ho] at houter
                rw [lookupFrom_outermost hs hn ho] at hl
                rw [lookupFrom_outermost ht hn' houter] at hl'
                cases hl
                cases hl'
                exact .unbound
            | some outer =>
                rw [ho] at houter
                rw [lookupFrom_outward hs hn ho] at hl
                rw [lookupFrom_outward ht hn' houter] at hl'
                exact ih m outer (h.nested.closed id s outer hs ho) hl hl'
          · rw [lookupFrom_bound hs hv] at hl
            rw [lookupFrom_bound ht hw] at hl'
            cases hl
            cases hl'
            exact .found hvw

theorem lookup (h : Mirrors rename a b) (name : String) {id : ScopeId}
    (hid : a.contains id = true) :
    SameFind (a.CapturedAs rename) (a.lookup id name) (b.lookup (rename id) name) := by
  obtain ⟨l, hl⟩ := h.nested.lookupFrom_isSome name id
  obtain ⟨l', hl'⟩ := h.mirror_nested.lookupFrom_isSome name (rename id)
  rw [Arena.lookup, Arena.lookup, hl, hl']
  exact h.lookupFrom name _ _ id hid hl hl'

/-! Changes on both sides. -/

theorem define (h : Mirrors rename a b) {id : ScopeId} (hid : a.contains id = true)
    (name : String) {v w : Value} (hvw : Value.Alike (a.CapturedAs rename) v w) :
    Mirrors rename (a.define id name v) (b.define (rename id) name w) := by
  have hmono : ∀ f g, a.CapturedAs rename f g → (a.define id name v).CapturedAs rename f g :=
    fun f g hfg => ⟨hfg.1.define id name v, hfg.2⟩
  refine ⟨h.nested.define .., h.pinnedOutward.define id name v, h.mirror_nested.define ..,
    fun x y hx hy => ?_, fun x s hs => ?_⟩
  · rw [contains_define] at hx hy
    exact h.injective x y hx hy
  · obtain ⟨before, hbefore, houter, -, hbindings⟩ := get?_of_get?_define hs
    obtain ⟨t, ht, htouter, htbindings⟩ := h.scope x before hbefore
    by_cases hx : x = id
    · subst hx
      rw [if_pos rfl] at hbindings
      refine ⟨{ t with bindings := t.bindings.put name w }, ?_, ?_, ?_⟩
      · rw [get?_define, if_pos rfl, ht]
        rfl
      · rw [houter]
        exact htouter
      · rw [hbindings]
        exact (htbindings.put name hvw).mono hmono
    · rw [if_neg hx] at hbindings
      have hne : rename x ≠ rename id := fun e =>
        hx (h.injective x id (contains_iff.2 ⟨before, hbefore⟩) hid e)
      refine ⟨t, by rw [get?_define, if_neg hne, ht], by rw [houter, htouter], ?_⟩
      rw [hbindings]
      exact htbindings.mono hmono

theorem pin (h : Mirrors rename a b) (id other : ScopeId) :
    Mirrors rename (a.pin id) (b.pin other) := by
  have hmore := pinsMore_pin id a
  refine ⟨h.nested.pin id, h.nested.pinnedOutward_pin h.pinnedOutward id,
    h.mirror_nested.pin other, fun x y hx hy => ?_, fun x s hs => ?_⟩
  · rw [contains_pin] at hx hy
    exact h.injective x y hx hy
  · obtain ⟨before, hbefore, hbindings, houter⟩ := hmore.get?_of_get? hs
    obtain ⟨t, ht, htouter, htbindings⟩ := h.scope x before hbefore
    obtain ⟨p, hp⟩ := pinsMore_pin other b (rename x)
    refine ⟨raisePin p t, by rw [hp, ht]; rfl, ?_, ?_⟩
    · rw [houter]
      exact htouter
    · rw [hbindings]
      exact htbindings.mono fun f g hfg => ⟨hmore.pinned hfg.1, hfg.2⟩

/-- A name for the new scopes beside the names there were. -/
def renameWith (rename : ScopeId → ScopeId) (id other : ScopeId) : ScopeId → ScopeId :=
  Function.update rename id other

theorem renameWith_self (rename : ScopeId → ScopeId) (id other : ScopeId) :
    renameWith rename id other id = other :=
  Function.update_self ..

theorem renameWith_of_ne (rename : ScopeId → ScopeId) {id x : ScopeId} (other : ScopeId)
    (h : x ≠ id) : renameWith rename id other x = rename x :=
  Function.update_of_ne h ..

theorem alloc (h : Mirrors rename a b) {outer : ScopeId} (houter : a.contains outer = true) :
    Mirrors (renameWith rename (a.alloc (some outer)).1 (b.alloc (some (rename outer))).1)
      (a.alloc (some outer)).2 (b.alloc (some (rename outer))).2 := by
  have hget := get?_alloc h.nested.consistent (some outer)
  have hfresh := get?_alloc_self_before h.nested.consistent (some outer)
  have hnested := h.nested.alloc (some outer) (by simpa using houter)
  have hpinned := h.pinnedOutward.alloc h.nested.consistent (some outer)
  have hmget := get?_alloc h.mirror_nested.consistent (some (rename outer))
  have hmfresh := get?_alloc_self_before h.mirror_nested.consistent (some (rename outer))
  have hmnested := h.mirror_nested.alloc (some (rename outer)) (by simpa using h.contains houter)
  generalize a.alloc (some outer) = made at *
  generalize b.alloc (some (rename outer)) = mirrored at *
  obtain ⟨new, a'⟩ := made
  obtain ⟨mnew, b'⟩ := mirrored
  dsimp only at *
  have hold : ∀ id, a.contains id = true → id ≠ new := by
    rintro id hid rfl
    simp [Arena.contains, hfresh] at hid
  have hmold : ∀ id, b.contains id = true → id ≠ mnew := by
    rintro id hid rfl
    simp [Arena.contains, hmfresh] at hid
  have hname : ∀ id, a.contains id = true → renameWith rename new mnew id = rename id :=
    fun id hid => renameWith_of_ne rename mnew (hold id hid)
  have hself : renameWith rename new mnew new = mnew := renameWith_self ..
  have hlives : ∀ id, a'.contains id = true → id = new ∨ a.contains id = true := by
    intro id hid
    rw [Arena.contains, hget] at hid
    split at hid
    · exact .inl ‹_›
    · exact .inr hid
  refine ⟨hnested, hpinned, hmnested, fun x y hx hy e => ?_, fun x s hs => ?_⟩
  · obtain rfl | hx := hlives x hx
    · obtain rfl | hy := hlives y hy
      · rfl
      · rw [hself, hname y hy] at e
        exact absurd e.symm (hmold _ (h.contains hy))
    · obtain rfl | hy := hlives y hy
      · rw [hself, hname x hx] at e
        exact absurd e (hmold _ (h.contains hx))
      · rw [hname x hx, hname y hy] at e
        exact h.injective x y hx hy e
  · rw [hget] at hs
    split at hs
    · rename_i hx
      subst hx
      cases hs
      refine ⟨_, by rw [hself, hmget, if_pos rfl], ?_, .nil⟩
      simp [hname outer houter]
    · have hx : a.contains x = true := contains_iff.2 ⟨s, hs⟩
      obtain ⟨t, ht, htouter, htbindings⟩ := h.scope x s hs
      refine ⟨t, ?_, ?_, htbindings.mono fun f g hfg => ⟨?_, ?_⟩⟩
      · rw [hname x hx, hmget, if_neg (hmold _ (h.contains hx)), ht]
      · rw [htouter]
        cases ho : s.outer with
        | none => rfl
        | some o => simp [hname o (h.nested.closed x s o hs ho)]
      · obtain ⟨c, hc, hcp⟩ := hfg.1
        exact ⟨c, by rw [hget, if_neg (hold _ hfg.1.lives), hc], hcp⟩
      · rw [hfg.2, hname _ hfg.1.lives]

/-! Freeing on one side. -/

/-- Scopes may be freed that no remaining scope refers to. -/
theorem restrict (h : Mirrors rename a b) {a' : Arena} (ha' : a'.Consistent)
    (hsub : ∀ id s, a'.get? id = some s → a.get? id = some s)
    (hkeeps : ∀ id, a'.contains id = true → ∀ s, a.get? id = some s →
      (∀ outer, s.outer = some outer → a'.contains outer = true) ∧
      ∀ name v f, (name, v) ∈ s.bindings → v.Holds f → a'.contains f.scope = true) :
    Mirrors rename a' b := by
  have hlives : ∀ id, a'.contains id = true → a.contains id = true := fun id hid => by
    obtain ⟨s, hs⟩ := contains_iff.1 hid
    exact contains_iff.2 ⟨s, hsub id s hs⟩
  have hpinned : ∀ id, a.Pinned id → a'.contains id = true → a'.Pinned id := by
    rintro id ⟨s, hs, hp⟩ hid
    obtain ⟨s', hs'⟩ := contains_iff.1 hid
    obtain rfl : s' = s := Option.some.inj ((hsub id s' hs').symm.trans hs)
    exact ⟨s', hs', hp⟩
  have hcontains : ∀ id s, a'.get? id = some s → a'.contains id = true :=
    fun id s hs => contains_iff.2 ⟨s, hs⟩
  refine ⟨?_, fun id s outer hs hp ho => ?_, h.mirror_nested,
    fun x y hx hy => h.injective x y (hlives x hx) (hlives y hy), fun id s hs => ?_⟩
  · refine h.nested.of_links ha' (fun id s hs => ⟨s, hsub id s hs, rfl⟩) fun id s outer hs ho => ?_
    exact (hkeeps id (hcontains id s hs) s (hsub id s hs)).1 outer ho
  · exact hpinned outer (h.pinnedOutward id s outer (hsub id s hs) hp ho)
      ((hkeeps id (hcontains id s hs) s (hsub id s hs)).1 outer ho)
  · obtain ⟨t, ht, htouter, htbindings⟩ := h.scope id s (hsub id s hs)
    refine ⟨t, ht, htouter, htbindings.mono_of_holds fun name v f g mem inside hfg => ?_⟩
    exact ⟨hpinned f.scope hfg.1
      ((hkeeps id (hcontains id s hs) s (hsub id s hs)).2 name v f mem inside), hfg.2⟩

/-- A collection on one side leaves the mirror a mirror. -/
theorem collect (h : Mirrors rename a b) (scopes : List ScopeId) (values : List Value) :
    Mirrors rename (a.collect scopes values).2 b := by
  have hcontains := contains_collect_iff h.nested.consistent scopes values
  refine h.restrict (consistent_collect h.nested.consistent ..) (fun id s hs => ?_)
    fun id hid s hs => ⟨fun outer ho => ?_, fun name v f mem inside => ?_⟩
  · rw [← get?_collect h.nested.consistent ((hcontains id).1 (contains_iff.2 ⟨s, hs⟩)), hs]
  · exact (hcontains outer).2
      (.outer ((hcontains id).1 hid) hs ho (h.nested.closed id s outer hs ho))
  · obtain ⟨t, -, -, hbindings⟩ := h.scope id s hs
    obtain ⟨g, hfg⟩ := hbindings.exists_answer mem inside
    exact (hcontains f.scope).2 (.captured ((hcontains id).1 hid) hs mem inside hfg.1.lives)

end Mirrors
end Arena
end Treewalk
