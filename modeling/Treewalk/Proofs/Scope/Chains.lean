import Mathlib.Data.Finset.Card
import Treewalk.Proofs.Scope.Slots

/-!
Chains of scopes. A height that falls along the links shows that no chain comes back
to itself. A chain is then no longer than the number of scopes, so that looking for a
name and pinning come to the end of it. While scopes are entered from scopes that
live, every scope lies in one that lives.
-/

namespace Treewalk
namespace Arena

/-- A scope that lives and that a function has captured. -/
def Pinned (a : Arena) (id : ScopeId) : Prop :=
  ∃ scope, a.get? id = some scope ∧ scope.pinned = true

theorem Pinned.lives {a : Arena} {id : ScopeId} (h : a.Pinned id) : a.contains id = true := by
  obtain ⟨scope, hs, -⟩ := h
  exact contains_iff.2 ⟨scope, hs⟩

/-- The heights fall along the links between scopes. -/
def FallsOutward (a : Arena) (height : ScopeId → Nat) : Prop :=
  ∀ id scope outer, a.get? id = some scope → scope.outer = some outer →
    height outer < height id

/-- Every scope lies in scopes that live, up to one that lies in none. -/
structure Nested (a : Arena) : Prop where
  consistent : a.Consistent
  closed : ∀ id scope outer, a.get? id = some scope → scope.outer = some outer →
    a.contains outer = true
  grounded : ∃ height, a.FallsOutward height

/-- The scope around a pinned scope is pinned. -/
def PinnedOutward (a : Arena) : Prop :=
  ∀ id scope outer, a.get? id = some scope → scope.pinned = true →
    scope.outer = some outer → a.Pinned outer

/-- The scopes no higher than a given one. -/
def upTo (a : Arena) (height : ScopeId → Nat) (id : ScopeId) : Finset ScopeId :=
  a.liveIds.filter fun other => height other ≤ height id

variable {a : Arena} {height : ScopeId → Nat} {id : ScopeId}

theorem card_upTo_le (a : Arena) (height : ScopeId → Nat) (id : ScopeId) :
    (a.upTo height id).card ≤ a.liveIds.card :=
  Finset.card_filter_le ..

theorem card_upTo_pos (height : ScopeId → Nat) (h : a.contains id = true) :
    0 < (a.upTo height id).card :=
  Finset.card_pos.2 ⟨id, Finset.mem_filter.2 ⟨mem_liveIds.2 h, Nat.le_refl _⟩⟩

theorem card_upTo_lt (hfalls : a.FallsOutward height) {scope : Scope} {outer : ScopeId}
    (hs : a.get? id = some scope) (ho : scope.outer = some outer) :
    (a.upTo height outer).card < (a.upTo height id).card := by
  have hlt := hfalls id scope outer hs ho
  apply Finset.card_lt_card
  rw [Finset.ssubset_iff_of_subset]
  · refine ⟨id, Finset.mem_filter.2 ⟨mem_liveIds.2 (contains_iff.2 ⟨scope, hs⟩), Nat.le_refl _⟩, ?_⟩
    intro h
    have := (Finset.mem_filter.1 h).2
    omega
  · intro x hx
    obtain ⟨hlive, hle⟩ := Finset.mem_filter.1 hx
    exact Finset.mem_filter.2 ⟨hlive, by omega⟩

theorem upTo_eq_of_liveIds {b : Arena} (h : a.liveIds = b.liveIds) :
    a.upTo height id = b.upTo height id := by
  rw [upTo, upTo, h]

/-! One step of looking for a name. -/

section Looking

variable {name : String} {n : Nat} {scope : Scope}

theorem lookupFrom_gone (hs : a.get? id = none) :
    a.lookupFrom name (n + 1) id = some .dangling := by
  rw [lookupFrom, hs]

theorem lookupFrom_bound (hs : a.get? id = some scope) {value : Value}
    (hv : scope.bindings.get? name = some value) :
    a.lookupFrom name (n + 1) id = some (.found value) := by
  simp only [lookupFrom, hs, hv]

theorem lookupFrom_outermost (hs : a.get? id = some scope)
    (hv : scope.bindings.get? name = none) (ho : scope.outer = none) :
    a.lookupFrom name (n + 1) id = some .unbound := by
  simp only [lookupFrom, hs, hv, ho]

theorem lookupFrom_outward (hs : a.get? id = some scope)
    (hv : scope.bindings.get? name = none) {outer : ScopeId} (ho : scope.outer = some outer) :
    a.lookupFrom name (n + 1) id = a.lookupFrom name n outer := by
  simp only [lookupFrom, hs, hv, ho]

end Looking

theorem lookupFrom_isSome (hfalls : a.FallsOutward height) (name : String) (n : Nat)
    (id : ScopeId) (hn : (a.upTo height id).card < n) :
    ∃ result, a.lookupFrom name n id = some result := by
  induction n generalizing id with
  | zero => omega
  | succ n ih =>
      rw [lookupFrom]
      split
      · exact ⟨_, rfl⟩
      · rename_i scope hs
        split
        · exact ⟨_, rfl⟩
        · exact ⟨_, rfl⟩
        · rename_i outer _ ho
          have hlt := card_upTo_lt hfalls hs ho
          exact ih outer (by omega)

/-- Looking for a name comes to the end of the chain. -/
theorem lookupFrom_live_isSome (hc : a.Consistent) (hfalls : a.FallsOutward height)
    (name : String) (id : ScopeId) :
    ∃ result, a.lookupFrom name (a.live + 1) id = some result := by
  have hcard := card_upTo_le a height id
  rw [← hc.live_eq] at hcard
  exact lookupFrom_isSome hfalls name _ id (by omega)

theorem Nested.lookupFrom_isSome (h : a.Nested) (name : String) (id : ScopeId) :
    ∃ result, a.lookupFrom name (a.live + 1) id = some result := by
  obtain ⟨height, hfalls⟩ := h.grounded
  exact lookupFrom_live_isSome h.consistent hfalls name id

/-- A scope with its pin set, if so asked. -/
def raisePin (p : Bool) (scope : Scope) : Scope :=
  { scope with pinned := scope.pinned || p }

/-- One store is the other with more scopes pinned. -/
def PinsMore (a b : Arena) : Prop :=
  ∀ id, ∃ p, b.get? id = (a.get? id).map (raisePin p)

theorem PinsMore.refl (a : Arena) : a.PinsMore a := by
  intro x
  have hid : raisePin false = fun scope => scope := by
    funext scope
    simp [raisePin]
  exact ⟨false, by rw [hid, Option.map_id']⟩

theorem PinsMore.trans {b c : Arena} (h : a.PinsMore b) (k : b.PinsMore c) : a.PinsMore c := by
  intro id
  obtain ⟨p, hp⟩ := h id
  obtain ⟨q, hq⟩ := k id
  refine ⟨p || q, ?_⟩
  rw [hq, hp, Option.map_map]
  congr 1
  funext scope
  simp [raisePin, Bool.or_assoc]

theorem PinsMore.pinned {b : Arena} (h : a.PinsMore b) (hp : a.Pinned id) : b.Pinned id := by
  obtain ⟨scope, hs, hpin⟩ := hp
  obtain ⟨p, hb⟩ := h id
  exact ⟨raisePin p scope, by rw [hb, hs]; rfl, by simp [raisePin, hpin]⟩

theorem PinsMore.contains_eq {b : Arena} (h : a.PinsMore b) (id : ScopeId) :
    b.contains id = a.contains id := by
  obtain ⟨p, hb⟩ := h id
  rw [contains, contains, hb, Option.isSome_map]

theorem PinsMore.get?_of_get? {b : Arena} (h : a.PinsMore b) {scope : Scope}
    (hs : b.get? id = some scope) :
    ∃ before, a.get? id = some before ∧ scope.bindings = before.bindings ∧
      scope.outer = before.outer := by
  obtain ⟨p, hb⟩ := h id
  rw [hs] at hb
  obtain ⟨before, hbefore, rfl⟩ := Option.map_eq_some_iff.1 hb.symm
  exact ⟨before, hbefore, rfl, rfl⟩

theorem pinsMore_update (a : Arena) (id : ScopeId) :
    a.PinsMore (a.update id fun scope => { scope with pinned := true }) := by
  intro other
  rw [get?_update]
  split
  · rename_i h
    subst h
    refine ⟨true, ?_⟩
    congr 1
    funext scope
    simp [raisePin]
  · exact PinsMore.refl a other

theorem pinsMore_pinFrom (n : Nat) (id : ScopeId) (a : Arena) :
    a.PinsMore (pinFrom n id a) := by
  induction n generalizing id a with
  | zero => exact .refl a
  | succ n ih =>
      rw [pinFrom]
      split
      · exact .refl a
      · split
        · exact .refl a
        · dsimp only
          split
          · exact pinsMore_update a id
          · exact (pinsMore_update a id).trans (ih _ _)

theorem pinsMore_pin (id : ScopeId) (a : Arena) : a.PinsMore (a.pin id) :=
  pinsMore_pinFrom (a.live + 1) id a

theorem FallsOutward.of_pinsMore {b : Arena} (h : a.FallsOutward height)
    (hpins : a.PinsMore b) : b.FallsOutward height := by
  intro id scope outer hs ho
  obtain ⟨before, hbefore, -, houter⟩ := hpins.get?_of_get? hs
  exact h id before outer hbefore (houter ▸ ho)

theorem Nested.of_links {b : Arena} (h : a.Nested) (hb : b.Consistent)
    (hlinks : ∀ id scope, b.get? id = some scope →
      ∃ before, a.get? id = some before ∧ scope.outer = before.outer)
    (hclosed : ∀ id scope outer, b.get? id = some scope → scope.outer = some outer →
      b.contains outer = true) : b.Nested := by
  obtain ⟨height, hfalls⟩ := h.grounded
  refine ⟨hb, hclosed, height, fun id scope outer hs ho => ?_⟩
  obtain ⟨before, hbefore, houter⟩ := hlinks id scope hs
  exact hfalls id before outer hbefore (houter ▸ ho)

theorem Nested.of_pinsMore {b : Arena} (h : a.Nested) (hpins : a.PinsMore b)
    (hb : b.Consistent) : b.Nested := by
  refine h.of_links hb (fun id scope hs => ?_) fun id scope outer hs ho => ?_
  · obtain ⟨before, hbefore, -, houter⟩ := hpins.get?_of_get? hs
    exact ⟨before, hbefore, houter⟩
  · obtain ⟨before, hbefore, -, houter⟩ := hpins.get?_of_get? hs
    rw [hpins.contains_eq]
    exact h.closed id before outer hbefore (houter ▸ ho)

theorem Nested.alloc (h : a.Nested) (outer : Option ScopeId)
    (hlives : ∀ o, outer = some o → a.contains o = true) : (a.alloc outer).2.Nested := by
  have hget := get?_alloc h.consistent outer
  have hfresh := get?_alloc_self_before h.consistent outer
  generalize ha : a.alloc outer = made at hget hfresh
  obtain ⟨new, b⟩ := made
  dsimp only at hget hfresh ⊢
  have hne : ∀ o, a.contains o = true → o ≠ new := by
    rintro o ho rfl
    simp [contains, hfresh] at ho
  have hcontains : ∀ o, a.contains o = true → b.contains o = true := fun o ho => by
    rw [contains, hget, if_neg (hne o ho)]
    exact ho
  obtain ⟨height, hfalls⟩ := h.grounded
  refine ⟨by simpa [ha] using consistent_alloc h.consistent outer, fun id scope o hs ho => ?_,
    Function.update height new ((outer.map height).getD 0 + 1), fun id scope o hs ho => ?_⟩
  · rw [hget] at hs
    split at hs
    · cases hs
      exact hcontains o (hlives o ho)
    · exact hcontains o (h.closed id scope o hs ho)
  · rw [hget] at hs
    split at hs
    · rename_i hid
      subst hid
      cases hs
      have ho' : outer = some o := ho
      rw [Function.update_self, Function.update_of_ne (hne o (hlives o ho')), ho']
      exact Nat.lt_succ_self _
    · rename_i hid
      rw [Function.update_of_ne hid, Function.update_of_ne (hne o (h.closed id scope o hs ho))]
      exact hfalls id scope o hs ho

theorem get?_define (id other : ScopeId) (name : String) (value : Value) (a : Arena) :
    (a.define id name value).get? other =
      if other = id then
        (a.get? id).map fun scope => { scope with bindings := scope.bindings.put name value }
      else a.get? other :=
  get?_update ..

theorem get?_of_get?_define {id other : ScopeId} {name : String} {value : Value} {scope : Scope}
    (hs : (a.define id name value).get? other = some scope) :
    ∃ before, a.get? other = some before ∧ scope.outer = before.outer ∧
      scope.pinned = before.pinned ∧
      scope.bindings = if other = id then before.bindings.put name value
        else before.bindings := by
  rw [get?_define] at hs
  split at hs
  · rename_i h
    subst h
    obtain ⟨before, hbefore, rfl⟩ := Option.map_eq_some_iff.1 hs
    exact ⟨before, hbefore, rfl, rfl, by simp⟩
  · rename_i h
    exact ⟨scope, hs, rfl, rfl, by simp [h]⟩

theorem Pinned.define (h : a.Pinned id) (other : ScopeId) (name : String) (value : Value) :
    (a.define other name value).Pinned id := by
  obtain ⟨scope, hs, hp⟩ := h
  by_cases hid : id = other
  · subst hid
    refine ⟨{ scope with bindings := scope.bindings.put name value }, ?_, hp⟩
    rw [get?_define, if_pos rfl, hs]
    rfl
  · exact ⟨scope, by rw [get?_define, if_neg hid, hs], hp⟩

theorem Nested.define (h : a.Nested) (id : ScopeId) (name : String) (value : Value) :
    (a.define id name value).Nested := by
  refine h.of_links (consistent_define h.consistent ..) (fun x scope hs => ?_)
    fun x scope outer hs ho => ?_
  · obtain ⟨before, hbefore, houter, -⟩ := get?_of_get?_define hs
    exact ⟨before, hbefore, houter⟩
  · obtain ⟨before, hbefore, houter, -⟩ := get?_of_get?_define hs
    rw [contains_define]
    exact h.closed x before outer hbefore (houter ▸ ho)

theorem PinnedOutward.define (h : a.PinnedOutward) (id : ScopeId) (name : String)
    (value : Value) : (a.define id name value).PinnedOutward := by
  intro x scope outer hs hp ho
  obtain ⟨before, hbefore, houter, hpinned, -⟩ := get?_of_get?_define hs
  exact (h x before outer hbefore (hpinned ▸ hp) (houter ▸ ho)).define id name value

theorem PinnedOutward.alloc (h : a.PinnedOutward) (hc : a.Consistent) (outer : Option ScopeId) :
    (a.alloc outer).2.PinnedOutward := by
  intro id scope o hs hp ho
  rw [get?_alloc hc] at hs
  split at hs
  · cases hs
    cases hp
  · obtain ⟨s, hs', hp'⟩ := h id scope o hs hp ho
    refine ⟨s, ?_, hp'⟩
    rw [get?_alloc hc, if_neg, hs']
    rintro rfl
    rw [get?_alloc_self_before hc] at hs'
    cases hs'

/-! Scopes on a chain, and which of them pinning reaches. -/

/-- The scopes that are met from a scope outward, as far as they live. -/
inductive OnChain (a : Arena) (id : ScopeId) : ScopeId → Prop where
  | self (lives : a.contains id = true) : OnChain a id id
  | outer {x outer : ScopeId} {scope : Scope} (inner : OnChain a id x)
      (found : a.get? x = some scope) (link : scope.outer = some outer)
      (lives : a.contains outer = true) : OnChain a id outer

theorem OnChain.lives {x : ScopeId} (h : a.OnChain id x) : a.contains x = true := by
  cases h <;> assumption

theorem OnChain.first_lives {x : ScopeId} (h : a.OnChain id x) : a.contains id = true := by
  induction h with
  | self lives => exact lives
  | outer _ _ _ _ ih => exact ih

theorem onChain_iff {scope : Scope} (hs : a.get? id = some scope) {x : ScopeId} :
    a.OnChain id x ↔ x = id ∨ ∃ outer, scope.outer = some outer ∧ a.OnChain outer x := by
  have hlives : a.contains id = true := contains_iff.2 ⟨scope, hs⟩
  constructor
  · intro h
    induction h with
    | self => exact .inl rfl
    | @outer y o s _ found link lives ih =>
        obtain rfl | ⟨first, ho, rest⟩ := ih
        · cases hs.symm.trans found
          exact .inr ⟨o, link, .self lives⟩
        · exact .inr ⟨first, ho, .outer rest found link lives⟩
  · rintro (rfl | ⟨outer, ho, h⟩)
    · exact .self hlives
    · induction h with
      | self lives => exact .outer (.self hlives) hs ho lives
      | outer _ found link lives ih => exact .outer ih found link lives

theorem OnChain.height_le (hfalls : a.FallsOutward height) {x : ScopeId} (h : a.OnChain id x) :
    height x ≤ height id := by
  induction h with
  | self => exact Nat.le_refl _
  | outer _ found link _ ih => exact Nat.le_trans (Nat.le_of_lt (hfalls _ _ _ found link)) ih

theorem PinsMore.onChain {b : Arena} (h : a.PinsMore b) {x : ScopeId} (hx : a.OnChain id x) :
    b.OnChain id x := by
  induction hx with
  | self lives => exact .self (by rw [h.contains_eq, lives])
  | outer _ found link lives ih =>
      obtain ⟨p, hp⟩ := h _
      rw [found] at hp
      exact .outer ih hp link (by rw [h.contains_eq, lives])

theorem PinsMore.onChain_iff {b : Arena} (h : a.PinsMore b) {x : ScopeId} :
    b.OnChain id x ↔ a.OnChain id x := by
  constructor
  · intro hx
    induction hx with
    | self lives => exact .self (by rw [← h.contains_eq, lives])
    | outer _ found link lives ih =>
        obtain ⟨before, hbefore, -, houter⟩ := h.get?_of_get? found
        exact .outer ih hbefore (houter ▸ link) (by rw [← h.contains_eq, lives])
  · exact h.onChain

/-- The scope around a scope is pinned, if the scope is pinned and the one around it
lives. -/
def PinnedAroundAt (a : Arena) (id : ScopeId) : Prop :=
  ∀ scope outer, a.get? id = some scope → scope.pinned = true →
    scope.outer = some outer → a.contains outer = true → a.Pinned outer

/-- The scope around a pinned scope is pinned, if it lives. -/
def PinnedAround (a : Arena) : Prop :=
  ∀ id, a.PinnedAroundAt id

theorem PinnedOutward.pinnedAround (h : a.PinnedOutward) : a.PinnedAround :=
  fun id scope outer hs hp ho _ => h id scope outer hs hp ho

theorem Pinned.onChain (hpinned : a.Pinned id) {x : ScopeId} (h : a.OnChain id x)
    (haround : ∀ y, a.OnChain id y → a.PinnedAroundAt y) : a.Pinned x := by
  induction h with
  | self => exact hpinned
  | outer inner found link lives ih =>
      obtain ⟨scope, hs, hp⟩ := ih
      cases found.symm.trans hs
      exact haround _ inner _ _ found hp link lives

theorem pinned_pinOne {scope : Scope} (hs : a.get? id = some scope) {x : ScopeId} :
    (a.update id fun scope => { scope with pinned := true }).Pinned x ↔ x = id ∨ a.Pinned x := by
  rw [Pinned, get?_update]
  by_cases hx : x = id
  · subst hx
    simp [hs]
  · simp [hx, Pinned]

/-- With steps enough pinning reaches the end of the chain: it may stop at a scope
that is pinned already, because those around it are pinned. -/
theorem pinned_pinFrom_iff (hfalls : a.FallsOutward height) (n : Nat)
    (hn : (a.upTo height id).card ≤ n)
    (haround : ∀ y, height y ≤ height id → a.PinnedAroundAt y) {x : ScopeId} :
    (pinFrom n id a).Pinned x ↔ a.Pinned x ∨ a.OnChain id x := by
  induction n generalizing id a with
  | zero =>
      refine ⟨.inl, fun h => h.resolve_right fun hx => ?_⟩
      have hpos := card_upTo_pos height hx.first_lives
      omega
  | succ n ih =>
      rw [pinFrom]
      split
      · rename_i hs
        refine ⟨.inl, fun h => h.resolve_right fun hx => ?_⟩
        have hlives := hx.first_lives
        simp [contains, hs] at hlives
      · rename_i scope hs
        split
        · rename_i hp
          refine ⟨.inl, fun h => h.elim (fun hx => hx) fun hx => ?_⟩
          exact Pinned.onChain ⟨scope, hs, hp⟩ hx fun y hy => haround y (hy.height_le hfalls)
        · have hmore := pinsMore_update a id
          have hone := fun y => pinned_pinOne hs (x := y)
          have hother : ∀ y, y ≠ id →
              (a.update id fun scope => { scope with pinned := true }).get? y = a.get? y :=
            fun y hy => by rw [get?_update, if_neg hy]
          generalize (a.update id fun scope => { scope with pinned := true }) = b at *
          dsimp only
          split
          · rename_i ho
            rw [hone, Arena.onChain_iff hs]
            simp [ho, or_comm]
          · rename_i outer ho
            have hlt := hfalls id scope outer hs ho
            have hcard := card_upTo_lt hfalls hs ho
            have hlive : b.liveIds = a.liveIds := liveIds_eq_of_contains hmore.contains_eq
            have hbaround : ∀ y, height y ≤ height outer → b.PinnedAroundAt y := by
              intro y hy s o hys hyp hyo holives
              have hyid : y ≠ id := fun e => by subst e; omega
              rw [hother y hyid] at hys
              rw [hmore.contains_eq] at holives
              exact hmore.pinned (haround y (by omega) s o hys hyp hyo holives)
            have hrest := ih (hfalls.of_pinsMore hmore)
              (by rw [upTo_eq_of_liveIds hlive]; omega) hbaround
            rw [hrest, hone, hmore.onChain_iff, Arena.onChain_iff hs]
            simp only [ho, Option.some.injEq, exists_eq_left']
            tauto

/-- Pinning pins the chain of a scope and nothing else. -/
theorem pinned_pin_iff (hc : a.Consistent) (hfalls : a.FallsOutward height)
    (haround : a.PinnedAround) (id : ScopeId) {x : ScopeId} :
    (a.pin id).Pinned x ↔ a.Pinned x ∨ a.OnChain id x := by
  have hcard := card_upTo_le a height id
  rw [← hc.live_eq] at hcard
  exact pinned_pinFrom_iff hfalls _ (by omega) fun y _ => haround y

theorem PinnedAround.pin (haround : a.PinnedAround) (hc : a.Consistent)
    (hfalls : a.FallsOutward height) (id : ScopeId) : (a.pin id).PinnedAround := by
  intro x scope outer hs hp ho holives
  have hmore := pinsMore_pin id a
  obtain ⟨before, hbefore, -, houter⟩ := hmore.get?_of_get? hs
  rw [hmore.contains_eq] at holives
  have hx : (a.pin id).Pinned x := ⟨scope, hs, hp⟩
  rw [pinned_pin_iff hc hfalls haround] at hx ⊢
  cases hx with
  | inl hx =>
      obtain ⟨s, hs', hp'⟩ := hx
      exact .inl (haround x s outer hs' hp' (by simp_all) holives)
  | inr hx => exact .inr (.outer hx hbefore (houter ▸ ho) holives)

theorem Nested.pinned_pin (h : a.Nested) (hout : a.PinnedOutward)
    (hlives : a.contains id = true) : (a.pin id).Pinned id := by
  obtain ⟨height, hfalls⟩ := h.grounded
  exact (pinned_pin_iff h.consistent hfalls hout.pinnedAround id).2 (.inr (.self hlives))

theorem Nested.pinnedOutward_pin (h : a.Nested) (hout : a.PinnedOutward) (id : ScopeId) :
    (a.pin id).PinnedOutward := by
  obtain ⟨height, hfalls⟩ := h.grounded
  have hmore := pinsMore_pin id a
  intro x scope outer hs hp ho
  obtain ⟨before, hbefore, -, houter⟩ := hmore.get?_of_get? hs
  refine hout.pinnedAround.pin h.consistent hfalls id x scope outer hs hp ho ?_
  rw [hmore.contains_eq]
  exact h.closed x before outer hbefore (houter ▸ ho)

theorem Nested.pin (h : a.Nested) (id : ScopeId) : (a.pin id).Nested :=
  h.of_pinsMore (pinsMore_pin id a) (consistent_pin h.consistent id)

end Arena
end Treewalk
