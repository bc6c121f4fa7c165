import Treewalk.Proofs.Scope.Links
import Treewalk.Scope.Environment

/-!
Scopes that are entered and left. To the environment belongs a stack of the scopes to
come back to, one for each scope that has been entered and not been left. Whatever
changes are made, in whatever order, and whatever is collected in between, the store
stays linked and the scopes around pinned ones stay pinned; and a pinned scope stays
in its place, with its names bound, until a collection gives it up.
-/

namespace Treewalk

theorem Environment.eq_of_enterCall {limit : Option Nat} {env began : Environment}
    (h : env.enterCall limit = .ok began) :
    began = { env with callDepth := env.callDepth + 1 } := by
  unfold enterCall at h
  split at h
  · cases h
    rfl
  · split at h <;> cases h
    rfl

/-- A change of the environment, as evaluations make them. -/
inductive Environment.Change where
  | define (name : String) (value : Value)
  /-- enter a new scope inside the current one -/
  | enterBlock
  /-- enter a new scope inside the given one, if that one lives -/
  | enterScope (outer : ScopeId)
  /-- leave the scope that was entered last -/
  | leave
  /-- capture the current scope, for a function that is made -/
  | capture
  | enterCall (limit : Option Nat)
  | exitCall

/-- An environment, and the scopes to come back to, the next one first. -/
structure Guarded where
  environment : Environment
  suspended : List ScopeId

namespace Guarded

open Environment (Change)

def initial : Guarded :=
  ⟨.initial, []⟩

def arena (g : Guarded) : Arena :=
  g.environment.arena

def current (g : Guarded) : ScopeId :=
  g.environment.current

/-- The state in which a scope has been entered, given the one to come back to. -/
def entered (g : Guarded) : ScopeId × Environment → Guarded
  | (previous, environment) => ⟨environment, previous :: g.suspended⟩

/-- Make a change. A scope that is gone is not entered, a call beyond the limit does
not begin, and nothing is left when nothing has been entered. -/
def apply (g : Guarded) : Change → Guarded
  | .define name value => { g with environment := g.environment.define name value }
  | .enterBlock => g.entered (g.environment.enter g.current)
  | .enterScope outer =>
      match g.environment.enterLive outer with
      | .ok inside => g.entered inside
      | .error _ => g
  | .leave =>
      match g.suspended with
      | previous :: suspended => ⟨g.environment.leave previous, suspended⟩
      | [] => g
  | .capture => { g with environment := g.environment.capture.2 }
  | .enterCall limit =>
      match g.environment.enterCall limit with
      | .ok environment => { g with environment }
      | .error _ => g
  | .exitCall => { g with environment := g.environment.exitCall }

/-- Make changes one after another. -/
def run (g : Guarded) (changes : List Change) : Guarded :=
  changes.foldl apply g

/-- Collect the scopes that neither the root, nor the current scope, nor the given
values lead to. -/
def collect (g : Guarded) (values : List Value) : Guarded :=
  { g with environment := (g.environment.collectGarbage values).2 }

@[simp] theorem run_cons (g : Guarded) (c : Change) (changes : List Change) :
    g.run (c :: changes) = (g.apply c).run changes := rfl

@[simp] theorem run_append (g : Guarded) (changes more : List Change) :
    g.run (changes ++ more) = (g.run changes).run more :=
  List.foldl_append ..

/-- The scopes lead to a scope that a collection now would start from. -/
def Reaches (g : Guarded) (values : List Value) (id : ScopeId) : Prop :=
  g.arena.Reaches [g.environment.root, g.current] values id

/-- What a change does: it makes a scope inside another, or leaves the current one, or
changes the store in its places, or does not touch it. -/
inductive Effect (g after : Guarded) : Change → Prop where
  | entered {c : Change} {outer : ScopeId}
      (inside : outer = g.current ∨ g.arena.contains outer = true)
      (arena_eq : after.arena = (g.arena.alloc (some outer)).2)
      (current_eq : after.current = (g.arena.alloc (some outer)).1)
      (suspended_eq : after.suspended = g.current :: g.suspended) : Effect g after c
  | left {previous : ScopeId} (suspended_eq : g.suspended = previous :: after.suspended)
      (arena_eq : after.arena = g.arena.release g.current)
      (current_eq : after.current = previous) : Effect g after .leave
  | defined (name : String) (value : Value)
      (arena_eq : after.arena = g.arena.define g.current name value)
      (current_eq : after.current = g.current)
      (suspended_eq : after.suspended = g.suspended) : Effect g after (.define name value)
  | captured (arena_eq : after.arena = g.arena.pin g.current)
      (current_eq : after.current = g.current)
      (suspended_eq : after.suspended = g.suspended) : Effect g after .capture
  | untouched {c : Change} (arena_eq : after.arena = g.arena)
      (current_eq : after.current = g.current)
      (suspended_eq : after.suspended = g.suspended) : Effect g after c

theorem effect (g : Guarded) (c : Change) : g.Effect (g.apply c) c := by
  cases c with
  | define name value => exact .defined name value rfl rfl rfl
  | enterBlock => exact .entered (.inl rfl : g.current = g.current ∨ _) rfl rfl rfl
  | enterScope outer =>
      simp only [apply, Environment.enterLive]
      by_cases hlives : g.environment.arena.contains outer = true
      · rw [if_pos hlives]
        exact .entered (.inr hlives) rfl rfl rfl
      · rw [if_neg hlives]
        exact .untouched rfl rfl rfl
  | leave =>
      simp only [apply]
      split
      · rename_i previous suspended hs
        exact .left hs rfl rfl
      · exact .untouched rfl rfl rfl
  | capture => exact .captured rfl rfl rfl
  | enterCall limit =>
      rw [apply]
      split
      · rename_i environment h
        cases Environment.eq_of_enterCall h
        exact .untouched rfl rfl rfl
      · exact .untouched rfl rfl rfl
  | exitCall => exact .untouched rfl rfl rfl

/-- The store is linked and pinned outward, and the names of the current scope and of
the scopes to come back to have been issued. -/
structure Sound (g : Guarded) : Prop where
  linked : g.arena.Linked
  pinnedAround : g.arena.PinnedAround
  current_issued : g.arena.Issued g.current
  suspended_issued : ∀ id ∈ g.suspended, g.arena.Issued id

theorem sound_initial : initial.Sound := by
  have hmade : (Arena.empty.alloc none).2.Linked := Arena.Linked.empty.alloc none nofun
  have haround : (Arena.empty.alloc none).2.PinnedAround :=
    Arena.PinnedAround.empty.alloc Arena.Linked.empty none
  obtain ⟨height, hfalls⟩ := hmade.grounded
  have harena : initial.arena = (Arena.empty.alloc none).2.pin (Arena.empty.alloc none).1 := rfl
  refine ⟨?_, ?_, .of_lives ?_, nofun⟩ <;> rw [harena]
  · exact hmade.pin _
  · exact haround.pin hmade.consistent hfalls _
  · rw [Arena.contains_pin, Arena.contains_alloc Arena.consistent_empty]
    exact .inl rfl

namespace Sound

variable {g : Guarded}

theorem apply (h : g.Sound) (c : Change) : (g.apply c).Sound := by
  have hc := h.linked.consistent
  cases g.effect c with
  | @entered c outer inside arena_eq current_eq suspended_eq =>
      have hissued : g.arena.Issued outer :=
        inside.elim (fun e => e ▸ h.current_issued) .of_lives
      refine ⟨?_, ?_, ?_, fun id hid => ?_⟩
      · rw [arena_eq]
        refine h.linked.alloc _ fun o ho => ?_
        cases ho
        exact hissued
      · rw [arena_eq]
        exact h.pinnedAround.alloc h.linked _
      · rw [arena_eq, current_eq]
        exact .of_lives ((Arena.contains_alloc hc _).2 (.inl rfl))
      · rw [arena_eq]
        rw [suspended_eq, List.mem_cons] at hid
        exact (hid.elim (fun e => e ▸ h.current_issued) (h.suspended_issued id)).alloc hc _
  | left suspended_eq arena_eq current_eq =>
      have hmem : ∀ id, id = (g.apply .leave).current ∨ id ∈ (g.apply .leave).suspended →
          g.arena.Issued id := fun id hid => by
        refine h.suspended_issued id ?_
        rw [suspended_eq, List.mem_cons, ← current_eq]
        exact hid
      rw [← current_eq] at suspended_eq
      refine ⟨?_, ?_, ?_, fun id hid => ?_⟩ <;> rw [arena_eq]
      · exact h.linked.release _
      · exact h.pinnedAround.release _
      · exact (hmem _ (.inl rfl)).release _
      · exact (hmem id (.inr hid)).release _
  | defined name value arena_eq current_eq suspended_eq =>
      refine ⟨?_, ?_, ?_, fun id hid => ?_⟩ <;> rw [arena_eq]
      · exact h.linked.define ..
      · exact h.pinnedAround.define _ name value
      · rw [current_eq]
        exact (Arena.issued_update ..).2 h.current_issued
      · rw [suspended_eq] at hid
        exact (Arena.issued_update ..).2 (h.suspended_issued id hid)
  | captured arena_eq current_eq suspended_eq =>
      obtain ⟨height, hfalls⟩ := h.linked.grounded
      refine ⟨?_, ?_, ?_, fun id hid => ?_⟩ <;> rw [arena_eq]
      · exact h.linked.pin _
      · exact h.pinnedAround.pin hc hfalls _
      · rw [current_eq]
        exact (Arena.issued_pinFrom ..).2 h.current_issued
      · rw [suspended_eq] at hid
        exact (Arena.issued_pinFrom ..).2 (h.suspended_issued id hid)
  | untouched arena_eq current_eq suspended_eq =>
      refine ⟨arena_eq ▸ h.linked, arena_eq ▸ h.pinnedAround, ?_, ?_⟩ <;> rw [arena_eq]
      · rw [current_eq]
        exact h.current_issued
      · rw [suspended_eq]
        exact h.suspended_issued

theorem collect (h : g.Sound) (values : List Value) : (g.collect values).Sound :=
  ⟨h.linked.collect _ values, h.pinnedAround.collect h.linked.consistent _ values,
    h.current_issued.collect _ values, fun id hid => (h.suspended_issued id hid).collect _ values⟩

end Sound
end Guarded

namespace Arena

/-- The scope is still in its place, pinned if it was, with names bound that were. -/
def Remains (a b : Arena) (id : ScopeId) : Prop :=
  ∀ s, a.get? id = some s → ∃ s', b.get? id = some s' ∧ s'.outer = s.outer ∧
    (s.pinned = true → s'.pinned = true) ∧
    ∀ name, (s.bindings.get? name).isSome → (s'.bindings.get? name).isSome

variable {a b c : Arena} {id : ScopeId}

theorem Remains.of_eq (h : b.get? id = a.get? id) : a.Remains b id :=
  fun s hs => ⟨s, h.trans hs, rfl, fun hp => hp, fun _ hn => hn⟩

theorem Remains.trans (h : a.Remains b id) (k : b.Remains c id) : a.Remains c id := by
  intro s hs
  obtain ⟨t, ht, houter, hpin, hbound⟩ := h s hs
  obtain ⟨u, hu, houter', hpin', hbound'⟩ := k t ht
  exact ⟨u, hu, houter'.trans houter, fun hp => hpin' (hpin hp),
    fun name hn => hbound' name (hbound name hn)⟩

theorem Remains.pinned (h : a.Remains b id) (hp : a.Pinned id) : b.Pinned id := by
  obtain ⟨s, hs, hpin⟩ := hp
  obtain ⟨t, ht, -, hpin', -⟩ := h s hs
  exact ⟨t, ht, hpin' hpin⟩

theorem PinsMore.remains (h : a.PinsMore b) (id : ScopeId) : a.Remains b id := by
  intro s hs
  obtain ⟨p, hp⟩ := h id
  refine ⟨raisePin p s, by rw [hp, hs]; rfl, rfl, fun hpin => ?_, fun _ hn => hn⟩
  simp [raisePin, hpin]

theorem remains_define (a : Arena) (other : ScopeId) (name : String) (value : Value)
    (id : ScopeId) : a.Remains (a.define other name value) id := by
  by_cases hid : id = other
  · subst hid
    intro s hs
    refine ⟨{ s with bindings := s.bindings.put name value }, ?_, rfl, fun hp => hp,
      fun x hx => ?_⟩
    · rw [get?_define, if_pos rfl, hs]
      rfl
    · by_cases hname : x = name
      · simp [hname, Entries.get?_put_self]
      · rw [Entries.get?_put_of_ne hname]
        exact hx
  · exact .of_eq (by rw [get?_define, if_neg hid])

theorem OnChain.of_remains {x : ScopeId} (h : a.OnChain id x)
    (hremain : ∀ y, a.OnChain id y → a.Remains b y) : b.OnChain id x := by
  have hlives : ∀ y, a.OnChain id y → b.contains y = true := fun y hy => by
    obtain ⟨s, hs⟩ := contains_iff.1 hy.lives
    obtain ⟨t, ht, -⟩ := hremain y hy s hs
    exact contains_iff.2 ⟨t, ht⟩
  induction h with
  | self lives => exact .self (hlives id (.self lives))
  | outer inner found link lives ih =>
      obtain ⟨t, ht, houter, -⟩ := hremain _ inner _ found
      exact .outer ih ht (houter.trans link) (hlives _ (.outer inner found link lives))

/-- Where the scopes of a chain remain, looking for a name from it does not newly meet
a scope that is gone. -/
theorem lookupFrom_ne_dangling (name : String) (n m : Nat) (id : ScopeId)
    (hremain : ∀ y, a.OnChain id y → a.Remains b y) {result : Lookup}
    (hn : a.lookupFrom name n id = some result) (hresult : result ≠ .dangling) :
    b.lookupFrom name m id ≠ some .dangling := by
  induction n generalizing id m with
  | zero => cases hn
  | succ n ih =>
      cases m with
      | zero => rintro ⟨⟩
      | succ m =>
          cases hs : a.get? id with
          | none =>
              rw [lookupFrom_gone hs] at hn
              cases hn
              exact absurd rfl hresult
          | some s =>
              obtain ⟨t, ht, houter, -, hbound⟩ :=
                hremain id (.self (contains_iff.2 ⟨s, hs⟩)) s hs
              cases htn : t.bindings.get? name with
              | some v =>
                  rw [lookupFrom_bound ht htn]
                  rintro ⟨⟩
              | none =>
                  have hsn : s.bindings.get? name = none := by
                    by_contra h
                    have hsome := hbound name (Option.isSome_iff_ne_none.2 h)
                    simp [htn] at hsome
                  cases ho : s.outer with
                  | none =>
                      rw [lookupFrom_outermost ht htn (houter.trans ho)]
                      rintro ⟨⟩
                  | some outer =>
                      rw [lookupFrom_outward ht htn (houter.trans ho)]
                      rw [lookupFrom_outward hs hsn ho] at hn
                      exact ih m outer
                        (fun y hy => hremain y ((onChain_iff hs).2 (.inr ⟨outer, ho, hy⟩))) hn

theorem Linked.lookup_ne_dangling (h : a.Linked) {name : String}
    (hremain : ∀ y, a.OnChain id y → a.Remains b y) (hlookup : a.lookup id name ≠ .dangling) :
    b.lookup id name ≠ .dangling := by
  obtain ⟨result, hresult⟩ := h.lookupFrom_isSome name id
  rw [lookup, hresult] at hlookup
  have hne := lookupFrom_ne_dangling name _ (b.live + 1) id hremain hresult hlookup
  rw [lookup]
  cases hb : b.lookupFrom name (b.live + 1) id with
  | none => nofun
  | some l => exact fun e => hne (hb.trans (congrArg some e))

end Arena

namespace Guarded

variable {g : Guarded} {id : ScopeId}

/-- No change moves or frees a pinned scope. -/
theorem remains_apply (hc : g.arena.Consistent) (c : Environment.Change)
    (hp : g.arena.Pinned id) : g.arena.Remains (g.apply c).arena id := by
  cases g.effect c with
  | @entered c outer _ arena_eq =>
      refine .of_eq ?_
      have hne : id ≠ (g.arena.alloc (some outer)).1 := by
        rintro rfl
        exact Arena.not_issued_alloc hc _ (.of_lives hp.lives)
      rw [arena_eq, Arena.get?_alloc hc, if_neg hne]
  | left _ arena_eq =>
      refine .of_eq ?_
      rw [arena_eq, Arena.get?_release, if_neg]
      rintro ⟨rfl, s, hs, hunpinned⟩
      obtain ⟨t, ht, hpinned⟩ := hp
      cases hs.symm.trans ht
      simp [hunpinned] at hpinned
  | defined name value arena_eq =>
      rw [arena_eq]
      exact Arena.remains_define _ _ name value id
  | captured arena_eq =>
      rw [arena_eq]
      exact (Arena.pinsMore_pin _ _).remains id
  | untouched arena_eq => exact .of_eq (by rw [arena_eq])

theorem Sound.remains_apply (h : g.Sound) (c : Environment.Change) (hp : g.arena.Pinned id) :
    g.arena.Remains (g.apply c).arena id :=
  Guarded.remains_apply h.linked.consistent c hp

/-- A collection that reaches a scope leaves it in its place. -/
theorem Sound.remains_collect (h : g.Sound) {values : List Value} (hreached : g.Reaches values id) :
    g.arena.Remains (g.collect values).arena id :=
  .of_eq (Arena.get?_collect h.linked.consistent hreached)

/-- A collection that reaches a scope reaches the scopes on its chain. -/
theorem Reaches.onChain {values : List Value} (h : g.Reaches values id) {x : ScopeId}
    (hx : g.arena.OnChain id x) : g.Reaches values x := by
  induction hx with
  | self => exact h
  | outer _ found link lives ih => exact .outer ih found link lives

end Guarded
end Treewalk
