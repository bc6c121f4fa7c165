import Treewalk.Proofs.Evaluation.Conduct

/-!
Walks from scope to scope. A scope is made inside one whose name was issued before its
own, and slots that are used again issue new names: the links between scopes lead from
later names to earlier ones. So in every state a walk along them meets no name twice,
whether it begins at a scope that lives or at a name of long ago, and the loops that look
for a name and that pin scopes take no more steps than there are scopes, but for one.
-/

namespace Treewalk
namespace Arena

/-- The names that a walk outward meets in at most so many steps. It ends at a scope that
lies in none, and at a name whose scope is gone. -/
def walk (a : Arena) : Nat → ScopeId → List ScopeId
  | 0, _ => []
  | n + 1, id =>
      match (a.get? id).bind Scope.outer with
      | some outer => id :: a.walk n outer
      | none => [id]

/-- The loop that looks for a name outward from a scope comes to its result in so many
steps. -/
inductive Looks (a : Arena) (name : String) : ScopeId → Nat → Lookup → Prop where
  | gone {id : ScopeId} (gone : a.get? id = none) : Looks a name id 1 .dangling
  | bound {id : ScopeId} {scope : Scope} {value : Value} (found : a.get? id = some scope)
      (bound : scope.bindings.get? name = some value) : Looks a name id 1 (.found value)
  | outermost {id : ScopeId} {scope : Scope} (found : a.get? id = some scope)
      (unbound : scope.bindings.get? name = none) (link : scope.outer = none) :
      Looks a name id 1 .unbound
  | outward {id outer : ScopeId} {scope : Scope} {steps : Nat} {result : Lookup}
      (found : a.get? id = some scope) (unbound : scope.bindings.get? name = none)
      (link : scope.outer = some outer) (further : Looks a name outer steps result) :
      Looks a name id (steps + 1) result

/-- The loop that pins scopes outward from one of them changes the first store into the
second in so many steps. -/
inductive Pins : ScopeId → Nat → Arena → Arena → Prop where
  | gone {a : Arena} {id : ScopeId} (gone : a.get? id = none) : Pins id 1 a a
  | pinned {a : Arena} {id : ScopeId} {scope : Scope} (found : a.get? id = some scope)
      (pinned : scope.pinned = true) : Pins id 1 a a
  | outermost {a : Arena} {id : ScopeId} {scope : Scope} (found : a.get? id = some scope)
      (unpinned : scope.pinned = false) (link : scope.outer = none) :
      Pins id 1 a (a.update id fun scope => { scope with pinned := true })
  | outward {a b : Arena} {id outer : ScopeId} {scope : Scope} {steps : Nat}
      (found : a.get? id = some scope) (unpinned : scope.pinned = false)
      (link : scope.outer = some outer)
      (further : Pins outer steps (a.update id fun scope => { scope with pinned := true }) b) :
      Pins id (steps + 1) a b

variable {a : Arena} {height : ScopeId → Nat} {id : ScopeId}

theorem walk_stop (n : Nat) (h : (a.get? id).bind Scope.outer = none) :
    a.walk (n + 1) id = [id] := by
  rw [walk, h]

theorem walk_outward (n : Nat) {scope : Scope} {outer : ScopeId} (hs : a.get? id = some scope)
    (ho : scope.outer = some outer) : a.walk (n + 1) id = id :: a.walk n outer := by
  rw [walk, hs, Option.bind_some, ho]

/-- A walk stops at once or goes on from a scope to the one around it. -/
theorem walk_cases (a : Arena) (id : ScopeId) :
    (a.get? id).bind Scope.outer = none ∨
      ∃ scope outer, a.get? id = some scope ∧ scope.outer = some outer := by
  cases h : (a.get? id).bind Scope.outer with
  | none => exact .inl rfl
  | some outer =>
      obtain ⟨scope, hs, ho⟩ := Option.bind_eq_some_iff.1 h
      exact .inr ⟨scope, outer, hs, ho⟩

theorem height_le_of_mem_walk (hfalls : a.FallsOutward height) {n : Nat} {x : ScopeId}
    (hx : x ∈ a.walk n id) : height x ≤ height id := by
  induction n generalizing id with
  | zero => cases hx
  | succ n ih =>
      obtain hstop | ⟨scope, outer, hs, ho⟩ := walk_cases a id
      · rw [walk_stop n hstop, List.mem_singleton] at hx
        exact Nat.le_of_eq (congrArg height hx)
      · rw [walk_outward n hs ho, List.mem_cons] at hx
        obtain rfl | hx := hx
        · exact Nat.le_refl _
        · exact (ih hx).trans (Nat.le_of_lt (hfalls id scope outer hs ho))

theorem nodup_walk (hfalls : a.FallsOutward height) (n : Nat) (id : ScopeId) :
    (a.walk n id).Nodup := by
  induction n generalizing id with
  | zero => exact List.nodup_nil
  | succ n ih =>
      obtain hstop | ⟨scope, outer, hs, ho⟩ := walk_cases a id
      · rw [walk_stop n hstop]
        exact List.nodup_singleton id
      · rw [walk_outward n hs ho]
        refine List.nodup_cons.2 ⟨fun hmem => ?_, ih outer⟩
        have hlt := hfalls id scope outer hs ho
        have hle := height_le_of_mem_walk hfalls hmem
        omega

theorem length_walk_le (hfalls : a.FallsOutward height) (n : Nat) (id : ScopeId) :
    (a.walk n id).length ≤ (a.upTo height id).card + 1 := by
  induction n generalizing id with
  | zero => exact Nat.zero_le _
  | succ n ih =>
      obtain hstop | ⟨scope, outer, hs, ho⟩ := walk_cases a id
      · rw [walk_stop n hstop]
        exact Nat.le_add_left 1 _
      · have hrest := ih outer
        have hlt := card_upTo_lt hfalls hs ho
        rw [walk_outward n hs ho, List.length_cons]
        omega

theorem looks_of_lookupFrom {name : String} {n : Nat} {result : Lookup}
    (h : a.lookupFrom name n id = some result) : ∃ steps ≤ n, a.Looks name id steps result := by
  induction n generalizing id with
  | zero => cases h
  | succ n ih =>
      have hone : 1 ≤ n + 1 := Nat.le_add_left 1 n
      cases hs : a.get? id with
      | none =>
          rw [lookupFrom_gone hs] at h
          cases h
          exact ⟨1, hone, .gone hs⟩
      | some scope =>
          cases hv : scope.bindings.get? name with
          | some value =>
              rw [lookupFrom_bound hs hv] at h
              cases h
              exact ⟨1, hone, .bound hs hv⟩
          | none =>
              cases ho : scope.outer with
              | none =>
                  rw [lookupFrom_outermost hs hv ho] at h
                  cases h
                  exact ⟨1, hone, .outermost hs hv ho⟩
              | some outer =>
                  rw [lookupFrom_outward hs hv ho] at h
                  obtain ⟨steps, hsteps, hlooks⟩ := ih h
                  exact ⟨steps + 1, Nat.succ_le_succ hsteps, .outward hs hv ho hlooks⟩

/-- With more steps than the chain is long, pinning comes to its end. -/
theorem pins_pinFrom (hfalls : a.FallsOutward height) (n : Nat)
    (hn : (a.upTo height id).card < n) : ∃ steps ≤ n, Pins id steps a (pinFrom n id a) := by
  induction n generalizing id a with
  | zero => exact absurd hn (Nat.not_lt_zero _)
  | succ n ih =>
      have hone : 1 ≤ n + 1 := Nat.le_add_left 1 n
      rw [pinFrom]
      split
      · rename_i hs
        exact ⟨1, hone, .gone hs⟩
      · rename_i scope hs
        split
        · rename_i hp
          exact ⟨1, hone, .pinned hs hp⟩
        · rename_i hp
          have hunpinned := Bool.eq_false_iff.2 hp
          dsimp only
          split
          · rename_i ho
            exact ⟨1, hone, .outermost hs hunpinned ho⟩
          · rename_i outer ho
            have hmore := pinsMore_update a id
            have hlive := liveIds_eq_of_contains hmore.contains_eq
            have hlt := card_upTo_lt hfalls hs ho
            have hroom : ((a.update id fun scope => { scope with pinned := true }).upTo
                height outer).card < n := by
              rw [upTo_eq_of_liveIds hlive]
              omega
            obtain ⟨steps, hsteps, hpins⟩ := ih (hfalls.of_pinsMore hmore) hroom
            exact ⟨steps + 1, Nat.succ_le_succ hsteps, .outward hs hunpinned ho hpins⟩

end Arena

namespace Guarded

open Arena (Looks Pins)

/-- In every state that is reached, from any name, live or gone or of another store: a walk
along the links meets no name twice and is no longer than the number of scopes that live
and one more, and within as many steps looking for a name and pinning come to their end. -/
theorem walks_end {g : Guarded} (hg : g.Reachable) (id : ScopeId) :
    let bound := g.environment.liveScopes + 1
    (∀ n, (g.arena.walk n id).Nodup ∧ (g.arena.walk n id).length ≤ bound) ∧
    (∀ name, ∃ steps ≤ bound, g.arena.Looks name id steps (g.arena.lookup id name)) ∧
    ∃ steps ≤ bound, Pins id steps g.arena (g.arena.pin id) := by
  have hlinked := hg.sound.linked
  obtain ⟨height, hfalls⟩ := hlinked.grounded
  have hcard := g.arena.card_upTo_le height id
  rw [← hlinked.consistent.live_eq] at hcard
  refine ⟨fun n => ⟨Arena.nodup_walk hfalls n id, ?_⟩, fun name => ?_, ?_⟩
  · exact (Arena.length_walk_le hfalls n id).trans (Nat.succ_le_succ hcard)
  · obtain ⟨result, hresult⟩ := hlinked.lookupFrom_isSome name id
    have hlookup : g.arena.lookup id name = result := by
      rw [Arena.lookup, hresult, Option.getD_some]
    rw [hlookup]
    exact Arena.looks_of_lookupFrom hresult
  · exact Arena.pins_pinFrom hfalls _ (Nat.lt_succ_of_le hcard)

/-- A block is freed by a collection inside it, and is current again when that is left; of
two blocks that are entered then the inner one takes the slot of the block that is gone, and
lies in it through the other. -/
theorem walks_end_reused :
    let block := initial.apply .enterBlock
    let inner := block.apply (.enterScope block.environment.root)
    let left := (inner.collect []).apply .leave
    let g := (left.apply .enterBlock).apply .enterBlock
    (g.current = ⟨1, 1⟩ ∧ g.environment.liveScopes = 3 ∧
      g.arena.walk 4 ⟨1, 1⟩ = [⟨1, 1⟩, ⟨2, 1⟩, ⟨1, 0⟩]) ∧
      (g.arena.walk 4 ⟨1, 1⟩).Nodup ∧ (g.arena.walk 4 ⟨1, 1⟩).length ≤ 4 ∧
      ∃ steps ≤ 4, g.arena.Looks "x" ⟨1, 1⟩ steps .dangling := by
  intro block inner left g
  have hinner : inner.Reachable := .change (.change .start .enterBlock) (.enterScope _)
  have hleft : left.Reachable := .change (.collect hinner trivial) .leave
  have hg : g.Reachable := .change (.change hleft .enterBlock) .enterBlock
  have hmade : inner = ⟨⟨⟨#[⟨0, some ⟨[], none, true⟩⟩, ⟨0, some ⟨[], some ⟨0, 0⟩, false⟩⟩,
      ⟨0, some ⟨[], some ⟨0, 0⟩, false⟩⟩], [], 3⟩, ⟨0, 0⟩, ⟨2, 0⟩, 0⟩, [⟨1, 0⟩, ⟨0, 0⟩]⟩ := rfl
  have hmarks : inner.environment.arena.reached
      [inner.environment.root, inner.environment.current] [] =
        ((Array.replicate 3 false).setIfInBounds 0 true).setIfInBounds 2 true := by
    rw [hmade]
    simp [Arena.reached, Arena.markFrom, Arena.get?, Scope.references, itemScopes]
  have hcollected : inner.collect [] = ⟨⟨⟨#[⟨0, some ⟨[], none, true⟩⟩, ⟨1, none⟩,
      ⟨0, some ⟨[], some ⟨0, 0⟩, false⟩⟩], [1], 2⟩, ⟨0, 0⟩, ⟨2, 0⟩, 0⟩,
      [⟨1, 0⟩, ⟨0, 0⟩]⟩ := by
    rw [Guarded.collect, Environment.collectGarbage, Arena.collect, hmarks]
    rfl
  have hnow : g = ⟨⟨⟨#[⟨0, some ⟨[], none, true⟩⟩, ⟨1, some ⟨[], some ⟨2, 1⟩, false⟩⟩,
      ⟨1, some ⟨[], some ⟨1, 0⟩, false⟩⟩], [], 3⟩, ⟨0, 0⟩, ⟨1, 1⟩, 0⟩,
      [⟨2, 1⟩, ⟨1, 0⟩, ⟨0, 0⟩]⟩ := by
    simp only [g, left, hcollected]
    rfl
  have hlive : g.environment.liveScopes = 3 := by rw [hnow]; rfl
  have hwalk : g.arena.walk 4 ⟨1, 1⟩ = [⟨1, 1⟩, ⟨2, 1⟩, ⟨1, 0⟩] := by rw [hnow]; rfl
  have hlookup : g.arena.lookup ⟨1, 1⟩ "x" = .dangling := by rw [hnow]; rfl
  obtain ⟨hwalks, hlooks, -⟩ := walks_end hg ⟨1, 1⟩
  rw [hlive] at hwalks hlooks
  obtain ⟨hnodup, hlength⟩ := hwalks 4
  have hlooks := hlooks "x"
  rw [hlookup] at hlooks
  exact ⟨⟨by rw [hnow]; rfl, hlive, hwalk⟩, hnodup, hlength, hlooks⟩

end Guarded
end Treewalk
