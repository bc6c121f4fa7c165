import Treewalk.Proofs.Evaluation.Conduct

/-!
Captured scopes stay. When a function captures the current scope, the scopes of its
chain are pinned, and no change moves or frees a pinned scope. So they are in their
places on every way that follows, and names that could be looked for from the captured
scope can still be looked for, until a collection does not reach it.
-/

namespace Treewalk
namespace Guarded

/-- A collection now would reach the scope. -/
def Sparing (id : ScopeId) (g : Guarded) (values : List Value) : Prop :=
  g.Reaches values id

variable {g g' : Guarded} {id : ScopeId}

theorem Sound.pinned_onChain (h : g.Sound) (hp : g.arena.Pinned id) {x : ScopeId}
    (hx : g.arena.OnChain id x) : g.arena.Pinned x :=
  hp.onChain hx fun y _ => h.pinnedAround y

/-- The chain of a pinned scope remains wherever collections spare the scope. -/
theorem Sound.remains (h : g.Sound) (hp : g.arena.Pinned id)
    (hleads : Leads (Sparing id) g g') {x : ScopeId} (hx : g.arena.OnChain id x) :
    g.arena.Remains g'.arena x := by
  let Kept (k : Guarded) : Prop :=
    k.Sound ∧ ∀ y, g.arena.OnChain id y → g.arena.Remains k.arena y
  have hpinned : ∀ k, Kept k → ∀ y, g.arena.OnChain id y → k.arena.Pinned y :=
    fun k hk y hy => (hk.2 y hy).pinned (h.pinned_onChain hp hy)
  have hkept : Kept g' := by
    refine hleads.preserves ⟨h, fun _ _ => .of_eq rfl⟩ (fun k c hk => ?_)
      fun k values hk hspared => ?_
    · exact ⟨hk.1.apply c, fun y hy => (hk.2 y hy).trans (hk.1.remains_apply c (hpinned k hk y hy))⟩
    · refine ⟨hk.1.collect values, fun y hy => (hk.2 y hy).trans (hk.1.remains_collect ?_)⟩
      exact Reaches.onChain hspared (hy.of_remains hk.2)
  exact hkept.2 x hx

theorem Sound.lookup_ne_dangling (h : g.Sound) (hp : g.arena.Pinned id)
    (hleads : Leads (Sparing id) g g') {name : String}
    (hlookup : g.arena.lookup id name ≠ .dangling) : g'.arena.lookup id name ≠ .dangling :=
  h.linked.lookup_ne_dangling (fun _ hx => h.remains hp hleads hx) hlookup

/-- In every state the scope around a pinned scope is pinned, if it lives. Once the
current scope is captured, the scopes on its chain live as long as every collection
reaches it, and looking for a name from it does not newly meet a scope that is gone. -/
theorem captured_scopes_live :
    (∀ g : Guarded, g.Reachable → g.arena.PinnedAround) ∧
    ∀ g : Guarded, g.Reachable → g.arena.contains g.current = true →
      ∀ g', Leads (Sparing g.current) (g.apply .capture) g' →
        (∀ id, g.arena.OnChain g.current id → g'.arena.contains id = true) ∧
        ∀ g'', Leads (Sparing g.current) g' g'' → ∀ name,
          g'.arena.lookup g.current name ≠ .dangling →
            g''.arena.lookup g.current name ≠ .dangling := by
  refine ⟨fun g hg => hg.sound.pinnedAround, fun g hg hlives g' hleads => ?_⟩
  have hcaptured := hg.sound.apply .capture
  have hchain : ∀ id, (g.apply .capture).arena.OnChain g.current id ↔
      g.arena.OnChain g.current id := fun id => (Arena.pinsMore_pin _ _).onChain_iff
  have hpinned : (g.apply .capture).arena.Pinned g.current :=
    (hg.sound.linked.pinned_pin_iff hg.sound.pinnedAround _).2 (.inr (.self hlives))
  have hremains : ∀ id, g.arena.OnChain g.current id →
      (g.apply .capture).arena.Remains g'.arena id :=
    fun id hid => hcaptured.remains hpinned hleads ((hchain id).2 hid)
  have hpinned' := (hremains _ (.self hlives)).pinned hpinned
  refine ⟨fun id hid => ?_, fun g'' hleads' name hname => ?_⟩
  · exact ((hremains id hid).pinned (hcaptured.pinned_onChain hpinned ((hchain id).2 hid))).lives
  · exact (hleads.sound hcaptured).lookup_ne_dangling hpinned' hleads' hname

/-- A block has its scope captured and is left; a collection is given the function. -/
theorem captured_scopes_live_block :
    let block := initial.apply .enterBlock
    let left := (block.apply .capture).apply .leave
    let kept := left.collect [.function ⟨[], ⟨⟨.lbrace, "\x7b"⟩, []⟩, block.current, 0⟩]
    kept.arena.contains block.current = true ∧ kept.arena.contains block.environment.root = true ∧
      kept.arena.lookup block.current "x" ≠ .dangling := by
  intro block left kept
  have hreachable : block.Reachable := .change .start .enterBlock
  have hlives : block.arena.contains block.current = true := by decide
  have hleft : Leads (Sparing block.current) (block.apply .capture) left := .change .start .leave
  have hspared : Sparing block.current left
      [.function ⟨[], ⟨⟨.lbrace, "\x7b"⟩, []⟩, block.current, 0⟩] :=
    .held List.mem_cons_self (.itself _) (by decide)
  have hkept : Leads (Sparing block.current) left kept := .collect .start hspared
  have hroot : block.arena.OnChain block.current block.environment.root :=
    .outer (.self hlives) rfl rfl (by decide)
  obtain ⟨hchain, -⟩ := captured_scopes_live.2 block hreachable hlives kept (.collect hleft hspared)
  obtain ⟨-, hlookup⟩ := captured_scopes_live.2 block hreachable hlives left hleft
  exact ⟨hchain _ (.self hlives), hchain _ hroot, hlookup kept hkept "x" nofun⟩

end Guarded
end Treewalk
