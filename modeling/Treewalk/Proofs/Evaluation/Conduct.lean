import Treewalk.Proofs.Evaluation.Account
import Treewalk.Proofs.Evaluation.Reclamation

/-!
How evaluations conduct themselves. The trace of an evaluation leads where the
evaluation ends, with every scope left that it has entered; the root, the current scope
and the depth of calls are what they were, whatever the result; each capture is that of
a function made; and of the scopes that the evaluation made only pinned ones remain.

States are reached by changes, by collections, and by evaluations, which may be seen
on their way as well as at their end.
-/

namespace Treewalk

open Environment (Change)

def Environment.Change.isCapture : Change → Bool
  | .capture => true
  | _ => false

/-- What an evaluation does from its first machine to its last. -/
structure Conduct (m : Machine) (changes : List Change) (after : Machine) : Prop where
  retraced : ∀ suspended,
    Guarded.run ⟨m.environment, suspended⟩ changes = ⟨after.environment, suspended⟩
  root_eq : after.environment.root = m.environment.root
  current_eq : after.environment.current = m.environment.current
  callDepth_eq : after.environment.callDepth = m.environment.callDepth
  functions_eq : after.functions = m.functions + changes.countP Change.isCapture
  outlived : m.environment.arena.Consistent → after.environment.arena.Consistent ∧
    m.environment.arena.Outlived after.environment.arena

namespace Conduct

variable {m m' m'' after : Machine} {changes more : List Change}

theorem rest (m : Machine) : Conduct m [] m :=
  ⟨fun _ => rfl, rfl, rfl, rfl, rfl, fun hc => ⟨hc, .refl _⟩⟩

theorem trans (h : Conduct m changes m') (k : Conduct m' more m'') :
    Conduct m (changes ++ more) m'' := by
  refine ⟨fun suspended => ?_, k.root_eq.trans h.root_eq, k.current_eq.trans h.current_eq,
    k.callDepth_eq.trans h.callDepth_eq, ?_, fun hc => ?_⟩
  · rw [Guarded.run_append, h.retraced, k.retraced]
  · rw [k.functions_eq, h.functions_eq, List.countP_append, Nat.add_assoc]
  · obtain ⟨hc', hfirst⟩ := h.outlived hc
    obtain ⟨hc'', hsecond⟩ := k.outlived hc'
    exact ⟨hc'', hfirst.trans hsecond⟩

theorem define (m : Machine) (name : String) (value : Value) :
    Conduct m [.define name value] (m.changeEnvironment (Environment.define name value)) :=
  ⟨fun _ => rfl, rfl, rfl, rfl, rfl,
    fun hc => ⟨Arena.consistent_define hc .., .define ..⟩⟩

theorem capture (m : Machine) :
    Conduct m [.capture] ⟨m.environment.capture.2, m.printed, m.functions + 1, m.flag⟩ :=
  ⟨fun _ => rfl, rfl, rfl, rfl, rfl,
    fun hc => ⟨Arena.consistent_pin hc _, .of_pinsMore (Arena.pinsMore_pin _ _)⟩⟩

theorem within {c : Change} {outer : ScopeId} (henters : m.Enters c outer)
    (h : Conduct (Eval.enter outer m).2 changes after) :
    Conduct m (c :: (changes ++ [.leave]))
      (Eval.leave .prompt m.environment.current after) := by
  refine ⟨fun suspended => ?_, h.root_eq, rfl, h.callDepth_eq, ?_, fun hc => ?_⟩
  · rw [Guarded.run_cons, henters.apply_eq, Guarded.run_append, h.retraced]
    rfl
  · have hfunctions : (Eval.leave .prompt m.environment.current after).functions =
        m.functions + changes.countP Change.isCapture := h.functions_eq
    rw [hfunctions, List.countP_cons, List.countP_append]
    cases henters <;> rfl
  · obtain ⟨hc', houtlived⟩ := h.outlived (Arena.consistent_alloc hc (some outer))
    have hcurrent : after.environment.current =
        (m.environment.arena.alloc (some outer)).1 := h.current_eq
    refine ⟨Arena.consistent_release hc' _, ?_⟩
    show m.environment.arena.Outlived
      (after.environment.arena.release after.environment.current)
    rw [hcurrent]
    exact .enter_leave hc houtlived

theorem call {limit : Option Nat} {environment : Environment}
    (hlimit : m.environment.enterCall limit = .ok environment)
    (h : Conduct { m with environment } changes after) :
    Conduct m (.enterCall limit :: (changes ++ [.exitCall]))
      (after.changeEnvironment Environment.exitCall) := by
  have hbegan := Environment.eq_of_enterCall hlimit
  refine ⟨fun suspended => ?_, ?_, ?_, ?_, ?_, ?_⟩
  · rw [Guarded.run_cons, Guarded.apply, hlimit, Guarded.run_append, h.retraced]
    rfl
  · exact h.root_eq.trans (by rw [hbegan])
  · exact h.current_eq.trans (by rw [hbegan])
  · show after.environment.callDepth - 1 = m.environment.callDepth
    rw [h.callDepth_eq, hbegan]
    rfl
  · have hfunctions : after.functions = m.functions + changes.countP Change.isCapture :=
      h.functions_eq
    show after.functions = _
    rw [hfunctions, List.countP_cons, List.countP_append]
    rfl
  · have houtlived := h.outlived
    rw [hbegan] at houtlived
    exact houtlived

end Conduct

/-- Every evaluation that ends is conducted so. -/
def conducting : Account where
  Says _ m events := Conduct m (Event.changes events)
  rest _ := Conduct.rest
  trans h k := by
    rw [Event.changes_append]
    exact h.trans k
  look _ m := ⟨fun _ => rfl, rfl, rfl, rfl, rfl, fun hc => ⟨hc, .refl m.environment.arena⟩⟩
  print _ m _ := ⟨fun _ => rfl, rfl, rfl, rfl, rfl, fun hc => ⟨hc, .refl m.environment.arena⟩⟩
  define m value _ := Conduct.define m _ value
  capture _ := Conduct.capture
  within henters h := by
    rw [Event.changes_around]
    exact h.within henters
  call hlimit h := by
    rw [Event.changes_around]
    exact h.call hlimit
  ofNode _ _ h := by
    rw [Event.changes_ofNode]
    exact h

theorem Task.conduct {ctx : Context} {allowance : Nat} {task : Task} {m after : Machine}
    {r : Except EvalError Value} (h : task.evalUnder ctx allowance m = some (r, after)) :
    Conduct m (task.trace ctx allowance m) after :=
  conducting.covers_evalUnder ctx allowance task m r after h

namespace Guarded

/-- A state is reached from another by changes, by collections that the state and the
values allow, and by evaluations. -/
inductive Leads (allowed : Guarded → List Value → Prop) (start : Guarded) : Guarded → Prop where
  | start : Leads allowed start start
  | change {g : Guarded} (before : Leads allowed start g) (c : Change) :
      Leads allowed start (g.apply c)
  | collect {g : Guarded} (before : Leads allowed start g) {values : List Value}
      (given : allowed g values) : Leads allowed start (g.collect values)
  /-- an evaluation, on its way -/
  | midway {g : Guarded} (before : Leads allowed start g) (ctx : Context) (allowance : Nat)
      (task : Task) (printed : String) (functions : Nat) (flag : Flag) {changes : List Change}
      (made : changes <+: task.trace ctx allowance ⟨g.environment, printed, functions, flag⟩) :
      Leads allowed start (g.run changes)
  /-- an evaluation that has ended, whatever its result -/
  | ended {g : Guarded} (before : Leads allowed start g) {ctx : Context} {allowance : Nat}
      {task : Task} {printed : String} {functions : Nat} {flag : Flag}
      {r : Except EvalError Value} {after : Machine}
      (given : task.evalUnder ctx allowance ⟨g.environment, printed, functions, flag⟩ =
        some (r, after)) :
      Leads allowed start ⟨after.environment, g.suspended⟩

/-- A state is reached from the start. -/
def Reachable : Guarded → Prop :=
  Leads (fun _ _ => True) initial

variable {allowed : Guarded → List Value → Prop} {start g : Guarded}

theorem Leads.run (h : Leads allowed start g) (changes : List Change) :
    Leads allowed start (g.run changes) := by
  induction changes generalizing g with
  | nil => exact h
  | cons c changes ih => exact ih (h.change c)

/-- What changes and collections keep is kept on every way. -/
theorem Leads.preserves {P : Guarded → Prop} (h : Leads allowed start g) (hstart : P start)
    (hchange : ∀ g c, P g → P (g.apply c))
    (hcollect : ∀ g values, P g → allowed g values → P (g.collect values)) : P g := by
  have hrun : ∀ (changes : List Change) (g : Guarded), P g → P (g.run changes) := by
    intro changes
    induction changes with
    | nil => exact fun _ hg => hg
    | cons c changes ih => exact fun g hg => ih _ (hchange g c hg)
  induction h with
  | start => exact hstart
  | change _ c ih => exact hchange _ c ih
  | collect _ given ih => exact hcollect _ _ ih given
  | midway _ _ _ _ _ _ _ _ ih => exact hrun _ _ ih
  | @ended g _ _ _ _ _ _ _ _ _ given ih =>
      have hretraced := (Task.conduct given).retraced g.suspended
      rw [← hretraced]
      exact hrun _ _ ih

theorem Leads.sound (h : Leads allowed start g) (hstart : start.Sound) : g.Sound :=
  h.preserves hstart (fun _ c hg => hg.apply c) fun _ values hg _ => hg.collect values

theorem Reachable.sound (h : g.Reachable) : g.Sound :=
  Leads.sound h sound_initial

/-- A program that is run to its end leads to a state, though it may collect scopes. -/
theorem Leads.runUnder (h : Leads allowed start g) {ctx : Context} {allowance : Nat}
    {p : Program} {printed : String} {functions : Nat} {flag : Flag} {v : Value}
    {after : Machine}
    (hrun : p.runUnder .prompt ctx allowance ⟨g.environment, printed, functions, flag⟩ =
      some (v, after))
    (hallowed : ∀ m : Machine, ctx.collectAbove < m.environment.liveScopes →
      Leads allowed start ⟨m.environment, g.suspended⟩ →
      allowed ⟨m.environment, g.suspended⟩ [v]) :
    Leads allowed start ⟨after.environment, g.suspended⟩ := by
  have hcollect : ∀ {r : Except EvalError Value} {m : Machine},
      (Task.program p).evalUnder ctx allowance ⟨g.environment, printed, functions, flag⟩ =
        some (r, m) →
      Leads allowed start
        ⟨(Program.collectAfter .prompt ctx v m).environment, g.suspended⟩ := by
    intro r m hr
    have hended := Leads.ended h hr
    rw [Program.collectAfter]
    split
    · rename_i habove
      exact hended.collect (hallowed m habove hended)
    · exact hended
  rw [Program.runUnder] at hrun
  split at hrun
  · cases hrun
  · rename_i hr
    cases hrun
    exact hcollect hr
  · rename_i hr
    cases hrun
    exact hcollect hr

end Guarded
end Treewalk
