import Treewalk.Proofs.Evaluation.Steps
import Treewalk.Proofs.Value.Alike

/-!
Two evaluations of the same syntax, side by side. A comparison says which pairs of
machines are matched, how a matched pair may go on, and which functions on the two
sides answer to each other. If the elementary steps keep to the comparison, then so
does every evaluation: the two sides end together, with alike values or the same
error, on machines that are matched again.

The comparison may give up when the left side fails with an error of a given kind.
-/

namespace Treewalk

/-- What holds between two machines while two evaluations go on side by side. -/
structure Comparison where
  /-- a matched pair of machines -/
  World : Type
  left : World → Machine
  right : World → Machine
  /-- where a pair may be after an evaluation -/
  later : World → World → Prop
  /-- the functions of the two sides that answer to each other -/
  functions : World → Function → Function → Prop
  /-- the errors that both sides may end with -/
  allows : EvalError → Prop
  /-- the errors of the left side after which nothing more is compared -/
  abandons : EvalError → Prop
  later_refl : ∀ w, later w w
  later_trans : ∀ {w w' w''}, later w w' → later w' w'' → later w w''
  functions_later : ∀ {w w'}, later w w' → ∀ f g, functions w f g → functions w' f g
  functions_syntax : ∀ {w f g}, functions w f g →
    f.parameters = g.parameters ∧ f.body = g.body
  not_abandons_returning : ∀ v, ¬ abandons (.returning v)

namespace Comparison

variable (C : Comparison) {α β γ δ : Type}

/-- Values that are alike in a world. -/
def Values (w : C.World) : Value → Value → Prop :=
  Value.Alike (C.functions w)

/-- How two runs that begin in a world may end. -/
inductive Ends (A : C.World → α → β → Prop) (w : C.World) :
    Option (Except EvalError α × Machine) → Option (Except EvalError β × Machine) → Prop where
  | never : Ends A w none none
  | ok {a : α} {b : β} (w' : C.World) (later : C.later w w') (results : A w' a b) :
      Ends A w (some (.ok a, C.left w')) (some (.ok b, C.right w'))
  | returning {v v' : Value} (w' : C.World) (later : C.later w w')
      (values : C.Values w' v v') :
      Ends A w (some (.error (.returning v), C.left w'))
        (some (.error (.returning v'), C.right w'))
  | failure {e : EvalError} (w' : C.World) (later : C.later w w')
      (failed : e.isReturn = false) (allowed : C.allows e) :
      Ends A w (some (.error e, C.left w')) (some (.error e, C.right w'))
  | abandoned {e : EvalError} {m : Machine} {r : Option (Except EvalError β × Machine)}
      (given : C.abandons e) : Ends A w (some (.error e, m)) r

/-- Two evaluations that, begun in a world, keep to the comparison. -/
def Agree (A : C.World → α → β → Prop) (w : C.World) (run : Eval α) (other : Eval β) : Prop :=
  C.Ends A w (run (C.left w)) (other (C.right w))

/-- No result to speak of. -/
def Done (_ : C.World) (_ _ : Unit) : Prop := True

variable {C} {A : C.World → α → β → Prop} {B : C.World → γ → δ → Prop}

theorem Values.later {w w' : C.World} (h : C.later w w') {v v' : Value}
    (hv : C.Values w v v') : C.Values w' v v' :=
  hv.mono (C.functions_later h)

theorem inspect_eq_of_functions {w : C.World} (f g : Function) (h : C.functions w f g) :
    f.inspect = g.inspect := by
  obtain ⟨hp, hb⟩ := C.functions_syntax h
  rw [Function.inspect, Function.inspect, hp, hb]

/-- What two runs end in may be looked at from an earlier world. -/
theorem Ends.from_earlier {w w' : C.World} {x : Option (Except EvalError α × Machine)}
    {y : Option (Except EvalError β × Machine)} (hw : C.later w w') (h : C.Ends A w' x y) :
    C.Ends A w x y := by
  cases h with
  | never => exact .never
  | ok w'' later results => exact .ok w'' (C.later_trans hw later) results
  | returning w'' later values => exact .returning w'' (C.later_trans hw later) values
  | failure w'' later failed allowed =>
      exact .failure w'' (C.later_trans hw later) failed allowed
  | abandoned given => exact .abandoned given

theorem agree_pure {w : C.World} {a : α} {b : β} (h : A w a b) :
    C.Agree A w (pure a) (pure b) :=
  .ok w (C.later_refl w) h

theorem agree_fail {w : C.World} {e : EvalError} (hr : e.isReturn = false) (h : C.allows e) :
    C.Agree A w (Run.fail e) (Run.fail e) :=
  .failure w (C.later_refl w) hr h

theorem Agree.bind {w : C.World} {run : Eval α} {other : Eval β} {next : α → Eval γ}
    {otherNext : β → Eval δ} (h : C.Agree A w run other)
    (hnext : ∀ w' a b, C.later w w' → A w' a b → C.Agree B w' (next a) (otherNext b)) :
    C.Agree B w (run >>= next) (other >>= otherNext) := by
  rw [Agree] at h ⊢
  rw [Run.bind_apply, Run.bind_apply]
  generalize run (C.left w) = x at h
  generalize other (C.right w) = y at h
  cases h with
  | never => exact .never
  | ok w' later results => exact (hnext w' _ _ later results).from_earlier later
  | returning w' later values => exact .returning w' later values
  | failure w' later failed allowed => exact .failure w' later failed allowed
  | abandoned given => exact .abandoned given

/-- Both sides find the flag as it is, if it is the same flag. -/
theorem agree_poll {w : C.World} (hflag : (C.right w).flag = (C.left w).flag)
    (hallows : C.allows .interrupted)
    (hnext : ∃ w', C.later w w' ∧ C.left w' = (C.left w).look ∧
      C.right w' = (C.right w).look) :
    C.Agree C.Done w Eval.poll Eval.poll := by
  obtain ⟨w', hw, hl, hr⟩ := hnext
  rw [Agree]
  cases hraised : (C.left w).flag.isRaised with
  | true =>
      have hraised' : (C.right w).flag.isRaised = true := by rw [hflag, hraised]
      rw [Eval.poll_of_raised hraised, Eval.poll_of_raised hraised', ← hl, ← hr]
      exact .failure w' hw rfl hallows
  | false =>
      have hraised' : (C.right w).flag.isRaised = false := by rw [hflag, hraised]
      rw [Eval.poll_of_lowered hraised, Eval.poll_of_lowered hraised', ← hl, ← hr]
      exact .ok w' hw trivial

theorem agree_ofExcept (hallows : ∀ e, e.isFault = true → C.allows e) {w : C.World}
    {r r' : Except EvalError Value} (h : AlikeResults (C.functions w) r r') :
    C.Agree C.Values w (Run.ofExcept r) (Run.ofExcept r') := by
  cases h with
  | ok values => exact .ok w (C.later_refl w) values
  | @error e fault =>
      refine .failure w (C.later_refl w) ?_ (hallows _ fault)
      cases e with
      | returning v => cases fault
      | _ => rfl

theorem agree_endReturn {w : C.World} {run other : Eval Value}
    (h : C.Agree C.Values w run other) :
    C.Agree C.Values w (Eval.endReturn run) (Eval.endReturn other) := by
  rw [Agree] at h ⊢
  rw [Eval.endReturn, Eval.endReturn]
  generalize run (C.left w) = x at h
  generalize other (C.right w) = y at h
  cases h with
  | never => exact .never
  | ok w' later results => exact .ok w' later results
  | returning w' later values => exact .ok w' later values
  | @failure e w' later failed allowed =>
      cases e with
      | returning v => cases failed
      | _ => exact .failure w' later rfl allowed
  | @abandoned e m r given =>
      cases e with
      | returning v => exact (C.not_abandons_returning v given).elim
      | _ => exact .abandoned given

theorem agree_finally {w : C.World} {run other : Eval Value} {f g : Machine → Machine}
    (h : C.Agree C.Values w run other)
    (hfinal : ∀ w', ∃ w'', C.later w' w'' ∧ C.left w'' = f (C.left w') ∧
      C.right w'' = g (C.right w')) :
    C.Agree C.Values w
      (do
        let result ← Run.outcome run
        Run.update f
        Run.ofExcept result)
      (do
        let result ← Run.outcome other
        Run.update g
        Run.ofExcept result) := by
  rw [Agree] at h ⊢
  simp only [Run.bind_apply, Run.outcome]
  generalize run (C.left w) = x at h
  generalize other (C.right w) = y at h
  cases h with
  | never => exact .never
  | ok w' later results =>
      obtain ⟨w'', hw, hl, hr⟩ := hfinal w'
      simp only [Run.update_apply, Run.ofExcept_apply, ← hl, ← hr]
      exact .ok w'' (C.later_trans later hw) (Values.later hw results)
  | returning w' later values =>
      obtain ⟨w'', hw, hl, hr⟩ := hfinal w'
      simp only [Run.update_apply, Run.ofExcept_apply, ← hl, ← hr]
      exact .returning w'' (C.later_trans later hw) (values.later hw)
  | failure w' later failed allowed =>
      obtain ⟨w'', hw, hl, hr⟩ := hfinal w'
      simp only [Run.update_apply, Run.ofExcept_apply, ← hl, ← hr]
      exact .failure w'' (C.later_trans later hw) failed allowed
  | abandoned given => exact .abandoned given

/-- A scope may be entered and left around runs that agree, if worlds may. -/
theorem agree_within {w : C.World} (w₁ : C.World) {policy policy' : Reclamation}
    {outer outer' : ScopeId} {run other : Eval Value}
    (hleft : C.left w₁ = (Eval.enter outer (C.left w)).2)
    (hright : C.right w₁ = (Eval.enter outer' (C.right w)).2)
    (hbody : C.Agree C.Values w₁ run other)
    (hleave : ∀ w', C.later w₁ w' → ∃ w'', C.later w w'' ∧
      C.left w'' = Eval.leave policy (C.left w).environment.current (C.left w') ∧
      C.right w'' = Eval.leave policy' (C.right w).environment.current (C.right w') ∧
      ∀ f g, C.functions w' f g → C.functions w'' f g) :
    C.Agree C.Values w (Eval.within policy outer run) (Eval.within policy' outer' other) := by
  rw [Agree] at hbody ⊢
  rw [Eval.within_apply, Eval.within_apply, ← hleft, ← hright]
  generalize run (C.left w₁) = x at hbody
  generalize other (C.right w₁) = y at hbody
  cases hbody with
  | never => exact .never
  | ok w' later results =>
      obtain ⟨w'', hw, hl, hr, hfunctions⟩ := hleave w' later
      simp only [Option.map_some, ← hl, ← hr]
      exact .ok w'' hw (results.mono hfunctions)
  | returning w' later values =>
      obtain ⟨w'', hw, hl, hr, hfunctions⟩ := hleave w' later
      simp only [Option.map_some, ← hl, ← hr]
      exact .returning w'' hw (values.mono hfunctions)
  | failure w' later failed allowed =>
      obtain ⟨w'', hw, hl, hr, -⟩ := hleave w' later
      simp only [Option.map_some, ← hl, ← hr]
      exact .failure w'' hw failed allowed
  | abandoned given => exact .abandoned given

/-- A call begins on both sides or on none, if calls are nested equally deep. -/
theorem agree_enterCall {w : C.World} (limit : Option Nat)
    (hdepth : (C.right w).environment.callDepth = (C.left w).environment.callDepth)
    (hallows : ∀ depth max, C.allows (.stackOverflow depth max))
    (hnext : ∃ w', C.later w w' ∧
      C.left w' = (C.left w).changeEnvironment (fun env =>
        { env with callDepth := env.callDepth + 1 }) ∧
      C.right w' = (C.right w).changeEnvironment (fun env =>
        { env with callDepth := env.callDepth + 1 })) :
    C.Agree C.Done w (Eval.enterCall limit) (Eval.enterCall limit) := by
  obtain ⟨w', hw, hl, hr⟩ := hnext
  have hbegun : C.Ends C.Done w (some (.ok (), C.left w')) (some (.ok (), C.right w')) :=
    .ok w' hw trivial
  rw [hl, hr] at hbegun
  rw [Agree]
  cases limit with
  | none => exact hbegun
  | some max =>
      rw [Eval.enterCall_some, Eval.enterCall_some, hdepth]
      split
      · exact .failure w (C.later_refl w) rfl (hallows _ _)
      · exact hbegun

end Comparison

open Comparison

/-- Calls of alike values with alike arguments keep to the comparison. -/
def Comparison.AgreeCalls (C : Comparison) (call call' : Value → List Value → Eval Value) : Prop :=
  ∀ w v v' args args', C.Values w v v' → AlikeItems (C.functions w) args args' →
    C.Agree C.Values w (call v args) (call' v' args')

/-- The elementary steps of two evaluations keep to a comparison. -/
structure Comparison.KeptBy (C : Comparison) (policy policy' : Reclamation)
    (ctx ctx' : Context) : Prop where
  allows_fault : ∀ e, e.isFault = true → C.allows e
  poll : ∀ w, C.Agree C.Done w Eval.poll Eval.poll
  resolve : ∀ w name, C.Agree C.Values w (Eval.resolve name) (Eval.resolve name)
  define : ∀ w name v v', C.Values w v v' →
    C.Agree C.Done w (Eval.define name v) (Eval.define name v')
  makeFunction : ∀ w parameters body,
    C.Agree C.Values w (Eval.makeFunction parameters body) (Eval.makeFunction parameters body)
  print : ∀ w text, ∃ w', C.later w w' ∧
    C.left w' = { C.left w with printed := (C.left w).printed ++ text } ∧
    C.right w' = { C.right w with printed := (C.right w).printed ++ text }
  inBlock : ∀ w (run other : Eval Value),
    (∀ w', (∀ f g, C.functions w f g → C.functions w' f g) → C.Agree C.Values w' run other) →
    C.Agree C.Values w (Eval.inBlock policy run) (Eval.inBlock policy' other)
  inScope : ∀ w f g (run other : Eval Value), C.functions w f g →
    (∀ w', (∀ f g, C.functions w f g → C.functions w' f g) → C.Agree C.Values w' run other) →
    C.Agree C.Values w (Eval.inScope policy f.scope run) (Eval.inScope policy' g.scope other)
  enterCall : ∀ w,
    C.Agree C.Done w (Eval.enterCall ctx.maxCallDepth) (Eval.enterCall ctx'.maxCallDepth)
  exitCall : ∀ w, ∃ w', C.later w w' ∧
    C.left w' = (C.left w).changeEnvironment Environment.exitCall ∧
    C.right w' = (C.right w).changeEnvironment Environment.exitCall

namespace Comparison.KeptBy

variable {C : Comparison} {policy policy' : Reclamation} {ctx ctx' : Context}

theorem unlessInterrupted (K : C.KeptBy policy policy' ctx ctx') {α β : Type}
    {A : C.World → α → β → Prop} {run : Eval α} {other : Eval β} (w : C.World)
    (h : ∀ w', C.Agree A w' run other) :
    C.Agree A w (Eval.unlessInterrupted run) (Eval.unlessInterrupted other) :=
  (K.poll w).bind fun w' _ _ _ _ => h w'

theorem callBuiltin (K : C.KeptBy policy policy' ctx ctx') (w : C.World) (b : Builtin)
    {args args' : List Value} (h : AlikeItems (C.functions w) args args') :
    C.Agree C.Values w (Eval.callBuiltin b args) (Eval.callBuiltin b args') := by
  obtain ⟨w', hw, hl, hr⟩ := K.print w (b.printed args)
  rw [Agree, Eval.callBuiltin, Eval.callBuiltin, ← b.printed_alike inspect_eq_of_functions h,
    ← hl, ← hr]
  have happly := b.apply_alike (h.mono (C.functions_later hw))
  generalize b.apply args = r at happly
  generalize b.apply args' = r' at happly
  cases happly with
  | ok values => exact .ok w' hw values
  | @error e fault =>
      refine .failure w' hw ?_ (K.allows_fault _ fault)
      cases e with
      | returning v => cases fault
      | _ => rfl

theorem defineAll (K : C.KeptBy policy policy' ctx ctx') (names : List String) (w : C.World)
    {args args' : List Value} (h : AlikeItems (C.functions w) args args') :
    C.Agree C.Done w (Eval.defineAll names args) (Eval.defineAll names args') := by
  induction names generalizing w args args' with
  | nil => exact agree_pure trivial
  | cons name names ih =>
      cases h with
      | nil => exact agree_pure trivial
      | cons head tail =>
          refine (K.define w name _ _ head).bind fun w' _ _ hw _ => ?_
          exact ih w' (tail.mono (C.functions_later hw))

section Rules

variable {call call' : Value → List Value → Eval Value}

mutual

theorem evalExpr (K : C.KeptBy policy policy' ctx ctx') (hcall : C.AgreeCalls call call') :
    (e : Expr) → (w : C.World) →
    C.Agree C.Values w (Treewalk.evalExpr policy call e) (Treewalk.evalExpr policy' call' e)
  | .name t, w => K.unlessInterrupted w fun w => K.resolve w t.literal
  | .integer _ n, w => K.unlessInterrupted w fun _ => agree_pure (.integer n)
  | .boolean _ b, w => K.unlessInterrupted w fun _ => agree_pure (.boolean b)
  | .string t, w => K.unlessInterrupted w fun _ => agree_pure (.string t.literal)
  | .prefixed _ op e, w => by
      refine K.unlessInterrupted w fun w => (evalExpr K hcall e w).bind fun w' v v' _ hv => ?_
      exact agree_ofExcept K.allows_fault (op.apply_alike hv)
  | .binary _ op l r, w => by
      refine K.unlessInterrupted w fun w => (evalExpr K hcall l w).bind fun w₁ v v' _ hv => ?_
      refine (evalExpr K hcall r w₁).bind fun w₂ u u' hw hu => ?_
      exact agree_ofExcept K.allows_fault (op.apply_alike (Values.later hw hv) hu)
  | .conditional _ c b none, w => by
      refine K.unlessInterrupted w fun w => (evalExpr K hcall c w).bind fun w' v v' _ hv => ?_
      rw [Value.Alike.isTruthy_eq hv]
      split
      · exact evalBlock K hcall b w'
      · exact agree_pure .null
  | .conditional _ c b (some alternative), w => by
      refine K.unlessInterrupted w fun w => (evalExpr K hcall c w).bind fun w' v v' _ hv => ?_
      rw [Value.Alike.isTruthy_eq hv]
      split
      · exact evalBlock K hcall b w'
      · exact evalBlock K hcall alternative w'
  | .function _ ps b, w => K.unlessInterrupted w fun w => K.makeFunction w _ b
  | .call _ f args, w => by
      refine K.unlessInterrupted w fun w => (evalExpr K hcall f w).bind fun w₁ v v' _ hv => ?_
      refine (evalExprs K hcall args w₁).bind fun w₂ vs vs' hw hvs => ?_
      exact hcall w₂ v v' vs vs' (Values.later hw hv) hvs
  | .array _ es, w => by
      refine K.unlessInterrupted w fun w => (evalExprs K hcall es w).bind fun w' vs vs' _ hvs => ?_
      exact agree_pure (.array hvs)
  | .index _ e i, w => by
      refine K.unlessInterrupted w fun w => (evalExpr K hcall e w).bind fun w₁ v v' _ hv => ?_
      refine (evalExpr K hcall i w₁).bind fun w₂ u u' hw hu => ?_
      exact agree_ofExcept K.allows_fault (Value.select_alike (Values.later hw hv) hu)
  | .hash _ ps, w => by
      refine K.unlessInterrupted w fun w => ?_
      refine (evalPairs K hcall ps w .nil).bind fun w' es es' _ hes => ?_
      exact agree_pure (.hash hes.1 hes.2)

theorem evalExprs (K : C.KeptBy policy policy' ctx ctx') (hcall : C.AgreeCalls call call') :
    (es : List Expr) → (w : C.World) →
    C.Agree (fun w => AlikeItems (C.functions w)) w (Treewalk.evalExprs policy call es)
      (Treewalk.evalExprs policy' call' es)
  | [], w => agree_pure .nil
  | e :: es, w => by
      refine (evalExpr K hcall e w).bind fun w₁ v v' _ hv => ?_
      refine (evalExprs K hcall es w₁).bind fun w₂ vs vs' hw hvs => ?_
      exact agree_pure (.cons (Values.later hw hv) hvs)

theorem evalPairs (K : C.KeptBy policy policy' ctx ctx') (hcall : C.AgreeCalls call call') :
    (ps : List (Expr × Expr)) → (w : C.World) →
    {entries entries' : List (HashKey × Value)} →
    AlikeEntries (C.functions w) entries entries' →
    C.Agree (fun w => AlikeEntries (C.functions w)) w
      (Treewalk.evalPairs policy call ps entries)
      (Treewalk.evalPairs policy' call' ps entries')
  | [], w, _, _, h => agree_pure h
  | (k, e) :: ps, w, _, _, h => by
      refine (evalExpr K hcall k w).bind fun w₁ key key' hw₁ hkey => ?_
      rw [Value.Alike.ofValue?_eq hkey, Value.Alike.type_eq hkey]
      split
      · exact agree_fail rfl (K.allows_fault _ rfl)
      · refine (evalExpr K hcall e w₁).bind fun w₂ v v' hw₂ hv => ?_
        exact evalPairs K hcall ps w₂
          ((h.mono (C.functions_later (C.later_trans hw₁ hw₂))).put _ hv)

theorem evalStmt (K : C.KeptBy policy policy' ctx ctx') (hcall : C.AgreeCalls call call') :
    (s : Stmt) → (w : C.World) →
    C.Agree C.Values w (Treewalk.evalStmt policy call s) (Treewalk.evalStmt policy' call' s)
  | .bind _ target e, w => by
      refine (evalExpr K hcall e w).bind fun w₁ v v' _ hv => ?_
      refine (K.define w₁ target.literal v v' hv).bind fun w₂ _ _ _ _ => ?_
      exact agree_pure .null
  | .ret _ e, w => by
      refine (evalExpr K hcall e w).bind fun w' v v' _ hv => ?_
      exact .returning w' (C.later_refl w') hv
  | .expr _ e, w => evalExpr K hcall e w

theorem evalStmts (K : C.KeptBy policy policy' ctx ctx') (hcall : C.AgreeCalls call call') :
    (ss : List Stmt) → (w : C.World) → {before before' : Value} →
    C.Values w before before' →
    C.Agree C.Values w (Treewalk.evalStmts policy call ss before)
      (Treewalk.evalStmts policy' call' ss before')
  | [], w, _, _, h => agree_pure h
  | s :: ss, w, _, _, _ => by
      refine K.unlessInterrupted w fun w => (evalStmt K hcall s w).bind fun w' v v' _ hv => ?_
      exact evalStmts K hcall ss w' hv

theorem evalBlock (K : C.KeptBy policy policy' ctx ctx') (hcall : C.AgreeCalls call call') :
    (b : Block) → (w : C.World) →
    C.Agree C.Values w (Treewalk.evalBlock policy call b) (Treewalk.evalBlock policy' call' b)
  | ⟨_, ss⟩, w => K.inBlock w _ _ fun w' _ => evalStmts K hcall ss w' .null

end

end Rules

theorem callValue (K : C.KeptBy policy policy' ctx ctx') (allowance : Nat) (w : C.World)
    {v v' : Value} {args args' : List Value} (hv : C.Values w v v')
    (hargs : AlikeItems (C.functions w) args args') :
    C.Agree C.Values w (Treewalk.callValue policy ctx allowance v args)
      (Treewalk.callValue policy' ctx' allowance v' args') := by
  induction allowance generalizing w v v' args args' with
  | zero =>
      cases hv with
      | @function f g answers =>
          obtain ⟨hparameters, -⟩ := C.functions_syntax answers
          have hsame : f.arity = g.arity := congrArg List.length hparameters
          simp only [Treewalk.callValue, hsame, hargs.length_eq]
          by_cases harity : args'.length = g.arity
          · rw [if_pos harity, if_pos harity]
            exact (K.enterCall w).bind fun w' _ _ _ _ => .never
          · rw [if_neg harity, if_neg harity]
            exact agree_fail rfl (K.allows_fault _ rfl)
      | builtin b =>
          simp only [Treewalk.callValue]
          exact K.callBuiltin w b hargs
      | integer | boolean | string | null | array | hash | error =>
          exact agree_fail rfl (K.allows_fault _ rfl)
  | succ rest ih =>
      cases hv with
      | @function f g answers =>
          obtain ⟨hparameters, hbody⟩ := C.functions_syntax answers
          have hsame : f.arity = g.arity := congrArg List.length hparameters
          simp only [Treewalk.callValue, hsame, hargs.length_eq]
          by_cases harity : args'.length = g.arity
          · rw [if_pos harity, if_pos harity]
            refine (K.enterCall w).bind fun w' _ _ hw _ => agree_endReturn ?_
            refine agree_finally ?_ K.exitCall
            refine K.inScope w' f g _ _ (C.functions_later hw f g answers) fun w₁ hw₁ => ?_
            rw [hparameters, hbody]
            have hargs₁ := hargs.mono fun f g h => hw₁ f g (C.functions_later hw f g h)
            refine (K.defineAll g.parameters w₁ hargs₁).bind fun w₂ _ _ _ _ => ?_
            exact K.evalStmts (fun w v v' args args' hv hargs => ih w hv hargs) _ w₂ .null
          · rw [if_neg harity, if_neg harity]
            exact agree_fail rfl (K.allows_fault _ rfl)
      | builtin b =>
          simp only [Treewalk.callValue]
          exact K.callBuiltin w b hargs
      | integer | boolean | string | null | array | hash | error =>
          exact agree_fail rfl (K.allows_fault _ rfl)

theorem evalUnder (K : C.KeptBy policy policy' ctx ctx') (allowance : Nat) (p : Program)
    (w : C.World) :
    C.Agree C.Values w (p.evalUnder policy ctx allowance)
      (p.evalUnder policy' ctx' allowance) :=
  agree_endReturn
    (K.evalStmts (fun w _ _ _ _ hv hargs => K.callValue allowance w hv hargs) _ w .null)

end Comparison.KeptBy
end Treewalk
