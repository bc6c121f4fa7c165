import Treewalk.Proofs.Evaluation.Steps
import Treewalk.Proofs.Scope.Bindings
import Treewalk.Proofs.Value.Traits

/-!
Evaluations keep traits of values. If every value bound in a live scope has a trait, then
this is so after an evaluation too, however it ends; and what it yields, or carries out of
it in a return, has the trait. The proof follows the syntax, and for calls the allowance.
-/

namespace Treewalk
namespace Trait

variable (T : Trait) {α β : Type} {Q : α → Prop} {R : β → Prop}

/-- The run binds values with the trait only, if no others are bound before, and ends in a
result with the property. -/
def Keeps (Q : α → Prop) (run : Eval α) : Prop :=
  ∀ m r after, m.environment.arena.Binds T.Has → run m = some (r, after) →
    after.environment.arena.Binds T.Has ∧ Passes T.Has Q r

variable {T} {run : Eval α} {next : α → Eval β}

theorem keeps_ofExcept {r : Except EvalError α} (h : Passes T.Has Q r) :
    T.Keeps Q (Run.ofExcept r) := by
  intro m _ _ hbinds hrun
  cases hrun
  exact ⟨hbinds, h⟩

theorem keeps_pure {a : α} (h : Q a) : T.Keeps Q (pure a) := by
  intro m _ _ hbinds hrun
  cases hrun
  exact ⟨hbinds, h⟩

theorem keeps_fail {e : EvalError} (h : Passes T.Has Q (.error e)) :
    T.Keeps Q (Run.fail e : Eval α) := by
  intro m _ _ hbinds hrun
  cases hrun
  exact ⟨hbinds, h⟩

theorem keeps_exhausted : T.Keeps Q Run.exhausted := by
  intro m r after _ hrun
  cases hrun

theorem Keeps.bind (h : T.Keeps Q run) (hnext : ∀ a, Q a → T.Keeps R (next a)) :
    T.Keeps R (run >>= next) := by
  intro m r after hbinds hrun
  rw [Run.bind_apply] at hrun
  obtain hm | ⟨a, t, hm⟩ | ⟨e, t, hm⟩ := Run.ended (run m) <;> rw [hm] at hrun
  · cases hrun
  · obtain ⟨hbetween, ha⟩ := h m _ t hbinds hm
    exact hnext a ha t r after hbetween hrun
  · cases hrun
    obtain ⟨hafter, he⟩ := h m _ after hbinds hm
    refine ⟨hafter, ?_⟩
    cases e <;> exact he

theorem keeps_poll : T.Keeps (fun _ => True) Eval.poll := by
  intro m r after hbinds hrun
  rcases Eval.poll_cases m with h | h
  · cases h.symm.trans hrun
    exact ⟨hbinds, trivial⟩
  · cases h.symm.trans hrun
    exact ⟨hbinds, trivial⟩

theorem Keeps.unlessInterrupted (h : T.Keeps Q run) :
    T.Keeps Q (Eval.unlessInterrupted run) :=
  keeps_poll.bind fun _ _ => h

/-- The outcome of a run is a result that passes. -/
theorem Keeps.outcome (h : T.Keeps Q run) :
    T.Keeps (Passes T.Has Q) (Run.outcome run) := by
  intro m r after hbinds hrun
  rw [Run.outcome] at hrun
  split at hrun
  · cases hrun
  · rename_i hm
    cases hrun
    exact h m _ _ hbinds hm

theorem Keeps.endReturn {run : Eval Value} (h : T.Keeps T.Has run) :
    T.Keeps T.Has (Eval.endReturn run) := by
  intro m r after hbinds hrun
  rw [Eval.endReturn] at hrun
  split at hrun
  · rename_i hm
    cases hrun
    exact h m (.error (.returning _)) after hbinds hm
  · exact h m r after hbinds hrun

/-- A change of the environment that keeps what is bound. -/
theorem keeps_changeEnvironment {f : Environment → Environment}
    (h : ∀ env, env.arena.Binds T.Has → (f env).arena.Binds T.Has) :
    T.Keeps (fun _ => True) (Run.update (Machine.changeEnvironment f)) := by
  intro m _ _ hbinds hrun
  cases hrun
  exact ⟨h m.environment hbinds, trivial⟩

theorem keeps_define (name : String) {value : Value} (h : T.Has value) :
    T.Keeps (fun _ => True) (Eval.define name value) :=
  keeps_changeEnvironment fun env hbinds => hbinds.define env.current name h

theorem keeps_exitCall : T.Keeps (fun _ => True) Eval.exitCall :=
  keeps_changeEnvironment fun _ hbinds => hbinds

theorem keeps_defineAll (names : List String) {values : List Value}
    (h : ∀ v ∈ values, T.Has v) : T.Keeps (fun _ => True) (Eval.defineAll names values) := by
  induction names generalizing values with
  | nil => exact keeps_pure trivial
  | cons name names ih =>
      cases values with
      | nil => exact keeps_pure trivial
      | cons value values =>
          rw [List.forall_mem_cons] at h
          exact (keeps_define name h.1).bind fun _ _ => ih h.2

theorem keeps_resolve (name : String) : T.Keeps T.Has (Eval.resolve name) := by
  intro m r after hbinds hrun
  rw [Eval.resolve, Environment.resolve] at hrun
  cases hlookup : m.environment.arena.lookup m.environment.current name with
  | found value =>
      rw [hlookup] at hrun
      cases hrun
      exact ⟨hbinds, hbinds.lookup hlookup⟩
  | dangling =>
      rw [hlookup] at hrun
      cases hrun
      exact ⟨hbinds, trivial⟩
  | unbound =>
      rw [hlookup] at hrun
      dsimp only at hrun
      split at hrun
      · cases hrun
        exact ⟨hbinds, T.builtin _⟩
      · cases hrun
        exact ⟨hbinds, trivial⟩

theorem keeps_makeFunction (parameters : List String) (body : Block) :
    T.Keeps T.Has (Eval.makeFunction parameters body) := by
  intro m r after hbinds hrun
  cases hrun
  exact ⟨hbinds.pin _, T.function _⟩

theorem keeps_callBuiltin (b : Builtin) {args : List Value} (h : ∀ v ∈ args, T.Has v) :
    T.Keeps T.Has (Eval.callBuiltin b args) := by
  intro m r after hbinds hrun
  cases hrun
  exact ⟨hbinds, T.applied b h⟩

theorem keeps_enterCall (limit : Option Nat) :
    T.Keeps (fun _ => True) (Eval.enterCall limit) := by
  intro m r after hbinds hrun
  cases limit with
  | none =>
      cases hrun
      exact ⟨hbinds, trivial⟩
  | some max =>
      rw [Eval.enterCall_some] at hrun
      split at hrun <;> cases hrun <;> exact ⟨hbinds, trivial⟩

theorem Keeps.within (h : T.Keeps Q run) (policy : Reclamation) (outer : ScopeId) :
    T.Keeps Q (Eval.within policy outer run) := by
  intro m r after hbinds hrun
  rw [Eval.within_apply] at hrun
  obtain ⟨⟨r', t⟩, hended, heq⟩ := Option.map_eq_some_iff.1 hrun
  cases heq
  obtain ⟨hafter, hr⟩ := h _ _ _ (hbinds.alloc (some outer)) hended
  cases policy with
  | prompt => exact ⟨hafter.release _, hr⟩
  | never => exact ⟨hafter, hr⟩

theorem Keeps.inBlock (h : T.Keeps Q run) (policy : Reclamation) :
    T.Keeps Q (Eval.inBlock policy run) :=
  fun m => h.within policy m.environment.current m

theorem Keeps.inScope (h : T.Keeps Q run) (policy : Reclamation) (outer : ScopeId) :
    T.Keeps Q (Eval.inScope policy outer run) := by
  intro m r after hbinds hrun
  rw [Eval.inScope] at hrun
  split at hrun
  · exact h.within policy outer m r after hbinds hrun
  · cases hrun
    exact ⟨hbinds, trivial⟩

/-- Calls of values with the trait keep it. -/
def KeptByCalls (T : Trait) (call : Value → List Value → Eval Value) : Prop :=
  ∀ callee args, T.Has callee → (∀ v ∈ args, T.Has v) → T.Keeps T.Has (call callee args)

section Rules

variable (policy : Reclamation) {call : Value → List Value → Eval Value}

mutual

theorem keeps_evalExpr (hcall : T.KeptByCalls call) : (e : Expr) →
    T.Keeps T.Has (evalExpr policy call e)
  | .name t => (keeps_resolve t.literal).unlessInterrupted
  | .integer _ n => (keeps_pure (T.integer n)).unlessInterrupted
  | .boolean _ b => (keeps_pure (T.boolean b)).unlessInterrupted
  | .string t => (keeps_pure (T.string t.literal)).unlessInterrupted
  | .prefixed _ op e => by
      refine Keeps.unlessInterrupted ((keeps_evalExpr hcall e).bind fun v _ => ?_)
      exact keeps_ofExcept (T.prefixed op v)
  | .binary _ op l r => by
      refine Keeps.unlessInterrupted ((keeps_evalExpr hcall l).bind fun left _ => ?_)
      exact (keeps_evalExpr hcall r).bind fun right _ => keeps_ofExcept (T.binary op left right)
  | .conditional _ c b none => by
      refine Keeps.unlessInterrupted ((keeps_evalExpr hcall c).bind fun condition _ => ?_)
      split
      · exact keeps_evalBlock hcall b
      · exact keeps_pure T.null
  | .conditional _ c b (some alternative) => by
      refine Keeps.unlessInterrupted ((keeps_evalExpr hcall c).bind fun condition _ => ?_)
      split
      · exact keeps_evalBlock hcall b
      · exact keeps_evalBlock hcall alternative
  | .function _ ps b => (keeps_makeFunction _ b).unlessInterrupted
  | .call _ f args => by
      refine Keeps.unlessInterrupted ((keeps_evalExpr hcall f).bind fun callee hcallee => ?_)
      exact (keeps_evalExprs hcall args).bind fun values hvalues =>
        hcall callee values hcallee hvalues
  | .array _ es => by
      refine Keeps.unlessInterrupted ((keeps_evalExprs hcall es).bind fun items hitems => ?_)
      exact keeps_pure ((T.array_iff items).2 hitems)
  | .index _ e i => by
      refine Keeps.unlessInterrupted ((keeps_evalExpr hcall e).bind fun v hv => ?_)
      exact (keeps_evalExpr hcall i).bind fun key _ => keeps_ofExcept (T.index hv key)
  | .hash _ ps => by
      refine Keeps.unlessInterrupted ((keeps_evalPairs hcall ps [] T.hash_nil).bind ?_)
      exact fun entries hentries => keeps_pure hentries

theorem keeps_evalExprs (hcall : T.KeptByCalls call) : (es : List Expr) →
    T.Keeps (fun vs => ∀ v ∈ vs, T.Has v) (evalExprs policy call es)
  | [] => keeps_pure nofun
  | e :: es => by
      refine (keeps_evalExpr hcall e).bind fun v hv => ?_
      refine (keeps_evalExprs hcall es).bind fun vs hvs => ?_
      exact keeps_pure (List.forall_mem_cons.2 ⟨hv, hvs⟩)

theorem keeps_evalPairs (hcall : T.KeptByCalls call) : (ps : List (Expr × Expr)) →
    (entries : List (HashKey × Value)) → T.Has (.hash entries) →
    T.Keeps (fun entries => T.Has (.hash entries)) (evalPairs policy call ps entries)
  | [], _, hentries => keeps_pure hentries
  | (k, e) :: ps, entries, hentries => by
      refine (keeps_evalExpr hcall k).bind fun key _ => ?_
      split
      · exact keeps_fail trivial
      · rename_i hashKey _
        refine (keeps_evalExpr hcall e).bind fun value hvalue => ?_
        exact keeps_evalPairs hcall ps _ (T.hash_put hashKey hentries hvalue)

theorem keeps_evalStmt (hcall : T.KeptByCalls call) : (s : Stmt) →
    T.Keeps T.Has (evalStmt policy call s)
  | .bind _ target e => by
      refine (keeps_evalExpr hcall e).bind fun v hv => ?_
      exact (keeps_define target.literal hv).bind fun _ _ => keeps_pure T.null
  | .ret _ e => (keeps_evalExpr hcall e).bind fun _ hv => keeps_fail hv
  | .expr _ e => keeps_evalExpr hcall e

theorem keeps_evalStmts (hcall : T.KeptByCalls call) : (ss : List Stmt) → (before : Value) →
    T.Has before → T.Keeps T.Has (evalStmts policy call ss before)
  | [], _, hbefore => keeps_pure hbefore
  | s :: ss, _, _ => by
      refine Keeps.unlessInterrupted ((keeps_evalStmt hcall s).bind fun v hv => ?_)
      exact keeps_evalStmts hcall ss v hv

theorem keeps_evalBlock (hcall : T.KeptByCalls call) : (b : Block) →
    T.Keeps T.Has (evalBlock policy call b)
  | ⟨_, ss⟩ => (keeps_evalStmts hcall ss .null T.null).inBlock policy

end

end Rules

variable (T) (policy : Reclamation) (ctx : Context)

theorem keeps_callValue (allowance : Nat) : T.KeptByCalls (callValue policy ctx allowance) := by
  induction allowance with
  | zero =>
      intro callee args hcallee hargs
      cases callee with
      | function f =>
          rw [callValue]
          split
          · exact (keeps_enterCall ctx.maxCallDepth).bind fun _ _ => keeps_exhausted
          · exact keeps_fail trivial
      | builtin b => exact keeps_callBuiltin b hargs
      | _ => exact keeps_fail trivial
  | succ allowance ih =>
      intro callee args hcallee hargs
      cases callee with
      | function f =>
          rw [callValue]
          split
          · refine (keeps_enterCall ctx.maxCallDepth).bind fun _ _ => Keeps.endReturn ?_
            have hbody : T.Keeps T.Has (do
                Eval.defineAll f.parameters args
                evalStmts policy (callValue policy ctx allowance) f.body.statements .null) :=
              (keeps_defineAll f.parameters hargs).bind fun _ _ =>
                keeps_evalStmts policy ih _ .null T.null
            refine (hbody.inScope policy f.scope).outcome.bind fun result hresult => ?_
            exact keeps_exitCall.bind fun _ _ => keeps_ofExcept hresult
          · exact keeps_fail trivial
      | builtin b => exact keeps_callBuiltin b hargs
      | _ => exact keeps_fail trivial

theorem keeps_evalUnder (allowance : Nat) (p : Program) :
    T.Keeps T.Has (p.evalUnder policy ctx allowance) :=
  (keeps_evalStmts policy (keeps_callValue T policy ctx allowance) _ .null T.null).endReturn

/-- The collection after a program binds nothing. -/
theorem binds_collectAfter {m : Machine} (h : m.environment.arena.Binds T.Has) (result : Value) :
    (Program.collectAfter policy ctx result m).environment.arena.Binds T.Has := by
  unfold Program.collectAfter
  split
  · exact h
  · split
    · exact h.collect _ _
    · exact h

theorem binds_runUnder {allowance : Nat} {p : Program} {m after : Machine} {v : Value}
    (h : m.environment.arena.Binds T.Has)
    (hrun : p.runUnder policy ctx allowance m = some (v, after)) :
    after.environment.arena.Binds T.Has := by
  rw [Program.runUnder] at hrun
  split at hrun
  · cases hrun
  all_goals
    rename_i hm
    cases hrun
    exact T.binds_collectAfter policy ctx (T.keeps_evalUnder policy ctx allowance p _ _ _ h hm).1 _

end Trait
end Treewalk
