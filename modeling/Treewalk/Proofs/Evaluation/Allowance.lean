import Treewalk.Proofs.Evaluation.Comparison
import Treewalk.Proofs.Evaluation.Journal
import Treewalk.Proofs.Scope.Agreement

/-!
The allowance of nested calls. A relation of evaluations that is kept to by elementary
steps, sequences, blocks and ended returns is kept to by whatever the syntax is
evaluated to, if calls keep to it. One such relation is that a run follows another,
wherever that one ends. So a larger allowance changes no evaluation that ends: what it
yields with some allowance, it yields with every larger one.
-/

namespace Treewalk

namespace EvalError

/-- Whether a call was refused because of the limit on nested calls. -/
def isOverflow : EvalError → Bool
  | stackOverflow _ _ => true
  | _ => false

theorem isOverflow_of_isFault {e : EvalError} (h : e.isFault = true) : e.isOverflow = false := by
  cases e with
  | stackOverflow => cases h
  | _ => rfl

end EvalError

theorem AlikeResults.isOverflow_eq {R : Function → Function → Prop}
    {r r' : Except EvalError Value} (h : AlikeResults R r r') :
    ∀ e, r = .error e → e.isOverflow = false := by
  rintro e rfl
  cases h with
  | error fault => exact EvalError.isOverflow_of_isFault fault

theorem Value.alike_self (v : Value) : Value.Alike Eq v v :=
  .refl_of_holds v fun _ _ => rfl

namespace Eval

/-- A run that always ends, with no call refused, and leaves the depth of calls as it was. -/
def Elementary {α : Type} (run : Eval α) : Prop :=
  ∀ m, ∃ r after, run m = some (r, after) ∧
    after.environment.callDepth = m.environment.callDepth ∧
    ∀ e, r = .error e → e.isOverflow = false

variable {α : Type}

/-- A run that yields a value has had no call refused. -/
theorem not_overflow_of_ok (a : α) (e : EvalError) (h : Except.ok a = .error e) :
    e.isOverflow = false := by
  cases h

theorem elementary_pure (a : α) : Elementary (pure a : Eval α) :=
  fun m => ⟨_, m, rfl, rfl, not_overflow_of_ok a⟩

theorem elementary_fail {e : EvalError} (h : e.isOverflow = false) :
    Elementary (Run.fail e : Eval α) :=
  fun m => ⟨_, m, rfl, rfl, fun _ he => by cases he; exact h⟩

theorem elementary_poll : Elementary poll := by
  intro m
  rcases poll_cases m with h | h
  · exact ⟨_, m.look, h, rfl, not_overflow_of_ok ()⟩
  · exact ⟨_, m.look, h, rfl, fun _ he => by cases he; rfl⟩

theorem elementary_define (name : String) (value : Value) : Elementary (define name value) :=
  fun _ => ⟨_, _, rfl, rfl, not_overflow_of_ok _⟩

theorem elementary_makeFunction (parameters : List String) (body : Block) :
    Elementary (makeFunction parameters body) :=
  fun _ => ⟨_, _, rfl, rfl, not_overflow_of_ok _⟩

theorem elementary_ofExcept {r : Except EvalError Value} (h : AlikeResults Eq r r) :
    Elementary (Run.ofExcept r : Eval Value) :=
  fun m => ⟨r, m, rfl, rfl, h.isOverflow_eq⟩

theorem elementary_prefixed (op : PrefixOp) (v : Value) :
    Elementary (Run.ofExcept (op.apply v) : Eval Value) :=
  elementary_ofExcept (op.apply_alike v.alike_self)

theorem elementary_binary (op : InfixOp) (l r : Value) :
    Elementary (Run.ofExcept (op.apply l r) : Eval Value) :=
  elementary_ofExcept (op.apply_alike l.alike_self r.alike_self)

theorem elementary_index (collection index : Value) :
    Elementary (Run.ofExcept (collection.select index) : Eval Value) :=
  elementary_ofExcept (Value.select_alike collection.alike_self index.alike_self)

theorem elementary_callBuiltin (b : Builtin) (args : List Value) :
    Elementary (callBuiltin b args) := by
  have hargs : AlikeItems Eq args args := .refl_of_holds args fun _ _ _ _ => rfl
  exact fun _ => ⟨_, _, rfl, rfl, (b.apply_alike hargs).isOverflow_eq⟩

theorem elementary_resolve (name : String) : Elementary (resolve name) := by
  intro m
  simp only [resolve, Environment.resolve]
  cases m.environment.arena.lookup m.environment.current name with
  | found => exact ⟨_, m, rfl, rfl, not_overflow_of_ok _⟩
  | dangling => exact elementary_fail rfl m
  | unbound =>
      dsimp only
      cases Builtin.ofName? name with
      | some => exact ⟨_, m, rfl, rfl, not_overflow_of_ok _⟩
      | none => exact elementary_fail rfl m

theorem elementary_defineAll (names : List String) (values : List Value) :
    Elementary (defineAll names values) := by
  induction names generalizing values with
  | nil => exact elementary_pure ()
  | cons name names ih =>
      cases values with
      | nil => exact elementary_pure ()
      | cons value values =>
          intro m
          exact ih values (m.changeEnvironment (Environment.define name value))

end Eval

/-- A relation of evaluations that elementary steps and the ways to put evaluations
together keep to. -/
structure Congruence where
  Rel : {α : Type} → Eval α → Eval α → Prop
  elementary : ∀ {α : Type} {run : Eval α}, run.Elementary → Rel run run
  bind : ∀ {α β : Type} {run other : Eval α} {next otherNext : α → Eval β}, Rel run other →
    (∀ a, Rel (next a) (otherNext a)) → Rel (run >>= next) (other >>= otherNext)
  inBlock : ∀ {run other : Eval Value}, Rel run other →
    Rel (Eval.inBlock .prompt run) (Eval.inBlock .prompt other)
  endReturn : ∀ {run other : Eval Value}, Rel run other →
    Rel (Eval.endReturn run) (Eval.endReturn other)

namespace Congruence

open Eval

variable (C : Congruence) {α β : Type}

theorem unlessInterrupted {run other : Eval α} (h : C.Rel run other) :
    C.Rel (Eval.unlessInterrupted run) (Eval.unlessInterrupted other) :=
  C.bind (C.elementary elementary_poll) fun _ => h

/-- What follows on both sides is elementary. -/
theorem bind_elementary {run other : Eval α} {next : α → Eval β} (h : C.Rel run other)
    (hnext : ∀ a, (next a).Elementary) : C.Rel (run >>= next) (other >>= next) :=
  C.bind h fun a => C.elementary (hnext a)

/-- Calls are related. -/
def RelCalls (call call' : Value → List Value → Eval Value) : Prop :=
  ∀ callee args, C.Rel (call callee args) (call' callee args)

section Rules

variable {call call' : Value → List Value → Eval Value}

mutual

theorem evalExpr (hcall : C.RelCalls call call') : (e : Expr) →
    C.Rel (Treewalk.evalExpr .prompt call e) (Treewalk.evalExpr .prompt call' e)
  | .name t => C.unlessInterrupted (C.elementary (elementary_resolve t.literal))
  | .integer _ n => C.unlessInterrupted (C.elementary (elementary_pure _))
  | .boolean _ b => C.unlessInterrupted (C.elementary (elementary_pure _))
  | .string t => C.unlessInterrupted (C.elementary (elementary_pure _))
  | .prefixed _ op e =>
      C.unlessInterrupted (C.bind_elementary (evalExpr hcall e) fun _ => elementary_prefixed op _)
  | .binary _ op l r =>
      C.unlessInterrupted (C.bind (evalExpr hcall l) fun left =>
        C.bind_elementary (evalExpr hcall r) fun _ => elementary_binary op left _)
  | .conditional _ c b none => by
      refine C.unlessInterrupted (C.bind (evalExpr hcall c) fun condition => ?_)
      split
      · exact evalBlock hcall b
      · exact C.elementary (elementary_pure _)
  | .conditional _ c b (some alternative) => by
      refine C.unlessInterrupted (C.bind (evalExpr hcall c) fun condition => ?_)
      split
      · exact evalBlock hcall b
      · exact evalBlock hcall alternative
  | .function _ ps b => C.unlessInterrupted (C.elementary (elementary_makeFunction _ b))
  | .call _ f args =>
      C.unlessInterrupted (C.bind (evalExpr hcall f) fun callee =>
        C.bind (evalExprs hcall args) fun values => hcall callee values)
  | .array _ es =>
      C.unlessInterrupted (C.bind_elementary (evalExprs hcall es) fun _ => elementary_pure _)
  | .index _ e i =>
      C.unlessInterrupted (C.bind (evalExpr hcall e) fun collection =>
        C.bind_elementary (evalExpr hcall i) fun _ => elementary_index collection _)
  | .hash _ ps =>
      C.unlessInterrupted (C.bind_elementary (evalPairs hcall ps []) fun _ => elementary_pure _)

theorem evalExprs (hcall : C.RelCalls call call') : (es : List Expr) →
    C.Rel (Treewalk.evalExprs .prompt call es) (Treewalk.evalExprs .prompt call' es)
  | [] => C.elementary (elementary_pure _)
  | e :: es =>
      C.bind (evalExpr hcall e) fun _ =>
        C.bind_elementary (evalExprs hcall es) fun _ => elementary_pure _

theorem evalPairs (hcall : C.RelCalls call call') : (ps : List (Expr × Expr)) →
    (entries : List (HashKey × Value)) →
    C.Rel (Treewalk.evalPairs .prompt call ps entries)
      (Treewalk.evalPairs .prompt call' ps entries)
  | [], _ => C.elementary (elementary_pure _)
  | (k, e) :: ps, entries => by
      refine C.bind (evalExpr hcall k) fun key => ?_
      split
      · exact C.elementary (elementary_fail rfl)
      · exact C.bind (evalExpr hcall e) fun value => evalPairs hcall ps _

theorem evalStmt (hcall : C.RelCalls call call') : (s : Stmt) →
    C.Rel (Treewalk.evalStmt .prompt call s) (Treewalk.evalStmt .prompt call' s)
  | .bind _ target e =>
      C.bind (evalExpr hcall e) fun v =>
        C.bind (C.elementary (elementary_define target.literal v)) fun _ =>
          C.elementary (elementary_pure _)
  | .ret _ e => C.bind_elementary (evalExpr hcall e) fun _ => elementary_fail rfl
  | .expr _ e => evalExpr hcall e

theorem evalStmts (hcall : C.RelCalls call call') : (ss : List Stmt) → (before : Value) →
    C.Rel (Treewalk.evalStmts .prompt call ss before)
      (Treewalk.evalStmts .prompt call' ss before)
  | [], _ => C.elementary (elementary_pure _)
  | s :: ss, _ => C.unlessInterrupted (C.bind (evalStmt hcall s) fun v => evalStmts hcall ss v)

theorem evalBlock (hcall : C.RelCalls call call') : (b : Block) →
    C.Rel (Treewalk.evalBlock .prompt call b) (Treewalk.evalBlock .prompt call' b)
  | ⟨_, ss⟩ => C.inBlock (evalStmts hcall ss .null)

end

theorem evalBody (hcall : C.RelCalls call call') (f : Function) (args : List Value) :
    C.Rel (f.evalBody call args) (f.evalBody call' args) :=
  C.bind (C.elementary (elementary_defineAll f.parameters args)) fun _ =>
    C.evalStmts hcall f.body.statements .null

end Rules

/-- Evaluations are related if calls are. -/
theorem evalUnder {ctx ctx' : Context} {allowance more : Nat}
    (hcall : C.RelCalls (callValue .prompt ctx allowance) (callValue .prompt ctx' more))
    (task : Task) :
    C.Rel (task.evalUnder ctx allowance) (task.evalUnder ctx' more) := by
  cases task with
  | expr e => exact C.evalExpr hcall e
  | stmt s => exact C.evalStmt hcall s
  | stmts ss => exact C.evalStmts hcall ss .null
  | block b => exact C.evalBlock hcall b
  | program p => exact C.endReturn (C.evalStmts hcall p.statements .null)
  | call callee args => exact hcall callee args

end Congruence

/-- Whatever the allowance, calling a function first looks at the number of arguments, then
at the limit. -/
theorem exists_callFunction (ctx : Context) (allowance : Nat) (f : Function)
    (args : List Value) :
    ∃ next : Unit → Eval Value, callValue .prompt ctx allowance (.function f) args =
      if args.length = f.arity then Eval.enterCall ctx.maxCallDepth >>= next
      else Run.fail (.arityMismatch f.arity args.length) := by
  cases allowance <;> exact ⟨_, by rw [callValue]⟩

/-! More allowance. -/

namespace Eval

/-- Whatever the one run ends in, the other ends in too, but for errors that are given up. -/
def Follows (lost : EvalError → Prop) {α : Type} (run other : Eval α) : Prop :=
  ∀ m r after, run m = some (r, after) → (∀ e, r = .error e → ¬ lost e) →
    other m = some (r, after)

variable {lost : EvalError → Prop} {α β : Type} {run other : Eval α}

theorem Follows.refl (run : Eval α) : Follows lost run run :=
  fun _ _ _ h _ => h

theorem follows_exhausted (other : Eval α) : Follows lost Run.exhausted other := by
  intro m r after h
  cases h

theorem Follows.bind {next otherNext : α → Eval β} (h : Follows lost run other)
    (hnext : ∀ a, Follows lost (next a) (otherNext a)) :
    Follows lost (run >>= next) (other >>= otherNext) := by
  intro m r after hrun hkept
  rw [Run.bind_apply] at hrun ⊢
  obtain hm | ⟨a, t, hm⟩ | ⟨e, t, hm⟩ := Run.ended (run m) <;> rw [hm] at hrun
  · cases hrun
  · rw [h m _ _ hm nofun]
    exact hnext a t r after hrun hkept
  · cases hrun
    rw [h m _ _ hm fun e' he => by cases he; exact hkept e rfl]

theorem Follows.within (h : Follows lost run other) (outer : ScopeId) :
    Follows lost (Eval.within .prompt outer run) (Eval.within .prompt outer other) := by
  intro m r after hrun hkept
  rw [Eval.within_apply] at hrun ⊢
  obtain ⟨⟨r', t⟩, hended, heq⟩ := Option.map_eq_some_iff.1 hrun
  cases heq
  rw [h _ _ _ hended hkept]
  rfl

theorem Follows.inScope (h : Follows lost run other) (outer : ScopeId) :
    Follows lost (Eval.inScope .prompt outer run) (Eval.inScope .prompt outer other) := by
  intro m r after hrun hkept
  rw [Eval.inScope] at hrun ⊢
  split
  · rename_i hlives
    rw [if_pos hlives] at hrun
    exact h.within outer m r after hrun hkept
  · rename_i hgone
    rw [if_neg hgone] at hrun
    exact hrun

/-- A return on its way is not given up, so where it is ended it still is one. -/
theorem Follows.endReturn {run other : Eval Value} (hlost : ∀ v, ¬ lost (.returning v))
    (h : Follows lost run other) :
    Follows lost (Eval.endReturn run) (Eval.endReturn other) := by
  intro m r after hrun hkept
  rw [Eval.endReturn] at hrun ⊢
  split at hrun
  · rename_i v t hm
    rw [h m _ _ hm fun e he => by cases he; exact hlost v]
    exact hrun
  · rename_i hm
    rw [h m _ _ hrun hkept]
    split <;> simp_all

theorem Follows.exitCall {run other : Eval Value} (h : Follows lost run other) :
    Follows lost
      (do
        let result ← Run.outcome run
        Eval.exitCall
        Run.ofExcept result)
      (do
        let result ← Run.outcome other
        Eval.exitCall
        Run.ofExcept result) := by
  intro m r after hrun hkept
  simp only [Run.bind_apply, Run.outcome] at hrun ⊢
  cases hm : run m with
  | none =>
      rw [hm] at hrun
      cases hrun
  | some ended =>
      obtain ⟨r', t⟩ := ended
      rw [hm] at hrun
      cases hrun
      rw [h m _ _ hm hkept]
      rfl

end Eval

open Eval

/-- Evaluations that follow others, where returns are not given up. -/
def following {lost : EvalError → Prop} (hlost : ∀ v, ¬ lost (.returning v)) : Congruence where
  Rel := Follows lost
  elementary _ := .refl _
  bind := .bind
  inBlock h m := h.within m.environment.current m
  endReturn := .endReturn hlost

section

variable {lost : EvalError → Prop} (hlost : ∀ v, ¬ lost (.returning v)) {ctx ctx' : Context}
  (henter : Follows lost (enterCall ctx.maxCallDepth) (enterCall ctx'.maxCallDepth))

include hlost henter

/-- Where calls begin that began before, more allowance changes no call that ends. -/
theorem follows_callValue {allowance more : Nat} (h : allowance ≤ more) (callee : Value)
    (args : List Value) :
    Follows lost (callValue .prompt ctx allowance callee args)
      (callValue .prompt ctx' more callee args) := by
  induction allowance generalizing more callee args with
  | zero =>
      cases callee with
      | function f =>
          obtain ⟨next, hnext⟩ := exists_callFunction ctx' more f args
          rw [hnext, callValue]
          split
          · exact henter.bind fun _ => follows_exhausted _
          · exact .refl _
      | builtin b => cases more <;> exact .refl _
      | integer | boolean | string | null | array | hash | error =>
          cases more <;> exact .refl _
  | succ allowance ih =>
      obtain ⟨more, rfl⟩ : ∃ n, more = n + 1 := ⟨more - 1, by omega⟩
      cases callee with
      | function f =>
          rw [callValue, callValue]
          split
          · refine henter.bind fun _ => .endReturn hlost ?_
            have hbody := (following hlost).evalBody (ih (Nat.le_of_succ_le_succ h)) f args
            exact (hbody.inScope f.scope).exitCall
          · exact .refl _
      | builtin | integer | boolean | string | null | array | hash | error => exact .refl _

theorem Task.follows {allowance more : Nat} (h : allowance ≤ more) (task : Task) :
    Follows lost (task.evalUnder ctx allowance) (task.evalUnder ctx' more) :=
  (following hlost).evalUnder (follows_callValue hlost henter h) task

end

/-- An evaluation that ends with some allowance ends alike with every larger one. -/
theorem Task.evalUnder_of_le {ctx : Context} {allowance more : Nat} (h : allowance ≤ more)
    {task : Task} {m after : Machine} {r : Except EvalError Value}
    (hrun : task.evalUnder ctx allowance m = some (r, after)) :
    task.evalUnder ctx more m = some (r, after) := by
  have hnone : ∀ v, ¬ (fun _ : EvalError => False) (.returning v) := fun _ => id
  exact task.follows hnone (.refl _) h m r after hrun fun _ _ => id

end Treewalk
