import Treewalk.Proofs.Evaluation.Allowance
import Treewalk.Proofs.Evaluation.Conduct

/-!
Evaluations under a limit on nested calls come to an end. Between calls an evaluation
follows the syntax; a call hands on one less of the allowance and is one deeper. So an
allowance of as many calls as the limit still permits is never used up, at whatever depth
the evaluation begins and whatever functions it may call, and with more the evaluation is
the same. The walks along scopes that it makes on the way come to an end by themselves.
-/

namespace Treewalk

/-! Walks along scopes. -/

namespace Arena

variable {a : Arena} {height : ScopeId → Nat} {id : ScopeId}

/-- Each scope is around another in a walk outward. -/
def Around (a : Arena) (outer id : ScopeId) : Prop :=
  ∃ scope, a.get? id = some scope ∧ scope.outer = some outer

/-- Walks outward have an end, and those made to look for a name or to pin scopes reach it
before their bound: with a larger bound they are the same. -/
structure WalksEnd (a : Arena) : Prop where
  wellFounded : WellFounded a.Around
  lookupFrom_eq : ∀ name id n, a.live < n → a.lookupFrom name n id = some (a.lookup id name)
  pinFrom_eq : ∀ id n, a.live < n → pinFrom n id a = a.pin id

theorem FallsOutward.wellFounded (h : a.FallsOutward height) : WellFounded a.Around :=
  Subrelation.wf (fun ⟨_, hs, ho⟩ => h _ _ _ hs ho) (measure height).wf

theorem lookupFrom_succ {name : String} {n : Nat} {result : Lookup}
    (h : a.lookupFrom name n id = some result) : a.lookupFrom name (n + 1) id = some result := by
  induction n generalizing id with
  | zero => cases h
  | succ n ih =>
      cases hs : a.get? id with
      | none => rwa [lookupFrom_gone hs] at h ⊢
      | some scope =>
          cases hv : scope.bindings.get? name with
          | some value => rwa [lookupFrom_bound hs hv] at h ⊢
          | none =>
              cases ho : scope.outer with
              | none => rwa [lookupFrom_outermost hs hv ho] at h ⊢
              | some outer =>
                  rw [lookupFrom_outward hs hv ho] at h ⊢
                  exact ih h

/-- Once the bound is as large as the chain is long, pinning takes no more steps. -/
theorem pinFrom_succ (hfalls : a.FallsOutward height) (n : Nat)
    (hn : (a.upTo height id).card ≤ n) : pinFrom (n + 1) id a = pinFrom n id a := by
  induction n generalizing id a with
  | zero =>
      rw [pinFrom, pinFrom]
      split
      · rfl
      · rename_i scope hs
        have hpos := card_upTo_pos height (contains_iff.2 ⟨scope, hs⟩)
        omega
  | succ n ih =>
      rw [pinFrom, pinFrom]
      split
      · rfl
      · rename_i scope hs
        split
        · rfl
        · have hmore := pinsMore_update a id
          generalize (a.update id fun scope => { scope with pinned := true }) = b at hmore
          dsimp only
          split
          · rfl
          · rename_i outer ho
            have hcard := card_upTo_lt hfalls hs ho
            have hlive : b.liveIds = a.liveIds := liveIds_eq_of_contains hmore.contains_eq
            refine ih (hfalls.of_pinsMore hmore) ?_
            rw [upTo_eq_of_liveIds hlive]
            omega

theorem Linked.walksEnd (h : a.Linked) : a.WalksEnd := by
  obtain ⟨height, hfalls⟩ := h.grounded
  refine ⟨hfalls.wellFounded, fun name id n hn => ?_, fun id n hn => ?_⟩
  · obtain ⟨result, hresult⟩ := h.lookupFrom_isSome name id
    rw [lookup, hresult]
    induction hn with
    | refl => exact hresult
    | step _ ih => exact lookupFrom_succ ih
  · induction hn with
    | refl => rfl
    | step hn ih =>
        have hcard := card_upTo_le a height id
        rw [← h.consistent.live_eq] at hcard
        rw [pinFrom_succ hfalls _ (hcard.trans (Nat.le_of_lt hn)), ih]

end Arena

/-! Evaluations at a depth of calls. -/

namespace Eval

/-- Begun at a depth of calls, both evaluations end and are alike, whatever the result, and
at another given depth; and if a call is refused it is with the given error. -/
def Settles (overflow : EvalError) (depth left : Nat) {α : Type} (run other : Eval α) : Prop :=
  ∀ m : Machine, m.environment.callDepth = depth → ∃ r after,
    run m = some (r, after) ∧ other m = some (r, after) ∧
      after.environment.callDepth = left ∧
      ∀ e, r = .error e → e.isOverflow = true → e = overflow

variable {overflow : EvalError} {depth left : Nat} {α β : Type} {run other : Eval α}

theorem Settles.of_elementary (h : run.Elementary) : Settles overflow depth depth run run := by
  intro m hm
  obtain ⟨r, after, hr, hafter, hnone⟩ := h m
  refine ⟨r, after, hr, hr, hafter.trans hm, fun e he hover => ?_⟩
  cases hover.symm.trans (hnone e he)

theorem Settles.bind {next otherNext : α → Eval β} (h : Settles overflow depth left run other)
    (hnext : ∀ a, Settles overflow left left (next a) (otherNext a)) :
    Settles overflow depth left (run >>= next) (other >>= otherNext) := by
  intro m hm
  obtain ⟨r, after, hr, hr', hafter, hover⟩ := h m hm
  rw [Run.bind_apply, Run.bind_apply, hr, hr']
  cases r with
  | error e =>
      refine ⟨.error e, after, rfl, rfl, hafter, fun e' he => ?_⟩
      cases he
      exact hover e rfl
  | ok a => exact hnext a after hafter

theorem Settles.within (h : Settles overflow depth left run other) (outer : ScopeId) :
    Settles overflow depth left (Eval.within .prompt outer run)
      (Eval.within .prompt outer other) := by
  intro m hm
  obtain ⟨r, after, hr, hr', hafter, hover⟩ := h (Eval.enter outer m).2 hm
  rw [Eval.within_apply, Eval.within_apply, hr, hr']
  exact ⟨r, _, rfl, rfl, hafter, hover⟩

theorem Settles.inScope (h : Settles overflow depth depth run other) (outer : ScopeId) :
    Settles overflow depth depth (Eval.inScope .prompt outer run)
      (Eval.inScope .prompt outer other) := by
  intro m hm
  rw [Eval.inScope, Eval.inScope]
  split
  · exact h.within outer m hm
  · exact Settles.of_elementary (elementary_fail rfl) m hm

theorem Settles.endReturn {run other : Eval Value} (h : Settles overflow depth left run other) :
    Settles overflow depth left (Eval.endReturn run) (Eval.endReturn other) := by
  intro m hm
  obtain ⟨r, after, hr, hr', hafter, hover⟩ := h m hm
  rw [Eval.endReturn, Eval.endReturn, hr, hr']
  split
  · rename_i v t heq
    cases heq
    exact ⟨.ok v, after, rfl, rfl, hafter, fun e he => by cases he⟩
  · exact ⟨r, after, rfl, rfl, hafter, hover⟩

/-- However a run ends, the call that it makes up is then over. -/
theorem Settles.exitCall {run other : Eval Value} (h : Settles overflow depth left run other) :
    Settles overflow depth (left - 1)
      (do
        let result ← Run.outcome run
        Eval.exitCall
        Run.ofExcept result)
      (do
        let result ← Run.outcome other
        Eval.exitCall
        Run.ofExcept result) := by
  intro m hm
  obtain ⟨r, after, hr, hr', hafter, hover⟩ := h m hm
  simp only [Run.bind_apply, Run.outcome, hr, hr', Eval.exitCall, Run.update_apply]
  exact ⟨r, _, rfl, rfl, congrArg (· - 1) hafter, hover⟩

/-- At the limit a call is refused. -/
theorem settles_refused {limit : Nat} (h : limit ≤ depth) (next otherNext : Unit → Eval β) :
    Settles (.stackOverflow (depth + 1) limit) depth depth
      (Eval.enterCall (some limit) >>= next) (Eval.enterCall (some limit) >>= otherNext) := by
  rintro m rfl
  rw [Run.bind_apply, Run.bind_apply, Eval.enterCall_some, if_pos h]
  refine ⟨_, m, rfl, rfl, rfl, fun e he _ => ?_⟩
  cases he
  rfl

/-- Below the limit a call begins, one deeper. -/
theorem Settles.enterCall {limit : Nat} (h : depth < limit) {next otherNext : Unit → Eval β}
    (hnext : Settles overflow (depth + 1) left (next ()) (otherNext ())) :
    Settles overflow depth left (Eval.enterCall (some limit) >>= next)
      (Eval.enterCall (some limit) >>= otherNext) := by
  intro m hm
  rw [Run.bind_apply, Run.bind_apply, Eval.enterCall_some, if_neg (by omega)]
  exact hnext _ (congrArg (· + 1) hm)

end Eval

open Eval

/-- Evaluations that settle at a depth of calls. -/
def settling (overflow : EvalError) (depth : Nat) : Congruence where
  Rel := Settles overflow depth depth
  elementary := .of_elementary
  bind := .bind
  inBlock h m := h.within m.environment.current m
  endReturn := .endReturn

section

variable {ctx : Context} {limit : Nat} (hctx : ctx.maxCallDepth = some limit)

include hctx

/-- A function that is called at the limit is not entered, whatever the allowance. -/
theorem settles_callFunction_refused {depth : Nat} (hfull : limit ≤ depth)
    (allowance more : Nat) (f : Function) (args : List Value) :
    Settles (.stackOverflow (depth + 1) limit) depth depth
      (callValue .prompt ctx allowance (.function f) args)
      (callValue .prompt ctx more (.function f) args) := by
  obtain ⟨next, hnext⟩ := exists_callFunction ctx allowance f args
  obtain ⟨otherNext, hother⟩ := exists_callFunction ctx more f args
  rw [hnext, hother, hctx]
  split
  · exact settles_refused hfull next otherNext
  · exact .of_elementary (elementary_fail rfl)

/-- With allowances that cover the calls still allowed at a depth, a call settles there. -/
theorem settles_callValue {depth allowance more : Nat} (hallowance : limit - depth ≤ allowance)
    (hmore : limit - depth ≤ more) (callee : Value) (args : List Value) :
    Settles (.stackOverflow (max depth limit + 1) limit) depth depth
      (callValue .prompt ctx allowance callee args) (callValue .prompt ctx more callee args) := by
  induction allowance generalizing depth more callee args with
  | zero =>
      cases callee with
      | function f =>
          have hfull : limit ≤ depth := Nat.sub_eq_zero_iff_le.1 (Nat.le_zero.1 hallowance)
          rw [Nat.max_eq_left hfull]
          exact settles_callFunction_refused hctx hfull _ _ f args
      | builtin b => cases more <;> exact .of_elementary (elementary_callBuiltin b args)
      | integer | boolean | string | null | array | hash | error =>
          cases more <;> exact .of_elementary (elementary_fail rfl)
  | succ allowance ih =>
      cases callee with
      | function f =>
          -- At the limit the call is refused; below it the body runs one deeper, where one
          -- call less is still allowed.
          by_cases hfull : limit ≤ depth
          · rw [Nat.max_eq_left hfull]
            exact settles_callFunction_refused hctx hfull _ _ f args
          · obtain ⟨more, rfl⟩ : ∃ n, more = n + 1 := ⟨more - 1, by omega⟩
            have hsame : max depth limit = max (depth + 1) limit := by omega
            have hinside : limit - (depth + 1) ≤ allowance := by omega
            have hinside' : limit - (depth + 1) ≤ more := by omega
            rw [callValue, callValue, hctx, hsame]
            split
            · have hbody := (settling _ (depth + 1)).evalBody (ih hinside hinside') f args
              exact .enterCall (by omega) (hbody.inScope f.scope).exitCall.endReturn
            · exact .of_elementary (elementary_fail rfl)
      | builtin b => cases more <;> exact .of_elementary (elementary_callBuiltin b args)
      | integer | boolean | string | null | array | hash | error =>
          cases more <;> exact .of_elementary (elementary_fail rfl)

/-- With allowances that cover the calls still allowed, every evaluation ends, and with
each of them alike. -/
theorem Task.settles {depth allowance more : Nat} (hallowance : limit - depth ≤ allowance)
    (hmore : limit - depth ≤ more) (task : Task) :
    Settles (.stackOverflow (max depth limit + 1) limit) depth depth
      (task.evalUnder ctx allowance) (task.evalUnder ctx more) :=
  (settling _ depth).evalUnder (settles_callValue hctx hallowance hmore) task

theorem Context.le_callAllowance (depth : Nat) : limit - depth ≤ ctx.callAllowance := by
  rw [callAllowance, hctx]
  exact (Nat.sub_le limit depth).trans (Nat.le_succ limit)

end

namespace Guarded

/-- From every state that is reached, under every limit on nested calls, an evaluation comes
to an end: its walks along scopes do, wherever on its way they are made, and it yields the
same with every allowance that covers the calls still allowed. Each call takes one of the
allowance, and with what it hands on the evaluation follows the syntax, so this is an
induction on the calls still allowed and, among evaluations of as many, on the syntax. -/
theorem evaluation_terminates {g : Guarded} (hg : g.Reachable) {ctx : Context} {limit : Nat}
    (hctx : ctx.maxCallDepth = some limit) (task : Task) (printed : String) (functions : Nat)
    (flag : Flag) :
    let m : Machine := ⟨g.environment, printed, functions, flag⟩
    (∀ allowance changes, changes <+: task.trace ctx allowance m →
      (g.run changes).arena.WalksEnd) ∧
    ∃ r after, task.evalUnder ctx ctx.callAllowance m = some (r, after) ∧
      ∀ allowance, limit - g.environment.callDepth ≤ allowance →
        task.evalUnder ctx allowance m = some (r, after) := by
  intro m
  refine ⟨fun allowance changes hmade => ?_, ?_⟩
  · have hmidway : (g.run changes).Reachable := .midway hg ctx allowance task _ _ _ hmade
    exact hmidway.sound.linked.walksEnd
  · have hcovers := Context.le_callAllowance hctx m.environment.callDepth
    obtain ⟨r, after, hr, -⟩ := Task.settles hctx hcovers hcovers task m rfl
    refine ⟨r, after, hr, fun allowance hallowance => ?_⟩
    obtain ⟨r', after', hr', hallowed, -⟩ := Task.settles hctx hcovers hallowance task m rfl
    cases hr.symm.trans hr'
    exact hallowed

/-- A function that does nothing but call itself: the calls allowed are soon over. -/
theorem evaluation_terminates_selfCall :
    let name : Token := ⟨.ident, "f"⟩
    let word : Token := ⟨.functionWord, "fn"⟩
    let paren : Token := ⟨.lparen, "("⟩
    let self := Stmt.expr name (.call paren (.name name) [])
    let task := Task.stmts
      [.bind ⟨.letWord, "let"⟩ name (.function word [] ⟨⟨.lbrace, "\x7b"⟩, [self]⟩), self]
    ∃ after, ∀ allowance, 3 ≤ allowance →
      task.evalUnder ⟨some 3, 1024⟩ allowance .initial =
        some (.error (.stackOverflow 4 3), after) := by
  intro name word paren self task
  obtain ⟨-, r, after, -, hall⟩ :=
    evaluation_terminates .start (rfl : Context.maxCallDepth ⟨some 3, 1024⟩ = some 3)
      task "" 0 (.fixed false)
  have hthree : task.evalUnder ⟨some 3, 1024⟩ 3 .initial = some _ := rfl
  cases hthree.symm.trans (hall 3 (by decide))
  exact ⟨_, hall⟩

end Guarded
end Treewalk
