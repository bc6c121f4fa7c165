import Treewalk.Evaluation
import Treewalk.Proofs.Run

/-!
What the elementary steps of an evaluation come to, and the ways in which runs are put
together: in a scope, in a call, and to the end of a return. A run that does nothing but
yield a result still looks at the flag.
-/

namespace Treewalk

/-- The flag is not raised any more when it is looked at. -/
def Flag.StaysDown (f : Flag) : Prop :=
  ∀ look, f.looks ≤ look → f.raised look = false

theorem Flag.staysDown_fixed : (Flag.fixed false).StaysDown :=
  fun _ _ => rfl

namespace Machine

/-- The machine once its flag has been looked at so many times more. -/
def lookTimes (n : Nat) (m : Machine) : Machine :=
  { m with flag := { m.flag with looks := m.flag.looks + n } }

theorem lookTimes_lookTimes (k n : Nat) (m : Machine) :
    (m.lookTimes k).lookTimes n = m.lookTimes (k + n) :=
  congrArg (fun looks => { m with flag := { m.flag with looks } }) (Nat.add_assoc ..)

end Machine

namespace Eval

variable {α : Type}

theorem poll_of_raised {m : Machine} (h : m.flag.isRaised = true) :
    poll m = some (.error .interrupted, m.look) := by
  simp only [poll, h, if_true]

theorem poll_of_lowered {m : Machine} (h : m.flag.isRaised = false) :
    poll m = some (.ok (), m.look) := by
  simp only [poll, h, Bool.false_eq_true, if_false]

/-- However the flag stands, all that changes is that it has been looked at. -/
theorem poll_cases (m : Machine) :
    poll m = some (.ok (), m.look) ∨ poll m = some (.error .interrupted, m.look) := by
  cases h : m.flag.isRaised with
  | false => exact .inl (poll_of_lowered h)
  | true => exact .inr (poll_of_raised h)

/-- The run yields the result and does nothing else but look at the flag, if that stays down. -/
def Yields (run : Eval α) (a : α) : Prop :=
  ∀ m : Machine, m.flag.StaysDown → ∃ n, run m = some (.ok a, m.lookTimes n)

theorem yields_pure (a : α) : Yields (pure a) a :=
  fun _ _ => ⟨0, rfl⟩

theorem Yields.bind {β : Type} {run : Eval α} {a : α} {next : α → Eval β} {b : β}
    (h : Yields run a) (hnext : Yields (next a) b) : Yields (run >>= next) b := by
  intro m hm
  obtain ⟨k, hk⟩ := h m hm
  obtain ⟨n, hn⟩ := hnext (m.lookTimes k) fun look hlook =>
    hm look (Nat.le_trans (Nat.le_add_right ..) hlook)
  exact ⟨k + n, by rw [Run.bind_apply, hk, ← m.lookTimes_lookTimes]; exact hn⟩

theorem Yields.unlessInterrupted {run : Eval α} {a : α} (h : Yields run a) :
    Yields (unlessInterrupted run) a := by
  have hpoll : Yields poll () := fun m hm => ⟨1, poll_of_lowered (hm _ (Nat.le_refl _))⟩
  exact hpoll.bind h

theorem within_apply (policy : Reclamation) (outer : ScopeId) (run : Eval α) (m : Machine) :
    within policy outer run m =
      (run (enter outer m).2).map fun ended =>
        (ended.1, leave policy m.environment.current ended.2) := by
  have hprevious : (enter outer m).1 = m.environment.current := rfl
  rw [within, ← hprevious]
  obtain ⟨previous, inside⟩ := enter outer m
  dsimp only
  cases run inside <;> rfl

theorem enterCall_some (max : Nat) (m : Machine) :
    enterCall (some max) m =
      if max ≤ m.environment.callDepth then
        some (.error (.stackOverflow (m.environment.callDepth + 1) max), m)
      else
        some (.ok (), m.changeEnvironment fun env =>
          { env with callDepth := env.callDepth + 1 }) := by
  simp only [enterCall, Environment.enterCall]
  by_cases hfull : max ≤ m.environment.callDepth
  · simp only [hfull, if_true]
  · simp only [hfull, if_false, Machine.changeEnvironment]

/-- What becomes of a result at the end of a call or of a program. -/
def returned : Except EvalError Value → Except EvalError Value
  | .error (.returning value) => .ok value
  | r => r

theorem returned_error {e : EvalError} (h : e.isReturn = false) :
    returned (.error e) = .error e := by
  cases e with
  | returning v => cases h
  | _ => rfl

theorem endReturn_apply (run : Eval Value) (m : Machine) :
    endReturn run m = (run m).map fun ended => (returned ended.1, ended.2) := by
  rw [endReturn]
  obtain h | ⟨v, t, h⟩ | ⟨e, t, h⟩ := Run.ended (run m) <;> rw [h]
  · rfl
  · rfl
  · cases e <;> rfl

/-- A return that is ended ends where it was made. -/
theorem exists_of_endReturn {run : Eval Value} {m after : Machine}
    {r : Except EvalError Value} (h : endReturn run m = some (r, after)) :
    ∃ r', run m = some (r', after) := by
  rw [endReturn_apply] at h
  obtain ⟨⟨r', ended⟩, hm, heq⟩ := Option.map_eq_some_iff.1 h
  cases heq
  exact ⟨r', hm⟩

/-- A return does not get past the end of a program. -/
theorem endReturn_ne_returning {run : Eval Value} {v : Value} {m after : Machine}
    (h : endReturn run m = some (.error (.returning v), after)) : False := by
  rw [endReturn] at h
  split at h
  · cases h
  · rename_i hrun
    exact hrun _ _ h

/-- Run the body of a function between the beginning and the end of a call. -/
def inCall (limit : Option Nat) (run : Eval Value) : Eval Value := do
  enterCall limit
  endReturn do
    let result ← Run.outcome run
    exitCall
    Run.ofExcept result

theorem inCall_apply {limit : Option Nat} {m : Machine} {environment : Environment}
    (h : m.environment.enterCall limit = .ok environment) (run : Eval Value) :
    inCall limit run m = (run { m with environment }).map fun ended =>
      (returned ended.1, ended.2.changeEnvironment Environment.exitCall) := by
  rw [inCall, Run.bind_apply, enterCall, h]
  dsimp only
  rw [endReturn_apply, Run.bind_apply, Run.outcome]
  cases run { m with environment } <;> rfl

theorem inCall_refused {limit : Option Nat} {m : Machine} {e : EvalError}
    (h : m.environment.enterCall limit = .error e) (run : Eval Value) :
    inCall limit run m = some (.error e, m) := by
  rw [inCall, Run.bind_apply, enterCall, h]

/-- A call for which no allowance is left fails at the limit or does not end. -/
theorem inCall_exhausted (limit : Option Nat) :
    inCall limit Run.exhausted = (do enterCall limit; (Run.exhausted : Eval Value)) := by
  funext m
  cases hlimit : m.environment.enterCall limit with
  | error e => rw [inCall_refused hlimit, Run.bind_apply, enterCall, hlimit]
  | ok environment =>
      rw [inCall_apply hlimit, Run.bind_apply, enterCall, hlimit]
      rfl

end Eval
end Treewalk
