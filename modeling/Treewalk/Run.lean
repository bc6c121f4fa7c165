/-!
Computations over a state. A run reads and changes the state, and ends with a
result or with an error; either way the state it has reached stays. A run that
has used up the steps it was allowed has no outcome at all, so that running out
is never mistaken for an error.
-/

namespace Treewalk

/-- A computation over a state: no outcome, or an error or a result together
with the state that was reached. -/
def Run (State Failure Result : Type) : Type :=
  State → Option (Except Failure Result × State)

namespace Run

variable {σ ε α β γ : Type}

/-- Yield a result and leave the state alone. -/
@[always_inline, inline]
def yield (a : α) : Run σ ε α :=
  fun s => some (.ok a, s)

/-- Continue with the result of the first run, unless it fails. -/
@[always_inline, inline]
def andThen (m : Run σ ε α) (next : α → Run σ ε β) : Run σ ε β :=
  fun s =>
    match m s with
    | none => none
    | some (.error e, t) => some (.error e, t)
    | some (.ok a, t) => next a t

instance : Monad (Run σ ε) where
  pure := yield
  bind := andThen

/-- Fail, keeping the state. -/
@[always_inline, inline]
def fail (e : ε) : Run σ ε α :=
  fun s => some (.error e, s)

/-- The state as it is. -/
@[always_inline, inline]
def state : Run σ ε σ :=
  fun s => some (.ok s, s)

/-- Change the state. -/
@[always_inline, inline]
def update (f : σ → σ) : Run σ ε Unit :=
  fun s => some (.ok (), f s)

/-- Change the state and yield something computed on the way. -/
@[always_inline, inline]
def updateGet (f : σ → α × σ) : Run σ ε α :=
  fun s => match f s with
    | (a, t) => some (.ok a, t)

/-- The result of a computation that may fail without touching the state. -/
@[always_inline, inline]
def ofExcept (r : Except ε α) : Run σ ε α :=
  fun s => some (r, s)

/-- No step is left. -/
def exhausted : Run σ ε α :=
  fun _ => none

/-- The outcome of a run, its error included, as a result. -/
@[always_inline, inline]
def outcome (m : Run σ ε α) : Run σ ε (Except ε α) :=
  fun s =>
    match m s with
    | none => none
    | some (r, t) => some (.ok r, t)

@[simp] theorem pure_apply (a : α) (s : σ) :
    (pure a : Run σ ε α) s = some (.ok a, s) := rfl

theorem bind_apply (m : Run σ ε α) (next : α → Run σ ε β) (s : σ) :
    (m >>= next) s =
      match m s with
      | none => none
      | some (.error e, t) => some (.error e, t)
      | some (.ok a, t) => next a t := rfl

@[simp] theorem fail_apply (e : ε) (s : σ) :
    (fail e : Run σ ε α) s = some (.error e, s) := rfl

@[simp] theorem state_apply (s : σ) :
    (state : Run σ ε σ) s = some (.ok s, s) := rfl

@[simp] theorem update_apply (f : σ → σ) (s : σ) :
    (update f : Run σ ε Unit) s = some (.ok (), f s) := rfl

@[simp] theorem updateGet_apply (f : σ → α × σ) (s : σ) :
    (updateGet f : Run σ ε α) s = some (.ok (f s).1, (f s).2) := rfl

@[simp] theorem ofExcept_apply (r : Except ε α) (s : σ) :
    (ofExcept r : Run σ ε α) s = some (r, s) := rfl

@[simp] theorem exhausted_apply (s : σ) :
    (exhausted : Run σ ε α) s = none := rfl

/-- A sequence yields a result exactly when both of its parts do. -/
theorem bind_eq_ok_iff {m : Run σ ε α} {next : α → Run σ ε β} {s u : σ} {b : β} :
    (m >>= next) s = some (.ok b, u) ↔
      ∃ a t, m s = some (.ok a, t) ∧ next a t = some (.ok b, u) := by
  rw [bind_apply]
  cases m s with
  | none => simp
  | some r =>
      obtain ⟨r, t⟩ := r
      cases r with
      | error e => simp
      | ok a =>
          constructor
          · exact fun h => ⟨a, t, rfl, h⟩
          · rintro ⟨_, _, h, hn⟩
            cases h
            exact hn

/-- A sequence fails exactly when its first part does, or its second part does
after the first has yielded a result. -/
theorem bind_eq_error_iff {m : Run σ ε α} {next : α → Run σ ε β} {s u : σ} {e : ε} :
    (m >>= next) s = some (.error e, u) ↔
      m s = some (.error e, u) ∨
        ∃ a t, m s = some (.ok a, t) ∧ next a t = some (.error e, u) := by
  rw [bind_apply]
  cases m s with
  | none => simp
  | some r =>
      obtain ⟨r, t⟩ := r
      cases r with
      | error e => simp
      | ok a =>
          constructor
          · exact fun h => .inr ⟨a, t, rfl, h⟩
          · rintro (h | ⟨_, _, h, hn⟩)
            · cases h
            · cases h
              exact hn

instance : LawfulMonad (Run σ ε) :=
  LawfulMonad.mk' (Run σ ε)
    (by
      intro α m
      funext s
      show (m >>= fun a => pure (id a)) s = m s
      rw [bind_apply]
      split <;> simp_all)
    (by intros; rfl)
    (by
      intro α β γ m f g
      funext s
      simp only [bind_apply]
      cases m s with
      | none => rfl
      | some r => cases r with | mk r t => cases r <;> rfl)

end Run
end Treewalk
