import Treewalk.Proofs.Run
import Treewalk.Syntax.Parse

/-!
Noting where statements begin. The rules of the grammar are read in a monad that keeps a
list of the cursors on which statements begin. What can be seen of a rule, in this monad or
in the plain one, is what it does to the cursor and what it notes; proofs about the rules
are about these two and hold in either.
-/

namespace Treewalk

/-- A rule that notes cursors on its way. When its allowance runs out the notes are there
still. -/
def Noting (α : Type) : Type :=
  Cursor → List Cursor × Option (Except SyntaxError α × Cursor)

namespace Noting

variable {α β : Type}

def andThen (m : Noting α) (next : α → Noting β) : Noting β := fun c =>
  match m c with
  | (notes, some (.ok a, c')) => (notes ++ (next a c').1, (next a c').2)
  | (notes, some (.error e, c')) => (notes, some (.error e, c'))
  | (notes, none) => (notes, none)

instance : Monad Noting where
  pure a := fun c => ([], some (.ok a, c))
  bind := andThen

def step (p : Parse α) : Noting α :=
  fun c => ([], p c)

def exhausted : Noting α :=
  fun _ => ([], none)

/-- Note the cursor. -/
def note : Noting Unit :=
  fun c => ([c], some (.ok (), c))

def outcome (m : Noting α) : Noting (Except SyntaxError α) := fun c =>
  match m c with
  | (notes, some (r, c')) => (notes, some (.ok r, c'))
  | (notes, none) => (notes, none)

instance : MonadGrammar Noting where
  step := step
  outcome := outcome
  exhausted := exhausted
  beginning := note

abbrev expression (n : Nat) (p : Precedence) : Noting Expr := Grammar.expression n p

abbrev programStatements (n : Nat) : Noting (List Stmt) := Grammar.programStatements n

/-! How runs are put together. -/

section Runs

variable {m : Noting α} {next : α → Noting β} {c c₁ : Cursor} {notes : List Cursor}

theorem ended (x : List Cursor × Option (Except SyntaxError α × Cursor)) :
    (∃ notes, x = (notes, none)) ∨ (∃ notes a c, x = (notes, some (.ok a, c))) ∨
      ∃ notes e c, x = (notes, some (.error e, c)) := by
  obtain ⟨notes, _ | ⟨e | a, c⟩⟩ := x
  · exact .inl ⟨notes, rfl⟩
  · exact .inr (.inr ⟨notes, e, c, rfl⟩)
  · exact .inr (.inl ⟨notes, a, c, rfl⟩)

theorem bind_short (h : m c = (notes, none)) : (m >>= next) c = (notes, none) := by
  show andThen m next c = _
  rw [andThen, h]

theorem bind_error {e : SyntaxError} (h : m c = (notes, some (.error e, c₁))) :
    (m >>= next) c = (notes, some (.error e, c₁)) := by
  show andThen m next c = _
  rw [andThen, h]

theorem bind_ok {a : α} (h : m c = (notes, some (.ok a, c₁))) :
    (m >>= next) c = (notes ++ (next a c₁).1, (next a c₁).2) := by
  show andThen m next c = _
  rw [andThen, h]

/-- Where two rules one after the other come to an end, the first has failed, or both have. -/
theorem bind_ended {r : Except SyntaxError β} (h : (m >>= next) c = (notes, some (r, c₁))) :
    (∃ e, m c = (notes, some (.error e, c₁)) ∧ r = .error e) ∨
      ∃ first a c' more, m c = (first, some (.ok a, c')) ∧ next a c' = (more, some (r, c₁)) ∧
        notes = first ++ more := by
  obtain ⟨first, hm⟩ | ⟨first, a, c', hm⟩ | ⟨first, e, c', hm⟩ := ended (m c)
  · rw [bind_short hm] at h
    cases h
  · rw [bind_ok hm, Prod.mk.injEq] at h
    exact .inr ⟨first, a, c', _, hm, Prod.ext rfl h.2, h.1.symm⟩
  · rw [bind_error hm] at h
    cases h
    exact .inl ⟨e, hm, rfl⟩

theorem outcome_ended {r : Except SyntaxError (Except SyntaxError α)}
    (h : m.outcome c = (notes, some (r, c₁))) : ∃ s, r = .ok s ∧ m c = (notes, some (s, c₁)) := by
  rw [outcome] at h
  obtain ⟨first, hm⟩ | ⟨first, a, c', hm⟩ | ⟨first, e, c', hm⟩ := ended (m c) <;>
    rw [hm] at h <;> cases h
  · exact ⟨_, rfl, hm⟩
  · exact ⟨_, rfl, hm⟩

theorem step_ended {p : Parse α} {r : Except SyntaxError α}
    (h : step p c = (notes, some (r, c₁))) : p c = some (r, c₁) ∧ notes = [] := by
  rw [step, Prod.mk.injEq] at h
  exact ⟨h.2, h.1.symm⟩

end Runs
end Noting

/-! What can be seen of a rule. -/

/-- A monad for the grammar, of which can be seen what a rule does to the cursor and which
cursors it notes. -/
class Observed (m : Type → Type) [MonadGrammar m] where
  run {α : Type} : m α → Parse α
  notes {α : Type} : m α → Cursor → List Cursor
  run_pure {α : Type} (a : α) : run (pure a) = pure a
  run_bind {α β : Type} (x : m α) (next : α → m β) :
    run (x >>= next) = run x >>= fun a => run (next a)
  run_step {α : Type} (p : Parse α) : run (MonadGrammar.step p) = p
  run_outcome {α : Type} (x : m α) : run (MonadGrammar.outcome x) = (run x).outcome
  run_exhausted {α : Type} : run (MonadGrammar.exhausted : m α) = Run.exhausted
  run_beginning : run MonadGrammar.beginning = pure ()
  notes_pure {α : Type} (a : α) (c : Cursor) : notes (pure a) c = []
  notes_step {α : Type} (p : Parse α) (c : Cursor) : notes (MonadGrammar.step p) c = []
  notes_outcome {α : Type} (x : m α) (c : Cursor) :
    notes (MonadGrammar.outcome x) c = notes x c
  notes_exhausted {α : Type} (c : Cursor) : notes (MonadGrammar.exhausted : m α) c = []
  eq_of_mem_beginning {c d : Cursor} (h : d ∈ notes MonadGrammar.beginning c) : d = c
  of_mem_bind {α β : Type} {x : m α} {next : α → m β} {c d : Cursor}
    (h : d ∈ notes (x >>= next) c) :
    d ∈ notes x c ∨ ∃ a c', run x c = some (.ok a, c') ∧ d ∈ notes (next a) c'

instance : Observed Parse where
  run p := p
  notes _ _ := []
  run_pure _ := rfl
  run_bind _ _ := rfl
  run_step _ := rfl
  run_outcome _ := rfl
  run_exhausted := rfl
  run_beginning := rfl
  notes_pure _ _ := rfl
  notes_step _ _ := rfl
  notes_outcome _ _ := rfl
  notes_exhausted _ := rfl
  eq_of_mem_beginning h := absurd h List.not_mem_nil
  of_mem_bind h := absurd h List.not_mem_nil

namespace Noting

variable {α β : Type}

/-- The rule without its notes. -/
def erase (m : Noting α) : Parse α :=
  fun c => (m c).2

theorem erase_bind (m : Noting α) (next : α → Noting β) :
    (m >>= next).erase = m.erase >>= fun a => (next a).erase := by
  funext c
  rw [Run.bind_apply, erase, erase]
  obtain ⟨notes, hm⟩ | ⟨notes, a, c₁, hm⟩ | ⟨notes, e, c₁, hm⟩ := ended (m c)
  · rw [bind_short hm, hm]
  · rw [bind_ok hm, hm]
    rfl
  · rw [bind_error hm, hm]

theorem erase_outcome (m : Noting α) : m.outcome.erase = m.erase.outcome := by
  funext c
  rw [erase, outcome, Run.outcome, erase]
  obtain ⟨notes, _ | ⟨r, c'⟩⟩ := m c <;> rfl

theorem outcome_fst (m : Noting α) (c : Cursor) : (m.outcome c).1 = (m c).1 := by
  rw [outcome]
  obtain ⟨notes, _ | ⟨r, c'⟩⟩ := m c <;> rfl

theorem of_mem_bind {m : Noting α} {next : α → Noting β} {c d : Cursor}
    (h : d ∈ ((m >>= next) c).1) :
    d ∈ (m c).1 ∨ ∃ a c', (m c).2 = some (.ok a, c') ∧ d ∈ (next a c').1 := by
  obtain ⟨notes, hm⟩ | ⟨notes, a, c₁, hm⟩ | ⟨notes, e, c₁, hm⟩ := ended (m c)
  · rw [bind_short hm] at h
    exact .inl (by rwa [hm])
  · rw [bind_ok hm] at h
    rw [hm]
    exact (List.mem_append.1 h).imp_right fun hd => ⟨a, c₁, rfl, hd⟩
  · rw [bind_error hm] at h
    exact .inl (by rwa [hm])

instance : Observed Noting where
  run := erase
  notes m c := (m c).1
  run_pure _ := rfl
  run_bind := erase_bind
  run_step _ := rfl
  run_outcome := erase_outcome
  run_exhausted := rfl
  run_beginning := rfl
  notes_pure _ _ := rfl
  notes_step _ _ := rfl
  notes_outcome := outcome_fst
  notes_exhausted _ := rfl
  eq_of_mem_beginning := List.mem_singleton.1
  of_mem_bind := of_mem_bind

end Noting
end Treewalk
