import Treewalk.Proofs.Evaluation.Journal

/-!
Accounts of evaluations. An account says something of a machine, of what happens in an
evaluation from there, and of the machine that the evaluation ends on, given the names
that it may bind in its own scope. If an account covers the elementary steps then it
covers every evaluation that ends, whatever its result.

One account is that the changes in the journal lead from the one environment to the other
and that the journal tells what is printed in between.
-/

namespace Treewalk

open Environment (Change)

/-- The change by which a new scope is entered inside the given one. -/
inductive Machine.Enters (m : Machine) : Change → ScopeId → Prop where
  | block : Enters m .enterBlock m.environment.current
  | scope {outer : ScopeId} (lives : m.environment.arena.contains outer = true) :
      Enters m (.enterScope outer) outer

theorem Machine.Enters.apply_eq {m : Machine} {c : Change} {outer : ScopeId}
    (h : m.Enters c outer) (suspended : List ScopeId) :
    Guarded.apply ⟨m.environment, suspended⟩ c =
      ⟨(Eval.enter outer m).2.environment, m.environment.current :: suspended⟩ := by
  cases h with
  | block => rfl
  | scope lives =>
      rw [Guarded.apply, Environment.enterLive, if_pos lives]
      rfl

/-- What is said of evaluations that end, in terms of the names they may bind in their own
scope, the machine they begin on, what happens in them and the machine they end on. -/
structure Account where
  Says : List String → Machine → List Event → Machine → Prop
  rest : ∀ names m, Says names m [] m
  trans : ∀ {names m m' m'' events later}, Says names m events m' → Says names m' later m'' →
    Says names m (events ++ later) m''
  look : ∀ names (m : Machine), Says names m [] m.look
  print : ∀ names (m : Machine) text,
    Says names m [.printed text] { m with printed := m.printed ++ text }
  define : ∀ {names name} (m : Machine) value, name ∈ names →
    Says names m [.changed (.define name value)]
      (m.changeEnvironment (Environment.define name value))
  capture : ∀ names (m : Machine),
    Says names m [.changed .capture]
      ⟨m.environment.capture.2, m.printed, m.functions + 1, m.flag⟩
  within : ∀ {names inner c outer events} {m after : Machine}, m.Enters c outer →
    Says inner (Eval.enter outer m).2 events after →
    Says names m (.changed c :: (events ++ [.changed .leave]))
      (Eval.leave .prompt m.environment.current after)
  call : ∀ {names limit environment events} {m after : Machine},
    m.environment.enterCall limit = .ok environment →
    Says names { m with environment } events after →
    Says names m (.changed (.enterCall limit) :: (events ++ [.changed .exitCall]))
      (after.changeEnvironment Environment.exitCall)
  ofNode : ∀ {names events} {m after : Machine} node result, Says names m events after →
    Says names m (.began node :: (events ++ [.ended node result after])) after

namespace Account

variable (A : Account) {α β : Type} {names : List String}

/-- The account is true of a run and its journal, wherever the run ends. -/
def Covers (names : List String) (run : Eval α) (journal : Journal) : Prop :=
  ∀ m r after, run m = some (r, after) → A.Says names m (journal m) after

variable {A} {run : Eval α} {journal : Journal}

theorem covers_poll : A.Covers names Eval.poll .still := by
  intro m r after hrun
  rcases Eval.poll_cases m with h | h
  · cases h.symm.trans hrun
    exact A.look names m
  · cases h.symm.trans hrun
    exact A.look names m

theorem Covers.bind {next : α → Eval β} {journalNext : α → Journal}
    (h : A.Covers names run journal) (hnext : ∀ a, A.Covers names (next a) (journalNext a)) :
    A.Covers names (run >>= next) (.andThen run journal journalNext) := by
  intro m r after hrun
  rw [Run.bind_apply] at hrun
  rw [Journal.andThen]
  obtain hm | ⟨a, t, hm⟩ | ⟨e, t, hm⟩ := Run.ended (run m) <;> rw [hm] at hrun ⊢
  · cases hrun
  · exact A.trans (h m _ t hm) (hnext a t r after hrun)
  · cases hrun
    rw [List.append_nil]
    exact h m _ after hm

theorem Covers.within {inner : List String} (h : A.Covers inner run journal)
    {m after : Machine} {c : Change} {outer : ScopeId} {r : Except EvalError α}
    (henters : m.Enters c outer) (hrun : Eval.within .prompt outer run m = some (r, after)) :
    A.Says names m (Journal.within c outer run journal m) after := by
  rw [Eval.within_apply] at hrun
  obtain ⟨⟨r', ended⟩, hm, heq⟩ := Option.map_eq_some_iff.1 hrun
  cases heq
  rw [Journal.within, hm]
  exact A.within henters (h _ _ _ hm)

theorem Covers.inScope {inner : List String} (h : A.Covers inner run journal)
    (outer : ScopeId) :
    A.Covers names (Eval.inScope .prompt outer run) (.inScope outer run journal) := by
  intro m r after hrun
  rw [Eval.inScope] at hrun
  rw [Journal.inScope]
  split
  · rename_i hlives
    rw [if_pos hlives] at hrun
    exact h.within (.scope hlives) hrun
  · rename_i hgone
    rw [if_neg hgone] at hrun
    cases hrun
    exact A.rest names m

theorem Covers.inCall {run : Eval Value} (h : A.Covers names run journal)
    (limit : Option Nat) : A.Covers names (Eval.inCall limit run) (.inCall limit run journal) := by
  intro m r after hrun
  rw [Journal.inCall]
  cases hlimit : m.environment.enterCall limit with
  | error e =>
      rw [Eval.inCall_refused hlimit] at hrun
      cases hrun
      exact A.rest names m
  | ok environment =>
      rw [Eval.inCall_apply hlimit] at hrun
      obtain ⟨⟨r', ended⟩, hm, heq⟩ := Option.map_eq_some_iff.1 hrun
      cases heq
      dsimp only
      rw [hm]
      exact A.call hlimit (h _ _ _ hm)

/-- What an account says is said of runs and their journals. -/
def chronicle (A : Account) (ctx : Context) : Chronicle ctx where
  Fits := A.Covers
  still h m r after hrun := by
    cases h m r after hrun
    exact A.rest _ _
  poll _ := covers_poll
  print names b args m r after hrun := by
    cases hrun
    exact A.print names m _
  define value hname m r after hrun := by
    cases hrun
    exact A.define m value hname
  capture names parameters body m r after hrun := by
    cases hrun
    exact A.capture names m
  andThen h hnext := h.bind hnext
  inBlock h _ _ _ hrun := h.within .block hrun
  inScope outer h := h.inScope outer
  inCall h := h.inCall _
  endReturn h m r after hrun := by
    obtain ⟨r', hr⟩ := Eval.exists_of_endReturn hrun
    exact h m r' after hr
  ofNode allowance node h m r after hrun := by
    rw [Journal.ofNode, hrun]
    exact A.ofNode node r (h m r after hrun)

/-- An account covers every evaluation that ends, whatever its result. -/
theorem covers_evalUnder (A : Account) (ctx : Context) (allowance : Nat) (task : Task) :
    A.Covers task.boundNames (task.evalUnder ctx allowance) (task.journal ctx allowance) :=
  (A.chronicle ctx).fits_evalUnder allowance task

end Account

/-- What has happened accounts for what differs between two machines: its changes lead
from the one environment to the other, and it has printed what is printed in between. -/
structure Accounts (m : Machine) (events : List Event) (after : Machine) : Prop where
  replayed : ∀ suspended, Guarded.run ⟨m.environment, suspended⟩ (Event.changes events) =
    ⟨after.environment, suspended⟩
  printed_eq : after.printed = m.printed ++ Event.text events

namespace Accounts

variable {m m' after : Machine} {events later : List Event}

theorem rest (m : Machine) : Accounts m [] m :=
  ⟨fun _ => rfl, (String.append_empty ..).symm⟩

theorem trans (h : Accounts m events m') (k : Accounts m' later after) :
    Accounts m (events ++ later) after := by
  refine ⟨fun suspended => ?_, ?_⟩
  · rw [Event.changes_append, Guarded.run_append, h.replayed, k.replayed]
  · rw [k.printed_eq, h.printed_eq, Event.text_append, String.append_assoc]

/-- The beginning and the end of a node change and print nothing. -/
theorem ofNode (h : Accounts m events after) (node : Task) (r : Except EvalError Value)
    (on : Machine) : Accounts m (.began node :: (events ++ [.ended node r on])) after := by
  have hend : Accounts after [.ended node r on] after :=
    ⟨fun _ => rfl, (String.append_empty ..).symm⟩
  exact ⟨(h.trans hend).replayed, (h.trans hend).printed_eq⟩

theorem changed {c : Change} {environment : Environment}
    (h : ∀ suspended, Guarded.apply ⟨m.environment, suspended⟩ c = ⟨environment, suspended⟩) :
    Accounts m [.changed c] ⟨environment, m.printed, functions, flag⟩ :=
  ⟨h, (String.append_empty ..).symm⟩

theorem within {c : Change} {outer : ScopeId} (henters : m.Enters c outer)
    (h : Accounts (Eval.enter outer m).2 events after) :
    Accounts m (.changed c :: (events ++ [.changed .leave]))
      (Eval.leave .prompt m.environment.current after) := by
  refine ⟨fun suspended => ?_, ?_⟩
  · show ((Guarded.apply ⟨m.environment, suspended⟩ c).run
      (Event.changes (events ++ [.changed .leave]))) = _
    rw [henters.apply_eq, Event.changes_append, Guarded.run_append, h.replayed]
    rfl
  · show after.printed = m.printed ++ Event.text (events ++ [.changed .leave])
    rw [Event.text_append, ← String.append_assoc]
    exact h.printed_eq.trans (String.append_empty ..).symm

theorem call {limit : Option Nat} {environment : Environment}
    (hlimit : m.environment.enterCall limit = .ok environment)
    (h : Accounts { m with environment } events after) :
    Accounts m (.changed (.enterCall limit) :: (events ++ [.changed .exitCall]))
      (after.changeEnvironment Environment.exitCall) := by
  refine ⟨fun suspended => ?_, ?_⟩
  · show ((Guarded.apply ⟨m.environment, suspended⟩ (.enterCall limit)).run
      (Event.changes (events ++ [.changed .exitCall]))) = _
    rw [Guarded.apply, hlimit, Event.changes_append, Guarded.run_append, h.replayed]
    rfl
  · show after.printed = m.printed ++ Event.text (events ++ [.changed .exitCall])
    rw [Event.text_append, ← String.append_assoc]
    exact h.printed_eq.trans (String.append_empty ..).symm

end Accounts

/-- The journal of every evaluation accounts for what the evaluation does. -/
def accounting : Account where
  Says _ := Accounts
  rest _ := .rest
  trans := .trans
  look _ _ := ⟨fun _ => rfl, (String.append_empty ..).symm⟩
  print _ _ _ := ⟨fun _ => rfl, rfl⟩
  define _ _ _ := .changed fun _ => rfl
  capture _ _ := .changed fun _ => rfl
  within := .within
  call := .call
  ofNode node r h := h.ofNode node r _

theorem Task.accounts {ctx : Context} {allowance : Nat} {task : Task} {m after : Machine}
    {r : Except EvalError Value} (h : task.evalUnder ctx allowance m = some (r, after)) :
    Accounts m (task.journal ctx allowance m) after :=
  accounting.covers_evalUnder ctx allowance task m r after h

end Treewalk
