import Treewalk.Proofs.Evaluation.Occupancy

/-!
Evaluation rewrites no binding. Scopes that lived before live on inside the same scopes
and with the same bindings; only statements that are evaluated in the current scope
itself bind names there, and only the names of their own bindings. A statement that
fails or returns has bound nothing where it stands, so that statements that are stopped
leave what those before the last one have bound.
-/

namespace Treewalk

/-- The scopes of a store are in their places in another, inside the same scopes and with
the same bindings, but for the given names in the current scope. -/
def Arena.KeptBut (names : List String) (current : ScopeId) (a b : Arena) : Prop :=
  ∀ id scope, a.get? id = some scope → ∃ later, b.get? id = some later ∧
    later.outer = scope.outer ∧
    (id ≠ current ∨ names = [] → later.bindings = scope.bindings) ∧
    ∀ name, name ∉ names → later.bindings.get? name = scope.bindings.get? name

namespace Arena.KeptBut

variable {names inner : List String} {current : ScopeId} {a b c : Arena}

theorem refl (names : List String) (current : ScopeId) (a : Arena) :
    a.KeptBut names current a :=
  fun _ scope hs => ⟨scope, hs, rfl, fun _ => rfl, fun _ _ => rfl⟩

theorem trans (h : a.KeptBut names current b) (k : b.KeptBut names current c) :
    a.KeptBut names current c := by
  intro id scope hs
  obtain ⟨s, hs, houter, hsame, hothers⟩ := h id scope hs
  obtain ⟨t, ht, houter', hsame', hothers'⟩ := k id s hs
  exact ⟨t, ht, houter'.trans houter, fun he => (hsame' he).trans (hsame he),
    fun name hn => (hothers' name hn).trans (hothers name hn)⟩

theorem of_pinsMore (names : List String) (current : ScopeId) (h : a.PinsMore b) :
    a.KeptBut names current b := by
  intro id scope hs
  obtain ⟨p, hp⟩ := h id
  exact ⟨raisePin p scope, by rw [hp, hs]; rfl, rfl, fun _ => rfl, fun _ _ => rfl⟩

theorem define {name : String} (hname : name ∈ names) (value : Value) :
    a.KeptBut names current (a.define current name value) := by
  intro id scope hs
  by_cases hid : id = current
  · subst hid
    refine ⟨{ scope with bindings := scope.bindings.put name value }, ?_, rfl, ?_,
      fun other hother => ?_⟩
    · rw [get?_define, if_pos rfl, hs]
      rfl
    · rintro (hne | rfl)
      · exact absurd rfl hne
      · cases hname
    · have hne : other ≠ name := fun e => hother (by rw [e]; exact hname)
      exact Entries.get?_put_of_ne hne value scope.bindings
  · exact ⟨scope, by rw [get?_define, if_neg hid, hs], rfl, fun _ => rfl, fun _ _ => rfl⟩

/-- What is bound in a new scope is bound in no other. -/
theorem enter_leave (ha : a.Consistent) {outer : Option ScopeId}
    (h : (a.alloc outer).2.KeptBut inner (a.alloc outer).1 b) :
    a.KeptBut names current (b.release (a.alloc outer).1) := by
  intro id scope hs
  have hne : id ≠ (a.alloc outer).1 := by
    rintro rfl
    rw [get?_alloc_self_before ha] at hs
    cases hs
  obtain ⟨later, hlater, houter, hsame, -⟩ := h id scope (by rw [get?_alloc ha, if_neg hne, hs])
  have hbindings := hsame (.inl hne)
  exact ⟨later, by rw [get?_release, if_neg fun e => hne e.1, hlater], houter,
    fun _ => hbindings, fun _ _ => by rw [hbindings]⟩

end Arena.KeptBut

/-- An evaluation keeps all bindings but those of the given names in its own scope. -/
structure Framed (names : List String) (m : Machine) (changes : List Environment.Change)
    (after : Machine) : Prop where
  conduct : Conduct m changes after
  kept : m.environment.arena.Consistent →
    m.environment.arena.KeptBut names m.environment.current after.environment.arena

namespace Framed

variable {names inner : List String} {m m' m'' after : Machine}
  {changes more : List Environment.Change}

theorem trans (h : Framed names m changes m') (k : Framed names m' more m'') :
    Framed names m (changes ++ more) m'' := by
  refine ⟨h.conduct.trans k.conduct, fun hc => (h.kept hc).trans ?_⟩
  rw [← h.conduct.current_eq]
  exact k.kept (h.conduct.outlived hc).1

theorem within {c : Environment.Change} {outer : ScopeId} (henters : m.Enters c outer)
    (h : Framed inner (Eval.enter outer m).2 changes after) :
    Framed names m (c :: (changes ++ [.leave]))
      (Eval.leave .prompt m.environment.current after) := by
  refine ⟨.within henters h.conduct, fun hc => ?_⟩
  have hcurrent : after.environment.current =
      (m.environment.arena.alloc (some outer)).1 := h.conduct.current_eq
  show m.environment.arena.KeptBut names m.environment.current
    (after.environment.arena.release after.environment.current)
  rw [hcurrent]
  exact .enter_leave hc (h.kept (Arena.consistent_alloc hc (some outer)))

theorem call {limit : Option Nat} {environment : Environment}
    (hlimit : m.environment.enterCall limit = .ok environment)
    (h : Framed names { m with environment } changes after) :
    Framed names m (.enterCall limit :: (changes ++ [.exitCall]))
      (after.changeEnvironment Environment.exitCall) := by
  refine ⟨.call hlimit h.conduct, ?_⟩
  have hkept := h.kept
  rw [Environment.eq_of_enterCall hlimit] at hkept
  exact hkept

end Framed

def framing : Account where
  Says names m events := Framed names m (Event.changes events)
  rest _ m := ⟨.rest m, fun _ => .refl _ _ _⟩
  trans h k := by
    rw [Event.changes_append]
    exact h.trans k
  look names m := ⟨conducting.look names m, fun _ => .refl _ _ m.environment.arena⟩
  print names m text := ⟨conducting.print names m text, fun _ => .refl _ _ m.environment.arena⟩
  define m value hname := ⟨.define m _ value, fun _ => .define hname value⟩
  capture _ m := ⟨.capture m, fun _ => .of_pinsMore _ _ (Arena.pinsMore_pin _ _)⟩
  within henters h := by
    rw [Event.changes_around]
    exact h.within henters
  call hlimit h := by
    rw [Event.changes_around]
    exact h.call hlimit
  ofNode _ _ h := by
    rw [Event.changes_ofNode]
    exact h

section Stopping

variable {ctx : Context} {allowance : Nat} {m after : Machine} {e : EvalError}

theorem Task.keptBut {task : Task} {r : Except EvalError Value}
    (h : task.evalUnder ctx allowance m = some (r, after))
    (hc : m.environment.arena.Consistent) :
    m.environment.arena.KeptBut task.boundNames m.environment.current
      after.environment.arena :=
  (framing.covers_evalUnder ctx allowance task m r after h).kept hc

/-- A statement that fails or returns ends with its expression. -/
theorem Task.expr_of_stmt_error {s : Stmt}
    (h : (Task.stmt s).evalUnder ctx allowance m = some (.error e, after)) :
    ∃ r, (Task.expr s.value).evalUnder ctx allowance m = some (r, after) := by
  cases s with
  | bind token target value =>
      obtain herror | ⟨v, t, -, hdefined⟩ := Run.bind_eq_error_iff.1 h
      · exact ⟨_, herror⟩
      · cases hdefined
  | ret token value =>
      obtain herror | ⟨v, t, hvalue, hreturned⟩ := Run.bind_eq_error_iff.1 h
      · exact ⟨_, herror⟩
      · cases hreturned
        exact ⟨_, hvalue⟩
  | expr token value => exact ⟨_, h⟩

variable {call : Value → List Value → Eval Value}

theorem evalStmts_append {policy : Reclamation} (ss ts : List Stmt) (start : Value) :
    evalStmts policy call (ss ++ ts) start =
      evalStmts policy call ss start >>= evalStmts policy call ts := by
  induction ss generalizing start with
  | nil => rfl
  | cons s ss ih => simp only [List.cons_append, evalStmts, ih, Eval.unlessInterrupted, bind_assoc]

theorem evalStmts_error_append {ss : List Stmt} {start : Value}
    (h : evalStmts .prompt call ss start m = some (.error e, after)) (ts : List Stmt) :
    evalStmts .prompt call (ss ++ ts) start m = some (.error e, after) := by
  rw [evalStmts_append]
  exact Run.bind_eq_error_iff.2 (.inl h)

/-- Statements that are stopped are stopped at one of them. -/
theorem exists_stopped {ss : List Stmt} {start : Value}
    (h : evalStmts .prompt call ss start m = some (.error e, after)) :
    ∃ done s rest v before, ss = done ++ s :: rest ∧
      evalStmts .prompt call done start m = some (.ok v, before) ∧
      evalStmts .prompt call (done ++ [s]) start m = some (.error e, after) := by
  induction ss using List.reverseRecOn with
  | nil => cases h
  | append_singleton ss s ih =>
      have hsplit := h
      rw [evalStmts_append] at hsplit
      obtain herror | ⟨v, before, hdone, -⟩ := Run.bind_eq_error_iff.1 hsplit
      · obtain ⟨done, s', rest, v, before, rfl, hdone, hstopped⟩ := ih herror
        exact ⟨done, s', rest ++ [s], v, before, by simp, hdone, hstopped⟩
      · exact ⟨ss, s, [], v, before, rfl, hdone, h⟩

theorem stmt_error_of_stopped {done : List Stmt} {s : Stmt} {start v : Value} {before : Machine}
    (hdone : evalStmts .prompt call done start m = some (.ok v, before))
    (hstopped : evalStmts .prompt call (done ++ [s]) start m = some (.error e, after)) :
    evalStmts .prompt call [s] v before = some (.error e, after) := by
  rw [evalStmts_append, Run.bind_apply, hdone] at hstopped
  exact hstopped

/-- The statement at which others are stopped has bound nothing. -/
theorem keptBut_of_stopped {s : Stmt} {v : Value} {before : Machine}
    (hc : before.environment.arena.Consistent)
    (h : evalStmts .prompt (callValue .prompt ctx allowance) [s] v before =
      some (.error e, after)) :
    before.environment.arena.KeptBut [] before.environment.current after.environment.arena := by
  rw [evalStmts, Eval.unlessInterrupted] at h
  rcases Eval.poll_cases before with hpoll | hpoll <;> rw [Run.bind_apply, hpoll] at h
  · obtain herror | ⟨v', t, -, hnothing⟩ := Run.bind_eq_error_iff.1 h
    · obtain ⟨r, hr⟩ := Task.expr_of_stmt_error herror
      exact Task.keptBut hr hc
    · cases hnothing
  · cases h
    exact .refl _ _ before.environment.arena

end Stopping

namespace Guarded

/-- In every state, evaluations keep the scopes that live and their bindings, but for the
names that statements bind in the current scope. Statements that fail or return, or are
asked to stop, are stopped at one of them, whatever follows it, and leave each scope that
lived with the bindings that it had after the statements before. Generations may be counted
in a word of any size. -/
theorem evaluation_keeps_bindings (span : Nat) (g : Guarded) (hg : Reached span g)
    (ctx : Context) (allowance : Nat) (printed : String) (functions : Nat) (flag : Flag) :
    let m : Machine := ⟨g.environment, printed, functions, flag⟩
    (∀ (task : Task) r after, task.evalUnder ctx allowance m = some (r, after) →
      g.arena.KeptBut task.boundNames g.current after.environment.arena) ∧
    (∀ ss e after, (Task.stmts ss).evalUnder ctx allowance m = some (.error e, after) →
      ∃ done s rest v before, ss = done ++ s :: rest ∧
        (Task.stmts done).evalUnder ctx allowance m = some (.ok v, before) ∧
        (Task.stmts (done ++ [s])).evalUnder ctx allowance m = some (.error e, after)) ∧
    ∀ done s v before e after,
      (Task.stmts done).evalUnder ctx allowance m = some (.ok v, before) →
      (Task.stmts (done ++ [s])).evalUnder ctx allowance m = some (.error e, after) →
        (∀ rest, (Task.stmts (done ++ s :: rest)).evalUnder ctx allowance m =
          some (.error e, after)) ∧
        ∀ id, g.arena.contains id = true → ∃ scope later,
          before.environment.arena.get? id = some scope ∧
          after.environment.arena.get? id = some later ∧
          later.outer = scope.outer ∧ later.bindings = scope.bindings := by
  have hc : g.arena.Consistent := hg.founded.consistent
  refine ⟨fun task r after h => Task.keptBut h hc, fun ss e after h => exists_stopped h,
    fun done s v before e after hdone hstopped => ⟨fun rest => ?_, fun id hid => ?_⟩⟩
  · rw [List.append_cons]
    exact evalStmts_error_append hstopped rest
  · obtain ⟨first, hfirst⟩ := Arena.contains_iff.1 hid
    obtain ⟨scope, hs, -⟩ := Task.keptBut hdone hc id first hfirst
    obtain ⟨hc', -⟩ := (Task.conduct hdone).outlived hc
    obtain ⟨later, hlater, houter, hsame, -⟩ :=
      keptBut_of_stopped hc' (stmt_error_of_stopped hdone hstopped) id scope hs
    exact ⟨scope, later, hs, hlater, houter, hsame (.inr rfl)⟩

/-- A name is bound at the root, and then the flag is raised: the next binding is not begun. -/
theorem evaluation_keeps_bindings_stopped :
    let binding (name : String) :=
      Stmt.bind ⟨.letWord, "let"⟩ ⟨.ident, name⟩ (.boolean ⟨.trueWord, "true"⟩ true)
    let m : Machine := .fresh ⟨fun look => look == 2, 0⟩
    ∃ v before after,
      (Task.stmts [binding "x"]).evalUnder {} 0 m = some (.ok v, before) ∧
      (Task.stmts [binding "x", binding "y", binding "z"]).evalUnder {} 0 m =
        some (.error .interrupted, after) ∧
      initial.arena.KeptBut ["x"] initial.current before.environment.arena ∧
      ∃ scope later, before.environment.arena.get? initial.current = some scope ∧
        after.environment.arena.get? initial.current = some later ∧
        later.bindings = scope.bindings := by
  intro binding m
  obtain ⟨hkept, -, hstopped⟩ := evaluation_keeps_bindings 0 initial .start {} 0 "" 0 m.flag
  have hdone : (Task.stmts [binding "x"]).evalUnder {} 0 m = some _ := rfl
  have herror : (Task.stmts ([binding "x"] ++ [binding "y"])).evalUnder {} 0 m =
    some (.error .interrupted, _) := rfl
  obtain ⟨hrest, hlast⟩ := hstopped [binding "x"] (binding "y") _ _ _ _ hdone herror
  obtain ⟨scope, later, hs, hlater, -, hsame⟩ := hlast initial.current (by decide)
  exact ⟨_, _, _, hdone, hrest [binding "z"], hkept _ _ _ hdone, scope, later, hs, hlater, hsame⟩

end Guarded
end Treewalk
