import Treewalk.Proofs.Evaluation.Account

/-!
Errors are final. Once the evaluation of a node has ended in an error that is no return,
whatever the node is in ends in the same error, and nothing else happens on the way out
than that scopes and calls are left.
-/

namespace Treewalk

open Environment (Change)

namespace Event

/-- The evaluation of a node fails: it ends in an error that is no return. -/
inductive Fails (e : EvalError) : Event → Prop where
  | ended (node : Task) (after : Machine) (h : e.isReturn = false) :
      Fails e (.ended node (.error e) after)

/-- A step on the way out with an error. -/
inductive Unwinds (e : EvalError) : Event → Prop where
  | ended (node : Task) (after : Machine) : Unwinds e (.ended node (.error e) after)
  | left : Unwinds e (.changed .leave)
  | exited : Unwinds e (.changed .exitCall)

theorem not_fails_began (node : Task) (e : EvalError) : ¬ Fails e (.began node) :=
  fun h => by cases h

theorem not_fails_changed (c : Change) (e : EvalError) : ¬ Fails e (.changed c) :=
  fun h => by cases h

end Event

/-- The error in which a node has failed is the outcome, and only the way out follows. -/
structure Surrenders {α : Type} (events : List Event)
    (outcome : Option (Except EvalError α × Machine)) : Prop where
  result : ∀ event ∈ events, ∀ e, event.Fails e → ∃ after, outcome = some (.error e, after)
  final : events.Pairwise fun event later => ∀ e, event.Fails e → later.Unwinds e

namespace Surrenders

variable {α β : Type} {events later : List Event} {outcome : Option (Except EvalError α × Machine)}
  {outcome' : Option (Except EvalError β × Machine)}

theorem nil (outcome : Option (Except EvalError α × Machine)) : Surrenders [] outcome :=
  ⟨fun _ h => absurd h List.not_mem_nil, .nil⟩

theorem one {event : Event} (h : ∀ e, ¬ event.Fails e)
    (outcome : Option (Except EvalError α × Machine)) : Surrenders [event] outcome := by
  refine ⟨fun x hx e hfails => ?_, List.pairwise_singleton ..⟩
  rw [List.mem_singleton.1 hx] at hfails
  exact (h e hfails).elim

theorem cons {first : Event} (hfirst : ∀ e, ¬ first.Fails e) (h : Surrenders events outcome) :
    Surrenders (first :: events) outcome := by
  refine ⟨fun event hmem e hfails => ?_,
    List.pairwise_cons.2 ⟨fun _ _ e hfails => (hfirst e hfails).elim, h.final⟩⟩
  rcases List.mem_cons.1 hmem with rfl | hmem
  · exact (hfirst e hfails).elim
  · exact h.result event hmem e hfails

/-- Another outcome that keeps the error may be taken for the outcome. -/
theorem imp (h : Surrenders events outcome)
    (hkept : ∀ e after, e.isReturn = false → outcome = some (.error e, after) →
      ∃ after', outcome' = some (.error e, after')) : Surrenders events outcome' := by
  refine ⟨fun event hmem e hfails => ?_, h.final⟩
  obtain ⟨after, hm⟩ := h.result event hmem e hfails
  obtain ⟨-, -, he⟩ := hfails
  exact hkept e after he hm

/-- After an outcome that is an error only the way out follows. -/
theorem append (h : Surrenders events outcome) (hlater : Surrenders later outcome')
    (hkept : ∀ e after, outcome = some (.error e, after) →
      (∃ after', outcome' = some (.error e, after')) ∧ ∀ x ∈ later, x.Unwinds e) :
    Surrenders (events ++ later) outcome' := by
  refine ⟨fun event hmem e hfails => ?_,
    List.pairwise_append.2 ⟨h.final, hlater.final, fun event hmem x hx e hfails => ?_⟩⟩
  · rcases List.mem_append.1 hmem with hmem | hmem
    · obtain ⟨after, hm⟩ := h.result event hmem e hfails
      exact (hkept e after hm).1
    · exact hlater.result event hmem e hfails
  · obtain ⟨after, hm⟩ := h.result event hmem e hfails
    exact (hkept e after hm).2 x hx

theorem andThen {run : Eval α} {journal : Journal} {next : α → Eval β}
    {journalNext : α → Journal} {m : Machine} (h : Surrenders (journal m) (run m))
    (hnext : ∀ a t, Surrenders (journalNext a t) (next a t)) :
    Surrenders (Journal.andThen run journal journalNext m) ((run >>= next) m) := by
  rw [Journal.andThen, Run.bind_apply]
  refine h.append ?_ fun e after hm => ?_
  · obtain hm | ⟨a, t, hm⟩ | ⟨e, t, hm⟩ := Run.ended (run m) <;> rw [hm]
    · exact .nil _
    · exact hnext a t
    · exact .nil _
  · rw [hm]
    exact ⟨⟨after, rfl⟩, fun _ hx => absurd hx List.not_mem_nil⟩

/-- A change that is made when a run has ended is a step on the way out. -/
theorem ending (h : Surrenders events outcome) (c d : Change)
    (hd : ∀ e, Event.Unwinds e (.changed d)) :
    Surrenders (.changed c :: (events ++ Journal.ending d outcome)) outcome := by
  refine .cons (Event.not_fails_changed c) (h.append ?_ fun e after hm => ?_)
  · cases outcome with
    | none => exact .nil _
    | some ended => exact .one (Event.not_fails_changed d) _
  · rw [hm]
    exact ⟨⟨after, rfl⟩, fun x hx => List.mem_singleton.1 hx ▸ hd e⟩

/-- A node fails with the error in which it ends. -/
theorem ofNode {outcome : Option (Except EvalError Value × Machine)}
    (h : Surrenders events outcome) (node : Task) :
    Surrenders (.began node :: (events ++ Journal.ends node outcome)) outcome := by
  refine .cons (Event.not_fails_began node) (h.append ?_ fun e after hm => ?_)
  · obtain rfl | ⟨v, t, rfl⟩ | ⟨e, t, rfl⟩ := Run.ended outcome
    · exact .nil _
    · exact .one (fun _ hfails => by cases hfails) _
    · refine ⟨fun event hmem e' hfails => ?_, List.pairwise_singleton ..⟩
      cases List.mem_singleton.1 hmem
      cases hfails
      exact ⟨t, rfl⟩
  · rw [hm]
    exact ⟨⟨after, rfl⟩, fun x hx => List.mem_singleton.1 hx ▸ .ended node after⟩

theorem within {run : Eval α} {journal : Journal} (h : ∀ m, Surrenders (journal m) (run m))
    (c : Change) (outer : ScopeId) (m : Machine) :
    Surrenders (Journal.within c outer run journal m) (Eval.within .prompt outer run m) := by
  rw [Eval.within_apply]
  refine ((h _).ending c .leave fun _ => .left).imp fun e after _ hm => ?_
  rw [hm]
  exact ⟨_, rfl⟩

theorem inScope {run : Eval α} {journal : Journal} (h : ∀ m, Surrenders (journal m) (run m))
    (outer : ScopeId) (m : Machine) :
    Surrenders (Journal.inScope outer run journal m) (Eval.inScope .prompt outer run m) := by
  rw [Eval.inScope, Journal.inScope]
  split
  · exact within h _ outer m
  · exact .nil _

theorem endReturn {run : Eval Value} {m : Machine} (h : Surrenders events (run m)) :
    Surrenders events (Eval.endReturn run m) := by
  refine h.imp fun e after he hm => ?_
  rw [Eval.endReturn_apply, hm, Option.map_some, Eval.returned_error he]
  exact ⟨after, rfl⟩

theorem inCall {run : Eval Value} {journal : Journal} (h : ∀ m, Surrenders (journal m) (run m))
    (limit : Option Nat) (m : Machine) :
    Surrenders (Journal.inCall limit run journal m) (Eval.inCall limit run m) := by
  rw [Journal.inCall]
  cases hlimit : m.environment.enterCall limit with
  | error e => exact .nil _
  | ok environment =>
      rw [Eval.inCall_apply hlimit]
      refine ((h _).ending _ .exitCall fun _ => .exited).imp fun e after he hm => ?_
      rw [hm, Option.map_some, Eval.returned_error he]
      exact ⟨_, rfl⟩

end Surrenders

/-- The journal of every evaluation surrenders to the first failure. -/
def surrendering (ctx : Context) : Chronicle ctx where
  Fits _ run journal := ∀ m, Surrenders (journal m) (run m)
  still _ _ := .nil _
  poll _ _ := .nil _
  print _ _ _ _ := .one (fun _ hfails => by cases hfails) _
  define _ _ _ := .one (Event.not_fails_changed _) _
  capture _ _ _ _ := .one (Event.not_fails_changed _) _
  andThen h hnext m := (h m).andThen hnext
  inBlock h m := .within h .enterBlock _ m
  inScope outer h m := .inScope h outer m
  inCall h m := .inCall h _ m
  endReturn h m := (h m).endReturn
  ofNode _ node h m := (h m).ofNode node

/-- If any node that is evaluated when a program is run fails, in the program or in a
function that is called, then the program ends in the error of that node; what follows in
the journal is the way out, so no node is begun, nothing bound and nothing printed; and no
node has failed in another error before. -/
theorem Program.failure_is_final (ctx : Context) (allowance : Nat) (p : Program) (m : Machine) :
    (∀ r after, p.evalUnder .prompt ctx allowance m = some (r, after) →
      Accounts m ((Task.program p).journal ctx allowance m) after) ∧
    ∀ before node e t later,
      (Task.program p).journal ctx allowance m = before ++ .ended node (.error e) t :: later →
      e.isReturn = false →
      (∃ after, p.evalUnder .prompt ctx allowance m = some (.error e, after)) ∧
        (∀ event ∈ later, event.Unwinds e) ∧
        ∀ node' e' t', .ended node' (.error e') t' ∈ before → e'.isReturn = false → e' = e := by
  refine ⟨fun r after h => ?_, fun before node e t later hjournal he => ?_⟩
  · have hrun : (Task.program p).evalUnder ctx allowance m = some (r, after) := h
    exact Task.accounts hrun
  obtain ⟨hresult, hfinal⟩ := (surrendering ctx).fits_evalUnder allowance (.program p) m
  rw [hjournal] at hresult hfinal
  obtain ⟨-, hlater, hcross⟩ := List.pairwise_append.1 hfinal
  have hfails : Event.Fails e (.ended node (.error e) t) := .ended node t he
  refine ⟨hresult _ (List.mem_append_right _ List.mem_cons_self) e hfails,
    fun event hevent => (List.pairwise_cons.1 hlater).1 event hevent e hfails,
    fun node' e' t' hbefore he' => ?_⟩
  have hunwinds : Event.Unwinds e' (.ended node (.error e) t) :=
    hcross _ hbefore _ List.mem_cons_self e' (.ended node' t' he')
  cases hunwinds
  rfl

/-- A function is called that negates a boolean, before a name would be bound. -/
theorem Program.failure_is_final_call :
    let negation :=
      Expr.prefixed ⟨.minus, "-"⟩ .negate (.boolean ⟨.trueWord, "true"⟩ true)
    let body : Block := ⟨⟨.lbrace, "\x7b"⟩, [.expr ⟨.minus, "-"⟩ negation]⟩
    let p : Program := ⟨[.bind ⟨.letWord, "let"⟩ ⟨.ident, "x"⟩
      (.call ⟨.lparen, "("⟩ (.function ⟨.functionWord, "fn"⟩ [] body) [])]⟩
    let e := EvalError.unknownPrefixOp .negate .boolean
    ∃ before t later,
      (Task.program p).journal {} 1 .initial =
        before ++ .ended (.expr negation) (.error e) t :: later ∧ e.isReturn = false ∧
      (∃ after, p.evalUnder .prompt {} 1 .initial = some (.error e, after)) ∧
      ∀ event ∈ later, event.Unwinds e := by
  intro negation body p e
  obtain ⟨t, hmem⟩ : ∃ t, Event.ended (.expr negation) (.error e) t ∈
      (Task.program p).journal {} 1 .initial := by
    simp only [negation, body, p, e]
    exact ⟨_, List.mem_of_getElem? (i := 13) rfl⟩
  obtain ⟨before, later, hjournal⟩ := List.append_of_mem hmem
  obtain ⟨hresult, hlater, -⟩ :=
    (failure_is_final {} 1 p .initial).2 before _ e t later hjournal rfl
  exact ⟨before, t, later, hjournal, rfl, hresult, hlater⟩

end Treewalk
