import Treewalk.Proofs.Evaluation.Allowance
import Treewalk.Proofs.Evaluation.Conduct

/-!
Returns stay inside. Neither a program nor a call ends in a return on its way. A node that
does has executed one of its own return statements, outside the function literals in it
and at its own depth of calls, and the value on its way is the value of that statement.
-/

namespace Treewalk

open Environment (Change)

mutual

/-- The return statements of an expression that are not inside function literals. -/
def Expr.returns : Expr → List Stmt
  | .name _ | .integer _ _ | .boolean _ _ | .string _ | .function _ _ _ => []
  | .prefixed _ _ e => e.returns
  | .binary _ _ l r | .index _ l r => l.returns ++ r.returns
  | .conditional _ c b none => c.returns ++ b.returns
  | .conditional _ c b (some alternative) => c.returns ++ (b.returns ++ alternative.returns)
  | .call _ f args => f.returns ++ Expr.returnsOfAll args
  | .array _ es => Expr.returnsOfAll es
  | .hash _ ps => Expr.returnsOfPairs ps
termination_by structural e => e

def Expr.returnsOfAll : List Expr → List Stmt
  | [] => []
  | e :: es => e.returns ++ Expr.returnsOfAll es
termination_by structural es => es

def Expr.returnsOfPairs : List (Expr × Expr) → List Stmt
  | [] => []
  | (k, e) :: ps => k.returns ++ (e.returns ++ Expr.returnsOfPairs ps)
termination_by structural ps => ps

/-- The return statements in a statement, outside function literals. -/
def Stmt.returns : Stmt → List Stmt
  | .bind _ _ e | .expr _ e => e.returns
  | .ret t e => .ret t e :: e.returns
termination_by structural s => s

def Stmt.returnsOfAll : List Stmt → List Stmt
  | [] => []
  | s :: ss => s.returns ++ Stmt.returnsOfAll ss
termination_by structural ss => ss

def Block.returns : Block → List Stmt
  | ⟨_, ss⟩ => Stmt.returnsOfAll ss
termination_by structural b => b

end

/-- The return statements that may end the evaluation by their own; a program and a call
end the return themselves. -/
def Task.returns : Task → List Stmt
  | expr e => e.returns
  | stmt s => s.returns
  | stmts ss => Stmt.returnsOfAll ss
  | block b => b.returns
  | program _ | call _ _ => []

namespace Eval

variable {α β : Type}

/-- A run that never ends in a return on its way. -/
def Silent (run : Eval α) : Prop :=
  ∀ m v after, run m ≠ some (.error (.returning v), after)

theorem silent_pure (a : α) : Silent (pure a : Eval α) :=
  fun _ _ _ => nofun

theorem silent_fail {e : EvalError} (h : e.isReturn = false) : Silent (Run.fail e : Eval α) := by
  intro m v after hrun
  cases hrun
  cases h

theorem silent_ofExcept {r : Except EvalError Value} (h : AlikeResults Eq r r) :
    Silent (Run.ofExcept r : Eval Value) := by
  intro m v after hrun
  cases hrun
  cases h with
  | error fault => cases fault

theorem silent_exhausted : Silent (Run.exhausted : Eval α) :=
  fun _ _ _ => nofun

theorem silent_poll : Silent poll := by
  intro m v after hrun
  rcases poll_cases m with h | h <;> cases h.symm.trans hrun

theorem silent_define (name : String) (value : Value) : Silent (define name value) :=
  fun _ _ _ => nofun

theorem silent_makeFunction (parameters : List String) (body : Block) :
    Silent (makeFunction parameters body) :=
  fun _ _ _ => nofun

theorem silent_resolve (name : String) : Silent (resolve name) := by
  intro m v after hrun
  simp only [resolve, Environment.resolve] at hrun
  split at hrun
  · rename_i e he
    split at he <;> cases he
    cases hrun
  · cases hrun
  · split at hrun <;> cases hrun

theorem silent_callBuiltin (b : Builtin) (args : List Value) : Silent (callBuiltin b args) := by
  intro m v after hrun
  have hargs : AlikeItems Eq args args := .refl_of_holds args fun _ _ _ _ => rfl
  obtain ⟨hresult, -⟩ := Prod.mk.inj (Option.some.inj hrun)
  have hfault := b.apply_alike hargs
  rw [hresult] at hfault
  cases hfault with
  | error fault => cases fault

theorem Silent.bind {run : Eval α} {next : α → Eval β} (h : Silent run)
    (hnext : ∀ a, Silent (next a)) : Silent (run >>= next) := by
  intro m v after hrun
  rcases Run.bind_eq_error_iff.1 hrun with hm | ⟨a, t, -, ht⟩
  · exact h m v after hm
  · exact hnext a t v after ht

theorem silent_enterCall (limit : Option Nat) : Silent (enterCall limit) := by
  intro m v after hrun
  rw [enterCall] at hrun
  split at hrun
  · cases hrun
  · rename_i e he
    cases hrun
    unfold Environment.enterCall at he
    split at he
    · cases he
    · split at he <;> cases he

theorem silent_endReturn (run : Eval Value) : Silent (endReturn run) :=
  fun _ _ _ hrun => endReturn_ne_returning hrun

/-- A call that has begun or not, and whatever its function does. -/
theorem silent_callValue (ctx : Context) (allowance : Nat) (callee : Value) (args : List Value) :
    Silent (callValue .prompt ctx allowance callee args) := by
  cases callee with
  | function f =>
      cases allowance <;> rw [callValue] <;> split
      · exact (silent_enterCall _).bind fun _ => silent_exhausted
      · exact silent_fail rfl
      · exact (silent_enterCall _).bind fun _ => silent_endReturn _
      · exact silent_fail rfl
  | builtin b => cases allowance <;> exact silent_callBuiltin b args
  | integer | boolean | string | null | array | hash | error =>
      cases allowance <;> exact silent_fail rfl

end Eval

/-- A step on the way out of nodes and blocks, with an error, that leaves no call. -/
inductive Event.Leaves (e : EvalError) : Event → Prop where
  | ended (node : Task) (after : Machine) : Leaves e (.ended node (.error e) after)
  | left : Leaves e (.changed .leave)

/-- One of the return statements is executed, at a depth of calls, and what follows is the
way out with the value of the statement. -/
def ReturnsFrom (sources : List Stmt) (depth : Nat) (v : Value) (events : List Event) : Prop :=
  ∃ token e before t later, .ret token e ∈ sources ∧ t.environment.callDepth = depth ∧
    events = before ++ .ended (.expr e) (.ok v) t ::
      .ended (.stmt (.ret token e)) (.error (.returning v)) t :: later ∧
    ∀ event ∈ later, event.Leaves (.returning v)

namespace ReturnsFrom

variable {sources sources' : List Stmt} {depth : Nat} {v : Value} {events : List Event}

theorem mono (h : ReturnsFrom sources depth v events) (hsub : sources ⊆ sources') :
    ReturnsFrom sources' depth v events := by
  obtain ⟨token, e, before, t, later, hmem, hrest⟩ := h
  exact ⟨token, e, before, t, later, hsub hmem, hrest⟩

theorem after (h : ReturnsFrom sources depth v events) (earlier : List Event) :
    ReturnsFrom sources depth v (earlier ++ events) := by
  obtain ⟨token, e, before, t, later, hmem, hdepth, rfl, hlater⟩ := h
  exact ⟨token, e, earlier ++ before, t, later, hmem, hdepth,
    (List.append_assoc ..).symm, hlater⟩

theorem leave (h : ReturnsFrom sources depth v events) {event : Event}
    (hleaves : event.Leaves (.returning v)) :
    ReturnsFrom sources depth v (events ++ [event]) := by
  obtain ⟨token, e, before, t, later, hmem, hdepth, rfl, hlater⟩ := h
  refine ⟨token, e, before, t, later ++ [event], hmem, hdepth, ?_, fun x hx => ?_⟩
  · rw [List.append_assoc, List.cons_append, List.cons_append]
  · rcases List.mem_append.1 hx with hx | hx
    · exact hlater x hx
    · rw [List.mem_singleton.1 hx]
      exact hleaves

end ReturnsFrom

/-- Wherever the run ends in a return on its way, one of the return statements has been
executed by the run itself. -/
def Journal.Returns {α : Type} (sources : List Stmt) (run : Eval α) (journal : Journal) : Prop :=
  ∀ m v after, run m = some (.error (.returning v), after) →
    ReturnsFrom sources m.environment.callDepth v (journal m)

namespace Journal.Returns

variable {α β : Type} {sources sources' : List Stmt} {run : Eval α} {journal : Journal}
  {next : α → Eval β} {journalNext : α → Journal} {ctx : Context} {allowance : Nat}

theorem of_silent (h : run.Silent) : Returns sources run journal :=
  fun m v after hrun => (h m v after hrun).elim

theorem mono (h : Returns sources run journal) (hsub : sources ⊆ sources') :
    Returns sources' run journal :=
  fun m v after hrun => (h m v after hrun).mono hsub

/-- The first part returns, or the second does at the same depth of calls. -/
theorem andThen (h : Returns sources run journal)
    (hdepth : ∀ m a t, run m = some (.ok a, t) →
      t.environment.callDepth = m.environment.callDepth)
    (hnext : ∀ a, Returns sources (next a) (journalNext a)) :
    Returns sources (run >>= next) (.andThen run journal journalNext) := by
  intro m v after hrun
  rw [Journal.andThen]
  rcases Run.bind_eq_error_iff.1 hrun with hm | ⟨a, t, hm, ht⟩ <;> rw [hm]
  · rw [List.append_nil]
    exact h m v after hm
  · rw [← hdepth m a t hm]
    exact (hnext a t v after ht).after _

theorem unlessInterrupted (h : Returns sources run journal) :
    Returns sources (Eval.unlessInterrupted run) (.unlessInterrupted journal) := by
  refine (of_silent Eval.silent_poll).andThen (fun m a t hm => ?_) fun _ => h
  rcases Eval.poll_cases m with hpoll | hpoll <;> cases hpoll.symm.trans hm
  rfl

/-- Only the first part returns. -/
theorem thenSilent (h : Returns sources run journal) (hnext : ∀ a, (next a).Silent) :
    Returns sources (run >>= next) (.andThen run journal journalNext) := by
  intro m v after hrun
  rw [Journal.andThen]
  rcases Run.bind_eq_error_iff.1 hrun with hm | ⟨a, t, -, ht⟩
  · rw [hm, List.append_nil]
    exact h m v after hm
  · exact (hnext a t v after ht).elim

theorem thenStill (h : Returns sources run journal) (hnext : ∀ a, (next a).Silent) :
    Returns sources (run >>= next) journal := by
  rw [← Journal.andThen_still run journal]
  exact h.thenSilent hnext

theorem inBlock (h : Returns sources run journal) :
    Returns sources (Eval.inBlock .prompt run) (.inBlock run journal) := by
  intro m v after hrun
  rw [Eval.inBlock, Eval.within_apply] at hrun
  obtain ⟨⟨r, ended⟩, hm, heq⟩ := Option.map_eq_some_iff.1 hrun
  cases heq
  rw [Journal.inBlock, Journal.within, hm]
  exact ((h _ v ended hm).leave .left).after [_]

theorem ofNode {node : Task} (h : Returns sources (node.evalUnder ctx allowance) journal) :
    Returns sources (node.evalUnder ctx allowance) (.ofNode ctx allowance node journal) := by
  intro m v after hrun
  rw [Journal.ofNode, hrun]
  exact ((h m v after hrun).leave (.ended node after)).after [_]

/-- A return statement is executed, or its expression returns before. -/
theorem ret {token : Token} {e : Expr}
    (hnode : ∃ inner, journal = .ofNode ctx allowance (.expr e) inner)
    (h : Returns e.returns ((Task.expr e).evalUnder ctx allowance) journal) :
    Returns (Stmt.ret token e).returns ((Task.stmt (.ret token e)).evalUnder ctx allowance)
      (.ofNode ctx allowance (.stmt (.ret token e)) journal) := by
  intro m v after hrun
  obtain ⟨inner, hnode⟩ := hnode
  rw [Journal.ofNode, hrun]
  rcases Run.bind_eq_error_iff.1 hrun with hm | ⟨a, t, hm, ht⟩
  · exact (((h m v after hm).mono (List.subset_cons_self _ _)).leave (.ended _ after)).after [_]
  · cases ht
    have hexpr : (Task.expr e).evalUnder ctx allowance m = some (.ok v, after) := hm
    refine ⟨token, e, .began (.stmt (.ret token e)) :: .began (.expr e) :: inner m, after, [],
      List.mem_cons_self, (Task.conduct hexpr).callDepth_eq, ?_, fun _ hx => by cases hx⟩
    rw [hnode, Journal.ofNode, hexpr]
    simp [Journal.ends]

end Journal.Returns

section Rules

open Journal

variable (ctx : Context) (allowance : Nat) (journalCall : Value → List Value → Journal)

/-- Where the first part is a node, the second is at the same depth of calls. -/
theorem Journal.Returns.andThenNode {β : Type} {sources more : List Stmt} (node : Task)
    {journal : Journal} {next : Value → Eval β} {journalNext : Value → Journal}
    (h : Returns sources (node.evalUnder ctx allowance) journal)
    (hnext : ∀ a, Returns more (next a) (journalNext a)) :
    Returns (sources ++ more) (node.evalUnder ctx allowance >>= next)
      (.andThen (node.evalUnder ctx allowance) journal journalNext) :=
  (h.mono (List.subset_append_left _ _)).andThen (fun _ _ _ hm => (Task.conduct hm).callDepth_eq)
    fun a => (hnext a).mono (List.subset_append_right _ _)

mutual

theorem returns_expr : (e : Expr) →
    Returns e.returns ((Task.expr e).evalUnder ctx allowance)
      (journalExpr ctx allowance journalCall e)
  | .name t =>
      .ofNode (.unlessInterrupted (.of_silent (Eval.silent_resolve t.literal)))
  | .integer _ _ => .ofNode (.unlessInterrupted (.of_silent (Eval.silent_pure _)))
  | .boolean _ _ => .ofNode (.unlessInterrupted (.of_silent (Eval.silent_pure _)))
  | .string _ => .ofNode (.unlessInterrupted (.of_silent (Eval.silent_pure _)))
  | .prefixed _ op e =>
      .ofNode <| .unlessInterrupted <| (returns_expr e).thenStill fun v =>
        Eval.silent_ofExcept (op.apply_alike v.alike_self)
  | .binary _ op l r =>
      .ofNode <| .unlessInterrupted <| .andThenNode ctx allowance (.expr l) (returns_expr l)
        fun left => (returns_expr r).thenStill fun right =>
          Eval.silent_ofExcept (op.apply_alike left.alike_self right.alike_self)
  | .conditional _ c b none => by
      refine .ofNode <| .unlessInterrupted <|
        .andThenNode ctx allowance (.expr c) (returns_expr c) fun condition => ?_
      split
      · exact returns_block b
      · exact .of_silent (Eval.silent_pure _)
  | .conditional _ c b (some alternative) => by
      refine .ofNode <| .unlessInterrupted <|
        .andThenNode ctx allowance (.expr c) (returns_expr c) fun condition => ?_
      split
      · exact (returns_block b).mono (List.subset_append_left _ _)
      · exact (returns_block alternative).mono (List.subset_append_right _ _)
  | .function _ _ _ =>
      .ofNode (.unlessInterrupted (.of_silent (Eval.silent_makeFunction _ _)))
  | .call _ f args =>
      .ofNode <| .unlessInterrupted <| .andThenNode ctx allowance (.expr f) (returns_expr f)
        fun callee => (returns_exprs args).thenSilent fun values =>
          Eval.silent_callValue ctx allowance callee values
  | .array _ es =>
      .ofNode <| .unlessInterrupted <| (returns_exprs es).thenStill fun _ => Eval.silent_pure _
  | .index _ e i =>
      .ofNode <| .unlessInterrupted <| .andThenNode ctx allowance (.expr e) (returns_expr e)
        fun collection => (returns_expr i).thenStill fun index =>
          Eval.silent_ofExcept (Value.select_alike collection.alike_self index.alike_self)
  | .hash _ ps =>
      .ofNode <| .unlessInterrupted <| (returns_pairs ps []).thenStill fun _ =>
        Eval.silent_pure _

theorem returns_exprs : (es : List Expr) →
    Returns (Expr.returnsOfAll es) (evalExprs .prompt (callValue .prompt ctx allowance) es)
      (journalExprs ctx allowance journalCall es)
  | [] => .of_silent (Eval.silent_pure _)
  | e :: es =>
      .andThenNode ctx allowance (.expr e) (returns_expr e) fun _ =>
        (returns_exprs es).thenStill fun _ => Eval.silent_pure _

theorem returns_pairs : (ps : List (Expr × Expr)) → (entries : List (HashKey × Value)) →
    Returns (Expr.returnsOfPairs ps)
      (evalPairs .prompt (callValue .prompt ctx allowance) ps entries)
      (journalPairs ctx allowance journalCall ps)
  | [], _ => .of_silent (Eval.silent_pure _)
  | (k, e) :: ps, entries => by
      refine .andThenNode ctx allowance (.expr k) (returns_expr k) fun key => ?_
      cases HashKey.ofValue? key with
      | none => exact .of_silent (Eval.silent_fail rfl)
      | some hashKey =>
          exact .andThenNode ctx allowance (.expr e) (returns_expr e) fun _ =>
            returns_pairs ps _

theorem returns_stmt : (s : Stmt) →
    Returns s.returns ((Task.stmt s).evalUnder ctx allowance)
      (journalStmt ctx allowance journalCall s)
  | .bind _ target e =>
      .ofNode <| (returns_expr e).thenSilent fun v =>
        (Eval.silent_define target.literal v).bind fun _ => Eval.silent_pure _
  | .ret _ e => .ret ⟨_, journalExpr.eq_def ctx allowance journalCall e⟩ (returns_expr e)
  | .expr _ e => .ofNode (returns_expr e)

theorem returns_stmts : (ss : List Stmt) → (before : Value) →
    Returns (Stmt.returnsOfAll ss) (evalStmts .prompt (callValue .prompt ctx allowance) ss before)
      (journalStmts ctx allowance journalCall ss)
  | [], _ => .of_silent (Eval.silent_pure _)
  | s :: ss, _ =>
      .unlessInterrupted <| .andThenNode ctx allowance (.stmt s) (returns_stmt s) fun v =>
        returns_stmts ss v

theorem returns_block : (b : Block) →
    Returns b.returns ((Task.block b).evalUnder ctx allowance)
      (journalBlock ctx allowance journalCall b)
  | ⟨_, ss⟩ => .ofNode (.inBlock (returns_stmts ss .null))

end

end Rules

theorem returns_evalUnder (ctx : Context) (allowance : Nat) (task : Task) :
    Journal.Returns task.returns (task.evalUnder ctx allowance) (task.journal ctx allowance) := by
  cases task with
  | expr e => exact returns_expr ctx allowance _ e
  | stmt s => exact returns_stmt ctx allowance _ s
  | stmts ss => exact returns_stmts ctx allowance _ ss .null
  | block b => exact returns_block ctx allowance _ b
  | program p => exact .of_silent (Eval.silent_endReturn _)
  | call callee args => exact .of_silent (Eval.silent_callValue ctx allowance callee args)

/-- No program and no call ends in a return on its way. A node that does has executed one
of its own return statements, outside function literals and at the depth of calls that it
began at: the expression of the statement has yielded the value that is on its way, and
since then nothing but nodes and blocks has been left. -/
theorem return_stays_inside (ctx : Context) (allowance : Nat) (m : Machine) :
    (∀ (p : Program) v after,
      p.evalUnder .prompt ctx allowance m ≠ some (.error (.returning v), after)) ∧
    (∀ callee args v after,
      callValue .prompt ctx allowance callee args m ≠ some (.error (.returning v), after)) ∧
    ∀ (task : Task) v after,
      task.evalUnder ctx allowance m = some (.error (.returning v), after) →
      ∃ token e before t later, .ret token e ∈ task.returns ∧
        t.environment.callDepth = m.environment.callDepth ∧
        task.journal ctx allowance m = before ++ .ended (.expr e) (.ok v) t ::
          .ended (.stmt (.ret token e)) (.error (.returning v)) t :: later ∧
        ∀ event ∈ later, event.Leaves (.returning v) :=
  ⟨fun _ v after => Eval.silent_endReturn _ m v after,
    fun callee args v after => Eval.silent_callValue ctx allowance callee args m v after,
    fun task v after h => returns_evalUnder ctx allowance task m v after h⟩

/-- The sum of what a function returns and of a block that returns does not get to be. -/
theorem return_stays_inside_operand :
    let one := Stmt.ret ⟨.returnWord, "return"⟩ (.integer ⟨.int, "1"⟩ 1)
    let two := Stmt.ret ⟨.returnWord, "return"⟩ (.integer ⟨.int, "2"⟩ 2)
    let brace : Token := ⟨.lbrace, "\x7b"⟩
    let called := Expr.call ⟨.lparen, "("⟩ (.function ⟨.functionWord, "fn"⟩ [] ⟨brace, [one]⟩) []
    let branch :=
      Expr.conditional ⟨.ifWord, "if"⟩ (.boolean ⟨.trueWord, "true"⟩ true) ⟨brace, [two]⟩ none
    let sum := Task.expr (.binary ⟨.plus, "+"⟩ .add called branch)
    ∃ after, sum.evalUnder {} 1 .initial = some (.error (.returning (.integer 2)), after) ∧
      sum.returns = [two] ∧
      ∃ token e before t later, .ret token e ∈ sum.returns ∧ t.environment.callDepth = 0 ∧
        sum.journal {} 1 .initial = before ++ .ended (.expr e) (.ok (.integer 2)) t ::
          .ended (.stmt (.ret token e)) (.error (.returning (.integer 2))) t :: later ∧
        ∀ event ∈ later, event.Leaves (.returning (.integer 2)) := by
  intro one two brace called branch sum
  have hrun : sum.evalUnder {} 1 .initial = some (.error (.returning (.integer 2)), _) := rfl
  exact ⟨_, hrun, rfl, (return_stays_inside {} 1 .initial).2.2 sum (.integer 2) _ hrun⟩

end Treewalk
