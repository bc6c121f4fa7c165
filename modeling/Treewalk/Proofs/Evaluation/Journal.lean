import Treewalk.Proofs.Evaluation.Steps
import Treewalk.Proofs.Scope.Guards

/-!
The journal of an evaluation: which nodes it begins and how each of them ends, what it
changes in the environment and what it prints, in order. The journal of a piece of syntax
follows the rules of its evaluation: it is that of its first part, then that of what the
result of this part leads on to. A journal need not come to an end with a result: a node
that uses up its allowance has begun and does not end. The changes in a journal are the
trace of the evaluation.

What is said of runs and their journals is said of every evaluation, if the elementary
steps and the ways to put runs together keep to it.
-/

namespace Treewalk

open Environment (Change)

/-- What can be evaluated by itself. -/
inductive Task where
  | expr (e : Expr)
  | stmt (s : Stmt)
  | stmts (ss : List Stmt)
  | block (b : Block)
  | program (p : Program)
  | call (callee : Value) (args : List Value)

/-- Evaluate, within an allowance of nested calls, as `Expr.eval` and the like do within
that of their context. -/
def Task.evalUnder (ctx : Context) (allowance : Nat) : Task → Eval Value
  | expr e => evalExpr .prompt (callValue .prompt ctx allowance) e
  | stmt s => evalStmt .prompt (callValue .prompt ctx allowance) s
  | stmts ss => evalStmts .prompt (callValue .prompt ctx allowance) ss .null
  | block b => evalBlock .prompt (callValue .prompt ctx allowance) b
  | program p => p.evalUnder .prompt ctx allowance
  | call callee args => callValue .prompt ctx allowance callee args

/-- The names that a statement binds in the scope it is evaluated in. -/
def Stmt.boundNames : Stmt → List String
  | .bind _ target _ => [target.literal]
  | .ret _ _ | .expr _ _ => []

/-- The names that an evaluation may bind in the scope it begins in. -/
def Task.boundNames : Task → List String
  | stmt s => s.boundNames
  | stmts ss => ss.flatMap Stmt.boundNames
  | program p => p.statements.flatMap Stmt.boundNames
  | expr _ | block _ | call _ _ => []

/-- What a call runs in the scope of its function. -/
def Function.evalBody (f : Function) (call : Value → List Value → Eval Value)
    (args : List Value) : Eval Value := do
  Eval.defineAll f.parameters args
  evalStmts .prompt call f.body.statements .null

/-- What can happen in an evaluation. -/
inductive Event where
  /-- a node begins to be evaluated -/
  | began (node : Task)
  /-- the evaluation of a node ends, with a result and on a machine -/
  | ended (node : Task) (result : Except EvalError Value) (after : Machine)
  | changed (change : Change)
  | printed (text : String)

namespace Event

def change? : Event → Option Change
  | changed c => some c
  | _ => none

def text? : Event → Option String
  | printed text => some text
  | _ => none

/-- The changes among events. -/
def changes (events : List Event) : List Change :=
  events.filterMap change?

/-- What is printed by events. -/
def text (events : List Event) : String :=
  String.join (events.filterMap text?)

theorem changes_append (events later : List Event) :
    changes (events ++ later) = changes events ++ changes later :=
  List.filterMap_append

/-- Changes around others. -/
theorem changes_around (c d : Change) (events : List Event) :
    changes (.changed c :: (events ++ [.changed d])) = c :: (changes events ++ [d]) :=
  congrArg (c :: ·) (changes_append events [.changed d])

/-- That a node begins and ends is no change. -/
theorem changes_ofNode (node : Task) (result : Except EvalError Value) (after : Machine)
    (events : List Event) :
    changes (.began node :: (events ++ [.ended node result after])) = changes events :=
  (changes_append events [.ended node result after]).trans (List.append_nil _)

theorem text_append (events later : List Event) :
    text (events ++ later) = text events ++ text later := by
  rw [text, List.filterMap_append, String.join_append, text, text]

end Event

/-- What happens from a machine on. -/
abbrev Journal := Machine → List Event

namespace Journal

/-- Nothing happens. -/
def still : Journal :=
  fun _ => []

def one (event : Event) : Journal :=
  fun _ => [event]

/-- What happens in a run, then what happens in that which follows its result. -/
def andThen {α : Type} (run : Eval α) (journal : Journal) (next : α → Journal) : Journal :=
  fun m =>
    journal m ++
      match run m with
      | some (.ok a, after) => next a after
      | _ => []

/-- A look at the flag is no event. -/
def unlessInterrupted (journal : Journal) : Journal :=
  andThen Eval.poll still fun _ => journal

/-- A change that is made when a run has ended, however it has. -/
def ending {α : Type} (c : Change) : Option α → List Event
  | some _ => [.changed c]
  | none => []

/-- What happens in a run in a new scope inside the given one. -/
def within {α : Type} (c : Change) (outer : ScopeId) (run : Eval α) (journal : Journal) :
    Journal := fun m =>
  let inside := (Eval.enter outer m).2
  .changed c :: (journal inside ++ ending .leave (run inside))

def inBlock {α : Type} (run : Eval α) (journal : Journal) : Journal := fun m =>
  within .enterBlock m.environment.current run journal m

def inScope {α : Type} (outer : ScopeId) (run : Eval α) (journal : Journal) : Journal := fun m =>
  if m.environment.arena.contains outer then within (.enterScope outer) outer run journal m
  else []

/-- What happens in a run between the beginning and the end of a call. -/
def inCall {α : Type} (limit : Option Nat) (run : Eval α) (journal : Journal) : Journal :=
  fun m =>
    match m.environment.enterCall limit with
    | .ok environment =>
        let began := { m with environment }
        .changed (.enterCall limit) :: (journal began ++ ending .exitCall (run began))
    | .error _ => []

def defineAll (names : List String) (values : List Value) : Journal :=
  fun _ => (List.zipWith Change.define names values).map .changed

/-- How a node ends, if it does. -/
def ends (node : Task) : Option (Except EvalError Value × Machine) → List Event
  | some (result, after) => [.ended node result after]
  | none => []

/-- What happens in the evaluation of a node, from its beginning to its end. -/
def ofNode (ctx : Context) (allowance : Nat) (node : Task) (journal : Journal) : Journal :=
  fun m => .began node :: (journal m ++ ends node (node.evalUnder ctx allowance m))

end Journal

section Rules

open Journal

variable (ctx : Context) (allowance : Nat) (journalCall : Value → List Value → Journal)

mutual

def journalExpr (e : Expr) : Journal :=
  ofNode ctx allowance (.expr e) <| unlessInterrupted <|
    match e with
    | .name _ | .integer _ _ | .boolean _ _ | .string _ => still
    | .prefixed _ _ operand => journalExpr operand
    | .binary _ _ l r =>
        andThen ((Task.expr l).evalUnder ctx allowance) (journalExpr l) fun _ => journalExpr r
    | .conditional _ c b none =>
        andThen ((Task.expr c).evalUnder ctx allowance) (journalExpr c) fun condition =>
          if condition.isTruthy then journalBlock b else still
    | .conditional _ c b (some alternative) =>
        andThen ((Task.expr c).evalUnder ctx allowance) (journalExpr c) fun condition =>
          if condition.isTruthy then journalBlock b else journalBlock alternative
    | .function _ _ _ => one (.changed .capture)
    | .call _ f args =>
        andThen ((Task.expr f).evalUnder ctx allowance) (journalExpr f) fun callee =>
          andThen (evalExprs .prompt (callValue .prompt ctx allowance) args)
            (journalExprs args) fun values => journalCall callee values
    | .array _ es => journalExprs es
    | .index _ collection i =>
        andThen ((Task.expr collection).evalUnder ctx allowance) (journalExpr collection)
          fun _ => journalExpr i
    | .hash _ ps => journalPairs ps
termination_by structural e

def journalExprs : List Expr → Journal
  | [] => still
  | e :: es =>
      andThen ((Task.expr e).evalUnder ctx allowance) (journalExpr e) fun _ => journalExprs es
termination_by structural es => es

def journalPairs : List (Expr × Expr) → Journal
  | [] => still
  | (k, e) :: ps =>
      andThen ((Task.expr k).evalUnder ctx allowance) (journalExpr k) fun key =>
        match HashKey.ofValue? key with
        | none => still
        | some _ =>
            andThen ((Task.expr e).evalUnder ctx allowance) (journalExpr e) fun _ =>
              journalPairs ps
termination_by structural ps => ps

def journalStmt (s : Stmt) : Journal :=
  ofNode ctx allowance (.stmt s) <|
    match s with
    | .bind _ target e =>
        andThen ((Task.expr e).evalUnder ctx allowance) (journalExpr e) fun v =>
          one (.changed (.define target.literal v))
    | .ret _ e | .expr _ e => journalExpr e
termination_by structural s

def journalStmts : List Stmt → Journal
  | [] => still
  | s :: ss => unlessInterrupted
      (andThen ((Task.stmt s).evalUnder ctx allowance) (journalStmt s) fun _ => journalStmts ss)
termination_by structural ss => ss

def journalBlock (b : Block) : Journal :=
  ofNode ctx allowance (.block b) <|
    match b with
    | ⟨_, ss⟩ => inBlock ((Task.stmts ss).evalUnder ctx allowance) (journalStmts ss)
termination_by structural b

end

/-- What happens in the scope of a function that is called. -/
def Function.journalBody (f : Function) (args : List Value) : Journal :=
  .andThen (Eval.defineAll f.parameters args) (.defineAll f.parameters args) fun _ =>
    journalStmts ctx allowance journalCall f.body.statements

end Rules

/-- What happens when a value is called, in terms of what does when functions are. -/
def journalCallee (journalFunction : Function → Journal) (args : List Value) : Value → Journal
  | .function f => if args.length = f.arity then journalFunction f else .still
  | .builtin b => .one (.printed (b.printed args))
  | _ => .still

def journalCall (ctx : Context) : Nat → Value → List Value → Journal
  | 0, callee, args =>
      .ofNode ctx 0 (.call callee args) <|
        journalCallee (fun _ => .inCall ctx.maxCallDepth (Run.exhausted : Eval Value) .still)
          args callee
  | rest + 1, callee, args =>
      .ofNode ctx (rest + 1) (.call callee args) <|
        journalCallee (fun f =>
          let body := f.evalBody (callValue .prompt ctx rest) args
          .inCall ctx.maxCallDepth (Eval.inScope .prompt f.scope body)
            (.inScope f.scope body (f.journalBody ctx rest (journalCall ctx rest) args)))
          args callee
termination_by structural allowance => allowance

/-- What happens in an evaluation. -/
def Task.journal (ctx : Context) (allowance : Nat) : Task → Journal
  | expr e => journalExpr ctx allowance (journalCall ctx allowance) e
  | stmt s => journalStmt ctx allowance (journalCall ctx allowance) s
  | stmts ss => journalStmts ctx allowance (journalCall ctx allowance) ss
  | block b => journalBlock ctx allowance (journalCall ctx allowance) b
  | program p => .ofNode ctx allowance (.program p)
      (journalStmts ctx allowance (journalCall ctx allowance) p.statements)
  | call callee args => journalCall ctx allowance callee args

/-- The changes that an evaluation makes, from a machine on. -/
def Task.trace (ctx : Context) (allowance : Nat) (task : Task) (m : Machine) : List Change :=
  Event.changes (task.journal ctx allowance m)

/-- What is said of runs and of what happens in them, given the names that a run may bind in
the scope it begins in. -/
structure Chronicle (ctx : Context) where
  Fits : {α : Type} → List String → Eval α → Journal → Prop
  still : ∀ {α : Type} {names : List String} {run : Eval α},
    (∀ m r after, run m = some (r, after) → after = m) → Fits names run .still
  poll : ∀ names, Fits names Eval.poll .still
  print : ∀ names b args,
    Fits names (Eval.callBuiltin b args) (.one (.printed (b.printed args)))
  define : ∀ {names name} value, name ∈ names →
    Fits names (Eval.define name value) (.one (.changed (.define name value)))
  capture : ∀ names parameters body,
    Fits names (Eval.makeFunction parameters body) (.one (.changed .capture))
  andThen : ∀ {α β : Type} {names : List String} {run : Eval α} {journal : Journal}
    {next : α → Eval β} {journalNext : α → Journal}, Fits names run journal →
    (∀ a, Fits names (next a) (journalNext a)) →
    Fits names (run >>= next) (.andThen run journal journalNext)
  inBlock : ∀ {names inner : List String} {run : Eval Value} {journal : Journal},
    Fits inner run journal → Fits names (Eval.inBlock .prompt run) (.inBlock run journal)
  inScope : ∀ {names inner : List String} {run : Eval Value} {journal : Journal}
    (outer : ScopeId), Fits inner run journal →
    Fits names (Eval.inScope .prompt outer run) (.inScope outer run journal)
  inCall : ∀ {names : List String} {run : Eval Value} {journal : Journal},
    Fits names run journal →
    Fits names (Eval.inCall ctx.maxCallDepth run) (.inCall ctx.maxCallDepth run journal)
  endReturn : ∀ {names : List String} {run : Eval Value} {journal : Journal},
    Fits names run journal → Fits names (Eval.endReturn run) journal
  ofNode : ∀ {names : List String} {journal : Journal} (allowance : Nat) (node : Task),
    Fits names (node.evalUnder ctx allowance) journal →
    Fits names (node.evalUnder ctx allowance) (.ofNode ctx allowance node journal)

theorem Journal.andThen_still {α : Type} (run : Eval α) (journal : Journal) :
    (Journal.andThen run journal fun _ => .still) = journal := by
  funext m
  rw [andThen]
  split <;> exact List.append_nil _

namespace Chronicle

variable {ctx : Context} (C : Chronicle ctx) {α β : Type} {names : List String} {run : Eval α}
  {journal : Journal}

theorem fits_pure (a : α) : C.Fits names (pure a) .still :=
  C.still fun _ _ _ h => by cases h; rfl

theorem fits_fail (e : EvalError) : C.Fits names (Run.fail e : Eval α) .still :=
  C.still fun _ _ _ h => by cases h; rfl

theorem fits_ofExcept (r : Except EvalError α) : C.Fits names (Run.ofExcept r) .still :=
  C.still fun _ _ _ h => by cases h; rfl

theorem fits_exhausted : C.Fits names (Run.exhausted : Eval α) .still :=
  C.still fun _ _ _ h => by cases h

theorem fits_resolve (name : String) : C.Fits names (Eval.resolve name) .still := by
  refine C.still fun m r after h => ?_
  rw [Eval.resolve] at h
  split at h
  · cases h
    rfl
  · cases h
    rfl
  · split at h <;> cases h <;> rfl

/-- A part in which nothing happens may follow. -/
theorem fits_bind_still {next : α → Eval β} (h : C.Fits names run journal)
    (hnext : ∀ a, C.Fits names (next a) .still) : C.Fits names (run >>= next) journal := by
  rw [← Journal.andThen_still run journal]
  exact C.andThen h hnext

theorem fits_unlessInterrupted (h : C.Fits names run journal) :
    C.Fits names (Eval.unlessInterrupted run) (.unlessInterrupted journal) :=
  C.andThen (C.poll names) fun _ => h

theorem fits_defineAll (parameters : List String) (values : List Value)
    (h : ∀ name ∈ parameters, name ∈ names) :
    C.Fits names (Eval.defineAll parameters values) (.defineAll parameters values) := by
  induction parameters generalizing values with
  | nil => exact C.fits_pure ()
  | cons name parameters ih =>
      cases values with
      | nil => exact C.fits_pure ()
      | cons value values =>
          exact C.andThen (C.define value (h name List.mem_cons_self)) fun _ =>
            ih values fun x hx => h x (List.mem_cons_of_mem _ hx)

/-- It is said of all calls. -/
def FitsCalls (allowance : Nat) (journalCall : Value → List Value → Journal) : Prop :=
  ∀ names callee args,
    C.Fits names (callValue .prompt ctx allowance callee args) (journalCall callee args)

section Rules

variable {allowance : Nat} {journalCall : Value → List Value → Journal}

mutual

theorem fits_expr (hcall : C.FitsCalls allowance journalCall) (names : List String) :
    (e : Expr) → C.Fits names ((Task.expr e).evalUnder ctx allowance)
      (journalExpr ctx allowance journalCall e)
  | .name t =>
      C.ofNode allowance (.expr (.name t)) (C.fits_unlessInterrupted (C.fits_resolve t.literal))
  | .integer t n =>
      C.ofNode allowance (.expr (.integer t n)) (C.fits_unlessInterrupted (C.fits_pure _))
  | .boolean t b =>
      C.ofNode allowance (.expr (.boolean t b)) (C.fits_unlessInterrupted (C.fits_pure _))
  | .string t => C.ofNode allowance (.expr (.string t)) (C.fits_unlessInterrupted (C.fits_pure _))
  | .prefixed t op e =>
      C.ofNode allowance (.expr (.prefixed t op e)) <| C.fits_unlessInterrupted <|
        C.fits_bind_still (fits_expr hcall names e) fun _ => C.fits_ofExcept _
  | .binary t op l r =>
      C.ofNode allowance (.expr (.binary t op l r)) <| C.fits_unlessInterrupted <|
        C.andThen (fits_expr hcall names l) fun _ =>
          C.fits_bind_still (fits_expr hcall names r) fun _ => C.fits_ofExcept _
  | .conditional t c b none => by
      refine C.ofNode allowance (.expr (.conditional t c b none)) <| C.fits_unlessInterrupted <|
        C.andThen (fits_expr hcall names c) fun condition => ?_
      split
      · exact fits_block hcall names b
      · exact C.fits_pure _
  | .conditional t c b (some alternative) => by
      refine C.ofNode allowance (.expr (.conditional t c b (some alternative))) <|
        C.fits_unlessInterrupted <| C.andThen (fits_expr hcall names c) fun condition => ?_
      split
      · exact fits_block hcall names b
      · exact fits_block hcall names alternative
  | .function t ps b =>
      C.ofNode allowance (.expr (.function t ps b)) (C.fits_unlessInterrupted (C.capture _ _ _))
  | .call t f args =>
      C.ofNode allowance (.expr (.call t f args)) <| C.fits_unlessInterrupted <|
        C.andThen (fits_expr hcall names f) fun callee =>
          C.andThen (fits_exprs hcall names args) fun values => hcall names callee values
  | .array t es =>
      C.ofNode allowance (.expr (.array t es)) <| C.fits_unlessInterrupted <|
        C.fits_bind_still (fits_exprs hcall names es) fun _ => C.fits_pure _
  | .index t e i =>
      C.ofNode allowance (.expr (.index t e i)) <| C.fits_unlessInterrupted <|
        C.andThen (fits_expr hcall names e) fun _ =>
          C.fits_bind_still (fits_expr hcall names i) fun _ => C.fits_ofExcept _
  | .hash t ps =>
      C.ofNode allowance (.expr (.hash t ps)) <| C.fits_unlessInterrupted <|
        C.fits_bind_still (fits_pairs hcall names ps []) fun _ => C.fits_pure _

theorem fits_exprs (hcall : C.FitsCalls allowance journalCall) (names : List String) :
    (es : List Expr) → C.Fits names (evalExprs .prompt (callValue .prompt ctx allowance) es)
      (journalExprs ctx allowance journalCall es)
  | [] => C.fits_pure _
  | e :: es =>
      C.andThen (fits_expr hcall names e) fun _ =>
        C.fits_bind_still (fits_exprs hcall names es) fun _ => C.fits_pure _

theorem fits_pairs (hcall : C.FitsCalls allowance journalCall) (names : List String) :
    (ps : List (Expr × Expr)) → (entries : List (HashKey × Value)) →
    C.Fits names (evalPairs .prompt (callValue .prompt ctx allowance) ps entries)
      (journalPairs ctx allowance journalCall ps)
  | [], _ => C.fits_pure _
  | (k, e) :: ps, entries => by
      refine C.andThen (fits_expr hcall names k) fun key => ?_
      cases HashKey.ofValue? key with
      | none => exact C.fits_fail _
      | some hashKey =>
          exact C.andThen (fits_expr hcall names e) fun value => fits_pairs hcall names ps _

theorem fits_stmt (hcall : C.FitsCalls allowance journalCall) {names : List String} :
    (s : Stmt) → (∀ name ∈ s.boundNames, name ∈ names) →
    C.Fits names ((Task.stmt s).evalUnder ctx allowance)
      (journalStmt ctx allowance journalCall s)
  | .bind t target e, h =>
      C.ofNode allowance (.stmt (.bind t target e)) <|
        C.andThen (fits_expr hcall names e) fun v =>
          C.fits_bind_still (C.define v (h _ List.mem_cons_self)) fun _ => C.fits_pure _
  | .ret t e, _ =>
      C.ofNode allowance (.stmt (.ret t e)) <|
        C.fits_bind_still (fits_expr hcall names e) fun _ => C.fits_fail _
  | .expr t e, _ => C.ofNode allowance (.stmt (.expr t e)) (fits_expr hcall names e)

theorem fits_stmts (hcall : C.FitsCalls allowance journalCall) {names : List String} :
    (ss : List Stmt) → (∀ name ∈ ss.flatMap Stmt.boundNames, name ∈ names) →
    (before : Value) →
    C.Fits names (evalStmts .prompt (callValue .prompt ctx allowance) ss before)
      (journalStmts ctx allowance journalCall ss)
  | [], _, before => C.fits_pure before
  | s :: ss, h, _ => by
      rw [List.flatMap_cons] at h
      refine C.fits_unlessInterrupted <| C.andThen
        (fits_stmt hcall s fun name hn => h name (List.mem_append_left _ hn)) fun v => ?_
      exact fits_stmts hcall ss (fun name hn => h name (List.mem_append_right _ hn)) v

theorem fits_block (hcall : C.FitsCalls allowance journalCall) (names : List String) :
    (b : Block) → C.Fits names ((Task.block b).evalUnder ctx allowance)
      (journalBlock ctx allowance journalCall b)
  | ⟨t, ss⟩ =>
      C.ofNode allowance (.block ⟨t, ss⟩) (C.inBlock (fits_stmts hcall ss (fun _ hn => hn) .null))

end

theorem fits_body (hcall : C.FitsCalls allowance journalCall) (f : Function)
    (args : List Value) :
    C.Fits (f.parameters ++ f.body.statements.flatMap Stmt.boundNames)
      (f.evalBody (callValue .prompt ctx allowance) args)
      (f.journalBody ctx allowance journalCall args) :=
  C.andThen (C.fits_defineAll f.parameters args fun _ hn => List.mem_append_left _ hn) fun _ =>
    C.fits_stmts hcall _ (fun _ hn => List.mem_append_right _ hn) .null

end Rules

/-- What is left of a call, when it is said of the calls of functions. -/
theorem fits_callee {allowance : Nat} {journalFunction : Function → Journal} {args : List Value}
    (hfunction : ∀ f : Function, args.length = f.arity →
      C.Fits names (callValue .prompt ctx allowance (.function f) args) (journalFunction f)) :
    (callee : Value) → C.Fits names (callValue .prompt ctx allowance callee args)
      (journalCallee journalFunction args callee)
  | .function f => by
      rw [journalCallee]
      split
      · rename_i harity
        exact hfunction f harity
      · rename_i harity
        cases allowance <;> rw [callValue, if_neg harity] <;> exact C.fits_fail _
  | .builtin b => by cases allowance <;> exact C.print _ b args
  | .integer _ | .boolean _ | .string _ | .null | .array _ | .hash _ | .error _ => by
      cases allowance <;> exact C.fits_fail _

theorem fits_call (allowance : Nat) : C.FitsCalls allowance (journalCall ctx allowance) := by
  induction allowance with
  | zero =>
      intro names callee args
      refine C.ofNode 0 (.call callee args) (C.fits_callee (fun f harity => ?_) callee)
      rw [callValue, if_pos harity]
      exact Eval.inCall_exhausted _ ▸ C.inCall C.fits_exhausted
  | succ rest ih =>
      intro names callee args
      refine C.ofNode (rest + 1) (.call callee args) (C.fits_callee (fun f harity => ?_) callee)
      rw [callValue, if_pos harity]
      exact C.inCall (C.inScope f.scope (C.fits_body ih f args))

/-- What is said of runs and their journals is said of every evaluation. -/
theorem fits_evalUnder (allowance : Nat) (task : Task) :
    C.Fits task.boundNames (task.evalUnder ctx allowance) (task.journal ctx allowance) := by
  have hcall := C.fits_call allowance
  cases task with
  | expr e => exact C.fits_expr hcall _ e
  | stmt s => exact C.fits_stmt hcall s fun _ hn => hn
  | stmts ss => exact C.fits_stmts hcall ss (fun _ hn => hn) .null
  | block b => exact C.fits_block hcall _ b
  | program p =>
      exact C.ofNode allowance (.program p)
        (C.endReturn (C.fits_stmts hcall p.statements (fun _ hn => hn) .null))
  | call callee args => exact hcall _ callee args

end Chronicle
end Treewalk
