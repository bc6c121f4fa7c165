import Treewalk.Evaluation.Machine

/-!
Evaluation. An expression or a statement is evaluated by following its syntax;
only a call leaves it, for the body of the function called. The rules for syntax
therefore take the way to call as an argument, and `callValue` closes the circle: it
takes an allowance of nested calls, and each call hands on one less. An
evaluation that uses up its allowance has no outcome.

Before an expression or a statement of a list is begun the flag is looked at, and the
evaluation ends there if it is raised. Parts are evaluated from left to right, and the
first error or return ends the evaluation.
-/

namespace Treewalk

section Rules

variable (policy : Reclamation) (call : Value → List Value → Eval Value)

mutual

def evalExpr : Expr → Eval Value
  | .name t => Eval.unlessInterrupted (Eval.resolve t.literal)
  | .integer _ n => Eval.unlessInterrupted (pure (.integer n))
  | .boolean _ b => Eval.unlessInterrupted (pure (.boolean b))
  | .string t => Eval.unlessInterrupted (pure (.string t.literal))
  | .prefixed _ op e => Eval.unlessInterrupted do
      let v ← evalExpr e
      Run.ofExcept (op.apply v)
  | .binary _ op l r => Eval.unlessInterrupted do
      let left ← evalExpr l
      let right ← evalExpr r
      Run.ofExcept (op.apply left right)
  | .conditional _ c b none => Eval.unlessInterrupted do
      let condition ← evalExpr c
      if condition.isTruthy then evalBlock b else pure .null
  | .conditional _ c b (some alternative) => Eval.unlessInterrupted do
      let condition ← evalExpr c
      if condition.isTruthy then evalBlock b else evalBlock alternative
  | .function _ ps b =>
      Eval.unlessInterrupted (Eval.makeFunction (ps.map Token.literal) b)
  | .call _ f args => Eval.unlessInterrupted do
      let callee ← evalExpr f
      let values ← evalExprs args
      call callee values
  | .array _ es => Eval.unlessInterrupted do
      let items ← evalExprs es
      pure (.array items)
  | .index _ e i => Eval.unlessInterrupted do
      let collection ← evalExpr e
      let index ← evalExpr i
      Run.ofExcept (collection.select index)
  | .hash _ ps => Eval.unlessInterrupted do
      let entries ← evalPairs ps []
      pure (.hash entries)
termination_by structural e => e

def evalExprs : List Expr → Eval (List Value)
  | [] => pure []
  | e :: es => do
      let v ← evalExpr e
      let vs ← evalExprs es
      pure (v :: vs)
termination_by structural es => es

/-- Evaluate the pairs of a hash, each key before its value, and put them. -/
def evalPairs : List (Expr × Expr) → List (HashKey × Value) → Eval (List (HashKey × Value))
  | [], entries => pure entries
  | (k, e) :: ps, entries => do
      let key ← evalExpr k
      match HashKey.ofValue? key with
      | none => Run.fail (.unusableKey key.type)
      | some hashKey =>
          let value ← evalExpr e
          evalPairs ps (Entries.put hashKey value entries)
termination_by structural ps => ps

def evalStmt : Stmt → Eval Value
  | .bind _ target e => do
      let v ← evalExpr e
      Eval.define target.literal v
      pure .null
  | .ret _ e => do
      let v ← evalExpr e
      Run.fail (.returning v)
  | .expr _ e => evalExpr e
termination_by structural s => s

/-- Evaluate statements in the current scope. The last one gives the value, and
`before` does if there is none. -/
def evalStmts : List Stmt → (before : Value) → Eval Value
  | [], before => pure before
  | s :: ss, _ => Eval.unlessInterrupted do
      let v ← evalStmt s
      evalStmts ss v
termination_by structural ss => ss

def evalBlock : Block → Eval Value
  | ⟨_, ss⟩ => Eval.inBlock policy (evalStmts ss .null)
termination_by structural b => b

end

end Rules

/-- Call a value with arguments. The number of arguments is looked at first,
then the limit on nested calls, then whether the captured scope still lives. -/
def callValue (policy : Reclamation) (ctx : Context) : Nat → Value → List Value → Eval Value
  | allowance, .function f, args =>
      if args.length = f.arity then do
        Eval.enterCall ctx.maxCallDepth
        match allowance with
        | 0 => Run.exhausted
        | rest + 1 =>
            Eval.endReturn do
              let result ← Run.outcome (Eval.inScope policy f.scope do
                Eval.defineAll f.parameters args
                evalStmts policy (callValue policy ctx rest) f.body.statements .null)
              Eval.exitCall
              Run.ofExcept result
      else Run.fail (.arityMismatch f.arity args.length)
  | _, .builtin b, args => Eval.callBuiltin b args
  | _, v, _ => Run.fail (.notAFunction v.type)
termination_by structural allowance => allowance

namespace Expr

def eval (ctx : Context) (e : Expr) : Eval Value :=
  evalExpr .prompt (callValue .prompt ctx ctx.callAllowance) e

end Expr

namespace Stmt

def eval (ctx : Context) (s : Stmt) : Eval Value :=
  evalStmt .prompt (callValue .prompt ctx ctx.callAllowance) s

/-- Evaluate statements in the current scope, yielding the value of the last. -/
def evalAll (ctx : Context) (ss : List Stmt) : Eval Value :=
  evalStmts .prompt (callValue .prompt ctx ctx.callAllowance) ss .null

end Stmt

namespace Block

def eval (ctx : Context) (b : Block) : Eval Value :=
  evalBlock .prompt (callValue .prompt ctx ctx.callAllowance) b

end Block

namespace Value

def call (ctx : Context) (callee : Value) (args : List Value) : Eval Value :=
  callValue .prompt ctx ctx.callAllowance callee args

end Value

namespace Program

/-- Evaluate the statements of a program, within an allowance of nested calls; a
return outside of calls ends it. -/
def evalUnder (policy : Reclamation) (ctx : Context) (allowance : Nat) (p : Program) :
    Eval Value :=
  Eval.endReturn (evalStmts policy (callValue policy ctx allowance) p.statements .null)

/-- Evaluate the statements of a program; a return outside of calls ends it. -/
def eval (ctx : Context) (p : Program) : Eval Value :=
  p.evalUnder .prompt ctx ctx.callAllowance

/-- Reclaim the scopes that can no longer be reached, if too many live. -/
def collectAfter (policy : Reclamation) (ctx : Context) (result : Value) (m : Machine) :
    Machine :=
  match policy with
  | .never => m
  | .prompt =>
      if ctx.collectAbove < m.environment.liveScopes then
        m.changeEnvironment fun env => (env.collectGarbage [result]).2
      else m

/-- Run a program to its end, within an allowance of nested calls: an error
becomes a value, and scopes are reclaimed afterwards. -/
def runUnder (policy : Reclamation) (ctx : Context) (allowance : Nat) (p : Program)
    (m : Machine) : Option (Value × Machine) :=
  match p.evalUnder policy ctx allowance m with
  | none => none
  | some (.ok v, after) => some (v, collectAfter policy ctx v after)
  | some (.error e, after) => some (e.toValue, collectAfter policy ctx e.toValue after)

/-- Run a program to its end: an error becomes a value, and scopes are reclaimed
afterwards. -/
def run (ctx : Context) (p : Program) (m : Machine) : Option (Value × Machine) :=
  p.runUnder .prompt ctx ctx.callAllowance m

end Program
end Treewalk
