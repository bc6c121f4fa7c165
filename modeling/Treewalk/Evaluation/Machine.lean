import Treewalk.Evaluation.Context
import Treewalk.Evaluation.Operators
import Treewalk.Run
import Treewalk.Scope.Environment

/-!
The state that an evaluation works on, and its elementary steps. Besides the
environment the state holds the text printed so far, the number of functions
made so far, from which each new function takes its identity, and the flag that
asks the evaluation to stop. The flag belongs to others, who raise and lower it as
they like while the evaluation goes on; so what is known of it is how it stands
each time that it is looked at.
-/

namespace Treewalk

/-- A flag that others raise and lower. -/
structure Flag where
  /-- whether it is raised, each time that it is looked at -/
  raised : Nat → Bool
  /-- how often it has been looked at -/
  looks : Nat

namespace Flag

/-- A flag that nobody moves. -/
def fixed (raised : Bool) : Flag :=
  ⟨fun _ => raised, 0⟩

/-- Whether the flag is raised when it is looked at next. -/
@[inline]
def isRaised (f : Flag) : Bool :=
  f.raised f.looks

/-- The flag once it has been looked at again. -/
@[inline]
def looked (f : Flag) : Flag :=
  { f with looks := f.looks + 1 }

end Flag

/-- The state of an evaluation. -/
structure Machine where
  environment : Environment
  /-- the text printed so far -/
  printed : String
  /-- the number of functions made so far -/
  functions : Nat
  /-- raised to ask the evaluation to stop -/
  flag : Flag

/-- An evaluation: it changes the machine and yields a value, or stops early. -/
abbrev Eval := Run Machine EvalError

namespace Machine

/-- A machine on which nothing has run, with the flag that others hold. -/
def fresh (flag : Flag) : Machine :=
  ⟨.initial, "", 0, flag⟩

/-- A machine on which nothing has run, and which nobody asks to stop. -/
def initial : Machine :=
  fresh (.fixed false)

/-- Change the environment. -/
@[inline]
def changeEnvironment (f : Environment → Environment) (m : Machine) : Machine :=
  { m with environment := f m.environment }

/-- The machine once its flag has been looked at again. -/
@[inline]
def look (m : Machine) : Machine :=
  { m with flag := m.flag.looked }

end Machine

namespace Eval

/-- Look at the flag, and stop if it is raised. -/
@[inline]
def poll : Eval Unit := fun m =>
  let raised := m.flag.isRaised
  some (if raised then .error .interrupted else .ok (), m.look)

/-- Run an evaluation unless it is asked to stop. -/
@[inline]
def unlessInterrupted {α : Type} (run : Eval α) : Eval α := do
  poll
  run

def define (name : String) (value : Value) : Eval Unit :=
  Run.update (Machine.changeEnvironment (Environment.define name value))

def defineAll : List String → List Value → Eval Unit
  | name :: names, value :: values => do
      define name value
      defineAll names values
  | _, _ => pure ()

/-- The value of a name: what it is bound to, or else the builtin of that name. -/
def resolve (name : String) : Eval Value := fun m =>
  match m.environment.resolve name with
  | .error e => some (.error e, m)
  | .ok (some value) => some (.ok value, m)
  | .ok none =>
      match Builtin.ofName? name with
      | some b => some (.ok (.builtin b), m)
      | none => some (.error (.undefinedName name), m)

/-- Make a function that captures the current scope. -/
def makeFunction (parameters : List String) (body : Block) : Eval Value
  | ⟨environment, printed, functions, flag⟩ =>
      match environment.capture with
      | (scope, captured) =>
          some (.ok (.function ⟨parameters, body, scope, functions⟩),
            ⟨captured, printed, functions + 1, flag⟩)

def callBuiltin (b : Builtin) (args : List Value) : Eval Value := fun m =>
  some (b.apply args, { m with printed := m.printed ++ b.printed args })

/-- Make a new scope inside the given one current, and tell which was before. -/
def enter (outer : ScopeId) : Machine → ScopeId × Machine
  | ⟨environment, printed, functions, flag⟩ =>
      match environment.enter outer with
      | (previous, inside) => (previous, ⟨inside, printed, functions, flag⟩)

/-- Leave the current scope for the one that was current before. -/
def leave (policy : Reclamation) (previous : ScopeId) (m : Machine) : Machine :=
  m.changeEnvironment fun env =>
    match policy with
    | .prompt => env.leave previous
    | .never => env.leaveKept previous

/-- Run an evaluation in a new scope inside the given one, and leave that scope
however the run ends. -/
def within {α : Type} (policy : Reclamation) (outer : ScopeId) (run : Eval α) : Eval α :=
  fun m =>
    match enter outer m with
    | (previous, inside) =>
        match run inside with
        | none => none
        | some (result, after) => some (result, leave policy previous after)

/-- Run an evaluation in a new scope inside the current one. -/
def inBlock {α : Type} (policy : Reclamation) (run : Eval α) : Eval α := fun m =>
  within policy m.environment.current run m

/-- Run an evaluation in a new scope inside the given one, if that one lives. -/
def inScope {α : Type} (policy : Reclamation) (outer : ScopeId) (run : Eval α) : Eval α :=
  fun m =>
    if m.environment.arena.contains outer then within policy outer run m
    else some (.error .danglingScope, m)

def enterCall (limit : Option Nat) : Eval Unit := fun m =>
  match m.environment.enterCall limit with
  | .ok environment => some (.ok (), { m with environment })
  | .error e => some (.error e, m)

def exitCall : Eval Unit :=
  Run.update (Machine.changeEnvironment Environment.exitCall)

/-- End a return at the call or the program it returns from. -/
def endReturn (run : Eval Value) : Eval Value := fun m =>
  match run m with
  | some (.error (.returning value), after) => some (.ok value, after)
  | outcome => outcome

end Eval
end Treewalk
