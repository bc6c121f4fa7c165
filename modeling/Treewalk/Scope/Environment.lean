import Treewalk.Evaluation.Error
import Treewalk.Scope.Collection

/-!
The environment of an evaluation: the store of scopes, the root scope that is
there for good, the current scope into which names are bound and from which they
are looked up, and how deeply calls are nested.
-/

namespace Treewalk

/-- The scopes, which of them is current, and the depth of calls. -/
structure Environment where
  arena : Arena
  root : ScopeId
  current : ScopeId
  callDepth : Nat

namespace Environment

/-- An environment with nothing but an empty root scope. -/
def initial : Environment :=
  match Arena.empty.alloc none with
  | (root, arena) => ⟨arena.pin root, root, root, 0⟩

def isAtRoot (env : Environment) : Bool :=
  env.current == env.root

def liveScopes (env : Environment) : Nat :=
  env.arena.live

/-- Make a new scope inside the given one current, and tell which was before. -/
def enter (outer : ScopeId) (env : Environment) : ScopeId × Environment :=
  match env.arena.alloc (some outer) with
  | (scope, arena) => (env.current, { env with arena, current := scope })

/-- Make a new scope inside the given one current, provided that one lives. -/
def enterLive (outer : ScopeId) (env : Environment) :
    Except EvalError (ScopeId × Environment) :=
  if env.arena.contains outer then .ok (env.enter outer) else .error .danglingScope

/-- Leave the current scope for the one that was current before. It is freed
unless a function has captured it. -/
def leave (previous : ScopeId) (env : Environment) : Environment :=
  { env with arena := env.arena.release env.current, current := previous }

/-- Leave the current scope for the one that was current before, and keep it. -/
def leaveKept (previous : ScopeId) (env : Environment) : Environment :=
  { env with current := previous }

/-- Capture the current scope: it and the scopes around it outlive being left. -/
def capture (env : Environment) : ScopeId × Environment :=
  (env.current, { env with arena := env.arena.pin env.current })

/-- Begin a call, if the limit on nested calls allows one more. -/
def enterCall (limit : Option Nat) (env : Environment) : Except EvalError Environment :=
  match limit with
  | none => .ok { env with callDepth := env.callDepth + 1 }
  | some max =>
      if max ≤ env.callDepth then .error (.stackOverflow (env.callDepth + 1) max)
      else .ok { env with callDepth := env.callDepth + 1 }

def exitCall (env : Environment) : Environment :=
  { env with callDepth := env.callDepth - 1 }

def define (name : String) (value : Value) (env : Environment) : Environment :=
  { env with arena := env.arena.define env.current name value }

/-- The value of a name, looked for from the current scope outward. A scope on
the way that has been reclaimed is an error. -/
def resolve (name : String) (env : Environment) : Except EvalError (Option Value) :=
  match env.arena.lookup env.current name with
  | .found value => .ok (some value)
  | .unbound => .ok none
  | .dangling => .error .danglingScope

def get? (name : String) (env : Environment) : Option Value :=
  match env.arena.lookup env.current name with
  | .found value => some value
  | .unbound | .dangling => none

def contains (name : String) (env : Environment) : Bool :=
  (env.get? name).isSome

def currentBindings (env : Environment) : Entries String Value :=
  match env.arena.get? env.current with
  | some scope => scope.bindings
  | none => []

/-- Whether the name is bound in the current scope itself. -/
def containsHere (name : String) (env : Environment) : Bool :=
  (env.currentBindings.get? name).isSome

/-- The names bound in the current scope, in the order of their characters. -/
def namesHere (env : Environment) : List String :=
  env.currentBindings.keys.mergeSort fun a b => !decide (b < a)

/-- Free every scope that neither the root, nor the current scope, nor the given
values lead to, and count them. -/
def collectGarbage (values : List Value) (env : Environment) : Nat × Environment :=
  match env.arena.collect [env.root, env.current] values with
  | (freed, arena) => (freed, { env with arena })

end Environment
end Treewalk
