import Treewalk.Value.Inspect

/-!
What can end an evaluation early, and how it is said. A `return` on its way to
the call it ends travels like an error, but is none: it carries the value.
-/

namespace Treewalk

/-- Why an evaluation stopped before its end. -/
inductive EvalError where
  /-- the name is bound in no enclosing scope and is no builtin -/
  | undefinedName (name : String)
  /-- the operands have different types -/
  | typeMismatch (left : ValueType) (op : InfixOp) (right : ValueType)
  /-- the operator is not defined for an operand of this type -/
  | unknownPrefixOp (op : PrefixOp) (operand : ValueType)
  /-- the operator is not defined for operands of these types -/
  | unknownInfixOp (left : ValueType) (op : InfixOp) (right : ValueType)
  /-- something else than a function was called -/
  | notAFunction (callee : ValueType)
  | arityMismatch (expected found : Nat)
  /-- a value of this type has no elements to index in that way -/
  | notIndexable (collection : ValueType)
  /-- a value of this type cannot be a key of a hash -/
  | unusableKey (key : ValueType)
  | divisionByZero
  /-- the builtin does not take an argument of this type -/
  | unsupportedArgument (builtin : Builtin) (argument : ValueType)
  /-- one call more would exceed the limit on nested calls -/
  | stackOverflow (depth limit : Nat)
  | interrupted
  /-- a scope that is needed has been reclaimed -/
  | danglingScope
  /-- a return on its way to the call it ends -/
  | returning (value : Value)

namespace EvalError

def message : EvalError → String
  | undefinedName name => "identifier not found: " ++ name
  | typeMismatch left op right =>
      "type mismatch: " ++ left.name ++ " " ++ op.symbol ++ " " ++ right.name
  | unknownPrefixOp op operand => "unknown operator: " ++ op.symbol ++ operand.name
  | unknownInfixOp left op right =>
      "unknown operator: " ++ left.name ++ " " ++ op.symbol ++ " " ++ right.name
  | notAFunction callee => "not a function: " ++ callee.name
  | arityMismatch expected found =>
      "wrong number of arguments. got=" ++ Text.Decimal.ofNat found ++ ", want=" ++
        Text.Decimal.ofNat expected
  | notIndexable collection => "index operator not supported: " ++ collection.name
  | unusableKey key => "unusable as hash key: " ++ key.name
  | divisionByZero => "division by zero"
  | unsupportedArgument .len argument =>
      "argument to `len` not supported, got " ++ argument.name
  | unsupportedArgument builtin argument =>
      "argument to `" ++ builtin.name ++ "` must be ARRAY, got " ++ argument.name
  | stackOverflow depth limit =>
      "stack overflow: call depth " ++ Text.Decimal.ofNat depth ++ " exceeds limit " ++
        Text.Decimal.ofNat limit
  | interrupted => "evaluation interrupted"
  | danglingScope => "dangling scope reference"
  | returning value =>
      "unhandled control flow: Return \x7b value: " ++ value.quoted ++ " \x7d"

/-- Whether this is a return on its way, not a failure. -/
def isReturn : EvalError → Bool
  | returning _ => true
  | _ => false

/-- What whoever runs a program sees: the value of a return, or an error value
with the text of the error. -/
def toValue : EvalError → Value
  | returning value => value
  | e => .error e.message

end EvalError
end Treewalk
