import Treewalk.Entries
import Treewalk.Syntax

/-!
The values of the language. Integers have 64 bits; a hash keeps its keys in the
order of their first putting; a function carries the scope it was made in and an
identity of its own. Integers, booleans and strings can be keys of a hash.
-/

namespace Treewalk

/-- The name of a scope: a slot, and which of its successive scopes is meant. -/
structure ScopeId where
  index : Nat
  generation : Nat
deriving DecidableEq

/-- The functions that are there from the start. -/
inductive Builtin where
  | len
  | first
  | last
  | rest
  | push
  | puts
deriving DecidableEq

namespace Builtin

def name : Builtin → String
  | len => "len"
  | first => "first"
  | last => "last"
  | rest => "rest"
  | push => "push"
  | puts => "puts"

def all : List Builtin :=
  [len, first, last, rest, push, puts]

def ofName? (name : String) : Option Builtin :=
  all.find? fun b => b.name == name

/-- The number of arguments the builtin takes, if it is fixed. -/
def arity? : Builtin → Option Nat
  | len | first | last | rest => some 1
  | push => some 2
  | puts => none

end Builtin

/-- A function made by a program: its parameters and body, the scope in which it
was made, and its identity among all functions made so far. -/
structure Function where
  parameters : List String
  body : Block
  scope : ScopeId
  identity : Nat

namespace Function

def arity (f : Function) : Nat :=
  f.parameters.length

end Function

/-- A value that can be a key of a hash. -/
inductive HashKey where
  | integer (value : Int64)
  | boolean (value : Bool)
  | string (value : String)
deriving DecidableEq

inductive Value where
  | integer (value : Int64)
  | boolean (value : Bool)
  | string (value : String)
  | null
  | array (items : List Value)
  | hash (entries : List (HashKey × Value))
  | function (f : Function)
  | builtin (b : Builtin)
  /-- what is left of a failed evaluation: its message -/
  | error (message : String)

inductive ValueType where
  | integer
  | boolean
  | string
  | null
  | array
  | hash
  | function
  | builtin
  | error
deriving DecidableEq

namespace ValueType

def name : ValueType → String
  | integer => "INTEGER"
  | boolean => "BOOLEAN"
  | string => "STRING"
  | null => "NULL"
  | array => "ARRAY"
  | hash => "HASH"
  | function => "FUNCTION"
  | builtin => "BUILTIN"
  | error => "ERROR"

end ValueType

namespace HashKey

/-- The key that a value makes, if it can be one. -/
def ofValue? : Value → Option HashKey
  | .integer n => some (integer n)
  | .boolean b => some (boolean b)
  | .string s => some (string s)
  | _ => none

/-- The value that the key was made from. -/
def toValue : HashKey → Value
  | integer n => .integer n
  | boolean b => .boolean b
  | string s => .string s

@[simp] theorem ofValue?_toValue (k : HashKey) : ofValue? k.toValue = some k := by
  cases k <;> rfl

theorem toValue_of_ofValue? {v : Value} {k : HashKey} (h : ofValue? v = some k) :
    k.toValue = v := by
  cases v <;> simp only [ofValue?, Option.some.injEq, reduceCtorEq] at h <;>
    subst h <;> rfl

end HashKey

namespace Value

def type : Value → ValueType
  | integer _ => .integer
  | boolean _ => .boolean
  | string _ => .string
  | null => .null
  | array _ => .array
  | hash _ => .hash
  | function _ => .function
  | builtin _ => .builtin
  | error _ => .error

/-- What a condition takes for true: everything but `false` and `null`. -/
def isTruthy : Value → Bool
  | boolean b => b
  | null => false
  | _ => true

def isNull : Value → Bool
  | null => true
  | _ => false

def isError : Value → Bool
  | error _ => true
  | _ => false

def isCallable : Value → Bool
  | function _ | builtin _ => true
  | _ => false

def integer? : Value → Option Int64
  | integer n => some n
  | _ => none

def boolean? : Value → Option Bool
  | boolean b => some b
  | _ => none

def string? : Value → Option String
  | string s => some s
  | _ => none

def array? : Value → Option (List Value)
  | array items => some items
  | _ => none

def error? : Value → Option String
  | error message => some message
  | _ => none

/-- The hash that results from putting pairs one after another. -/
def hashOfPairs (pairs : List (HashKey × Value)) : Value :=
  hash (pairs.foldl (fun entries (k, v) => Entries.put k v entries) [])

end Value
end Treewalk
