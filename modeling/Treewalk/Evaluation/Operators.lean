import Treewalk.Evaluation.Error

/-!
What operators, indices and builtins yield on values. Integer arithmetic wraps
around at 64 bits and division truncates toward zero. Only integers, strings,
booleans and `null` can be compared, each with its own kind.
-/

namespace Treewalk

namespace PrefixOp

def apply : PrefixOp → Value → Except EvalError Value
  | not, v => .ok (.boolean (!v.isTruthy))
  | negate, .integer n => .ok (.integer (-n))
  | negate, v => .error (.unknownPrefixOp negate v.type)

end PrefixOp

namespace InfixOp

def applyIntegers (op : InfixOp) (l r : Int64) : Except EvalError Value :=
  match op with
  | add => .ok (.integer (l + r))
  | subtract => .ok (.integer (l - r))
  | multiply => .ok (.integer (l * r))
  | divide => if r = 0 then .error .divisionByZero else .ok (.integer (l / r))
  | less => .ok (.boolean (decide (l < r)))
  | greater => .ok (.boolean (decide (r < l)))
  | equal => .ok (.boolean (l == r))
  | unequal => .ok (.boolean (l != r))

/-- The operator applied to operands of a type that can only be compared for
equality. -/
def applyEquality (op : InfixOp) (type : ValueType) (areEqual : Bool) :
    Except EvalError Value :=
  match op with
  | equal => .ok (.boolean areEqual)
  | unequal => .ok (.boolean (!areEqual))
  | _ => .error (.unknownInfixOp type op type)

def apply (op : InfixOp) (left right : Value) : Except EvalError Value :=
  match left, right with
  | .integer l, .integer r => op.applyIntegers l r
  | .string l, .string r =>
      if op = add then .ok (.string (l ++ r)) else op.applyEquality .string (l == r)
  | .boolean l, .boolean r => op.applyEquality .boolean (l == r)
  | .null, .null => op.applyEquality .null true
  | l, r =>
      if l.type = r.type then .error (.unknownInfixOp l.type op r.type)
      else .error (.typeMismatch l.type op r.type)

end InfixOp

namespace Value

/-- The element of a list at an index, `null` outside the list. -/
def elementAt (items : List Value) (i : Int64) : Value :=
  if i.toInt < 0 then null else (items[i.toInt.toNat]?).getD null

/-- The value under a key of a hash, `null` if there is none. -/
def entryAt (entries : List (HashKey × Value)) (key : HashKey) : Value :=
  (Entries.get? key entries).getD null

/-- The element of an array or a hash that an index selects. -/
def select (collection index : Value) : Except EvalError Value :=
  match collection, index with
  | .array items, .integer i => .ok (elementAt items i)
  | .hash entries, key =>
      match HashKey.ofValue? key with
      | some k => .ok (entryAt entries k)
      | none => .error (.unusableKey key.type)
  | v, _ => .error (.notIndexable v.type)

end Value

namespace Builtin

def apply (b : Builtin) (args : List Value) : Except EvalError Value :=
  match b, args with
  | len, [.string s] => .ok (.integer (Int64.ofNat s.utf8ByteSize))
  | len, [.array items] => .ok (.integer (Int64.ofNat items.length))
  | first, [.array items] => .ok (items.head?.getD .null)
  | last, [.array items] => .ok (items.getLast?.getD .null)
  | rest, [.array []] => .ok .null
  | rest, [.array (_ :: items)] => .ok (.array items)
  | push, [.array items, v] => .ok (.array (items ++ [v]))
  | puts, _ => .ok .null
  | len, [v] | first, [v] | last, [v] | rest, [v] | push, [v, _] =>
      .error (.unsupportedArgument b v.type)
  | _, _ => .error (.arityMismatch (b.arity?.getD 0) args.length)

/-- What calling the builtin prints: each argument on a line of its own. -/
def printed (b : Builtin) (args : List Value) : String :=
  match b with
  | puts => Text.lines (args.map Value.inspect)
  | _ => ""

end Builtin
end Treewalk
