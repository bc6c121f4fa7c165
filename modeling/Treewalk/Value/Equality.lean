import Treewalk.Value

/-!
Equality of values. Data is compared by content, a hash without regard to the
order of its keys, and a function by its identity.
-/

namespace Treewalk

mutual

def Value.same : Value → Value → Bool
  | .integer n, .integer m => n == m
  | .boolean b, .boolean c => b == c
  | .string s, .string t => s == t
  | .null, .null => true
  | .array xs, .array ys => sameItems xs ys
  | .hash es, .hash fs => es.length == fs.length && sameEntries es fs
  | .function f, .function g => f.identity == g.identity
  | .builtin b, .builtin c => b == c
  | .error m, .error n => m == n
  | _, _ => false
termination_by structural v => v

def sameItems : List Value → List Value → Bool
  | [], [] => true
  | x :: xs, y :: ys => x.same y && sameItems xs ys
  | _, _ => false
termination_by structural xs => xs

/-- Whether every entry of the first list has an equal value in the second. -/
def sameEntries : List (HashKey × Value) → List (HashKey × Value) → Bool
  | [], _ => true
  | (k, v) :: rest, fs =>
      (match Entries.get? k fs with
        | some w => v.same w
        | none => false) &&
      sameEntries rest fs
termination_by structural es => es

end

namespace Value

@[simp] theorem same_integer (n m : Int64) : (integer n).same (integer m) = (n == m) := rfl

@[simp] theorem same_boolean (b c : Bool) : (boolean b).same (boolean c) = (b == c) := rfl

@[simp] theorem same_string (s t : String) : (string s).same (string t) = (s == t) := rfl

@[simp] theorem same_null : null.same null = true := rfl

@[simp] theorem same_array (xs ys : List Value) :
    (array xs).same (array ys) = sameItems xs ys := rfl

@[simp] theorem same_hash (es fs : List (HashKey × Value)) :
    (hash es).same (hash fs) = (es.length == fs.length && sameEntries es fs) := rfl

@[simp] theorem same_function (f g : Function) :
    (function f).same (function g) = (f.identity == g.identity) := rfl

@[simp] theorem same_builtin (b c : Builtin) : (builtin b).same (builtin c) = (b == c) := rfl

@[simp] theorem same_error (m n : String) : (error m).same (error n) = (m == n) := rfl

/-- Only values of one type are equal. -/
theorem type_eq_of_same {v w : Value} (h : v.same w = true) : v.type = w.type := by
  cases v <;> cases w <;> first | rfl | cases h

end Value
end Treewalk
