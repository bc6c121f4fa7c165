/-!
Tables of numbers as closed ranges that ascend, so that the search in a table can
stop at the first range beyond the number.
-/

namespace Treewalk
namespace Text

abbrev Ranges := List (Nat × Nat)

namespace Ranges

/-- Whether a number lies in one of the ranges, which have to ascend. -/
def contains : Ranges → Nat → Bool
  | [], _ => false
  | (first, last) :: rest, n =>
      if n < first then false else n ≤ last || contains rest n

end Ranges
end Text
end Treewalk
