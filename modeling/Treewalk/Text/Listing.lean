/-!
Texts one after another: in a row, with a comma and a space between them, or each
on a line of its own.
-/

namespace Treewalk
namespace Text

def listing : List String → String
  | [] => ""
  | [s] => s
  | s :: rest => s ++ ", " ++ listing rest

/-- The texts in order, each ended by a line break. -/
def lines : List String → String
  | [] => ""
  | s :: rest => s ++ "\n" ++ lines rest

end Text
end Treewalk
