import Treewalk.Text.Cluster

/-!
Backspaces in a line of input: the editor of lines that the command's shell is
given. A backspace takes back the cluster typed before it, if there is one. The
length of each cluster is kept in a byte: of a cluster of 256 bytes or more only
what is beyond the multiples of 256 is taken back.
-/

namespace Treewalk
namespace Text

def backspace : Char := '\x08'

/-- Take bytes away from the front of characters, if no character is cut in two. -/
def dropBytes? : Nat → List Char → Option (List Char)
  | 0, text => some text
  | _ + 1, [] => none
  | n + 1, c :: cs =>
      if c.utf8Size ≤ n + 1 then dropBytes? (n + 1 - c.utf8Size) cs else none

/-- What has been typed of a line: the characters, and the lengths of clusters as
they are kept, both with the last one first. -/
structure TypedLine where
  typed : List Char
  lengths : List Nat

namespace TypedLine

/-- Type a cluster. There is no outcome if a character would be cut in two. -/
def type (line : TypedLine) (cluster : List Char) : Option TypedLine :=
  if cluster = [backspace] then
    match line.lengths with
    | [] => some line
    | length :: lengths => (dropBytes? length line.typed).map (⟨·, lengths⟩)
  else
    let length := (String.ofList cluster).utf8ByteSize % 256
    some ⟨cluster.reverse ++ line.typed, length :: line.lengths⟩

def typeAll : List (List Char) → TypedLine → Option TypedLine
  | [], line => some line
  | cluster :: rest, line =>
      match line.type cluster with
      | none => none
      | some after => typeAll rest after

end TypedLine

/-- What a line comes to when its backspaces are obeyed. -/
def obeyBackspaces (text : String) : Option String :=
  if backspace ∈ text.toList then
    (TypedLine.typeAll (clusters text.toList) ⟨[], []⟩).map fun line =>
      String.ofList line.typed.reverse
  else some text

end Text
end Treewalk
