import Treewalk.CommandLine.Report

/-!
A working directory that holds plain files, as far as finding a file by its path
is concerned.
-/

namespace Treewalk

/-- The files of a directory, by name. -/
structure Directory where
  files : List (String × ByteArray)

namespace Directory

/-- The parts of a path between its slashes. -/
def parts (path : List Char) : List (List Char) :=
  path.splitOn '/'

/-- Whether a part of a path leads nowhere by itself. -/
def isStay (part : List Char) : Bool :=
  part = [] || part = ['.']

/-- Whether a part of a path is longer than names can be. -/
def isTooLong (part : List Char) : Bool :=
  255 < (String.ofList part).utf8ByteSize

/-- Follow the parts of a path that has left the directory, where no name is
known. -/
def followOutside (parts : List (List Char)) : ReadFailure :=
  match parts.find? fun part => !isStay part && part != ['.', '.'] with
  | none => .isADirectory
  | some part => if isTooLong part then .nameTooLong else .notFound

/-- Follow the parts of a path from the directory. A file has to be the last
part; a dot or nothing at all stays in the directory. -/
def follow (d : Directory) : List (List Char) → Except ReadFailure ByteArray
  | [] => .error .isADirectory
  | part :: rest =>
      if isStay part then follow d rest
      else if part = ['.', '.'] then .error (followOutside rest)
      else if isTooLong part then .error .nameTooLong
      else
        match d.files.find? fun file => file.1.toList = part, rest with
        | some file, [] => .ok file.2
        | some _, _ :: _ => .error .notADirectory
        | none, _ => .error .notFound

/-- Find the file at a path, which has less than 4096 bytes. A path that starts
with a slash leaves the directory. -/
def find (d : Directory) (path : List Char) : Except ReadFailure ByteArray :=
  if 4096 ≤ (String.ofList path).utf8ByteSize then .error .nameTooLong
  else
    match path with
    | '/' :: rest => .error (followOutside (parts rest))
    | _ => d.follow (parts path)

def read (d : Directory) (path : String) : Except ReadFailure String :=
  match d.find path.toList with
  | .error e => .error e
  | .ok bytes =>
      match String.fromUTF8? bytes with
      | some text => .ok text
      | none => .error .notText

end Directory
end Treewalk
