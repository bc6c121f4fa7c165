import Treewalk.Session

/-!
The shell: a session that is fed lines. It greets, answers one line after
another, passes over blank ones, and ends at a line that says so or when the
lines end. What is typed comes through an editor of lines, which is not part of
the shell.
-/

namespace Treewalk

/-- A session with the machine its lines run on. -/
structure Shell where
  session : Session
  machine : Machine
  /-- the line that typing comes to, if the editor does not fail -/
  edit : String → Option String

/-- What a line does to the shell. -/
inductive ShellStep where
  | done
  /-- the shell has written this and goes on -/
  | next (output : String) (shell : Shell)

namespace Shell

/-- A shell in which no line has run. -/
def start (session : Session) (edit : String → Option String) : Shell :=
  ⟨session, .initial, edit⟩

/-- The first words of the shell, to the user of that name. -/
def greeting (user : Option String) : String :=
  "Hello " ++ user.getD "there" ++ "! This is the Monkey programming language!\n" ++
    "Feel free to type in commands\n"

/-- Answer a line as it has been edited. What the program prints comes before its
result. -/
def feedEdited (line : String) (sh : Shell) : Option ShellStep :=
  let input := Text.trim line
  if input = "" then some (.next "" sh)
  else if input = "exit" ∨ input = "quit" then some .done
  else
    match sh.session.run input { sh.machine with printed := "" } with
    | none => none
    | some (response, machine) =>
        some (.next (machine.printed ++ response.written) { sh with machine })

/-- Answer what is typed as a line. -/
def feed (typed : String) (sh : Shell) : Option ShellStep :=
  match sh.edit typed with
  | none => none
  | some line => sh.feedEdited line

/-- All that is written in answer to what is typed. -/
def feedAll : List String → Shell → Option String
  | [], _ => some ""
  | typed :: rest, sh =>
      match sh.feed typed with
      | none => none
      | some .done => some ""
      | some (.next output after) => (feedAll rest after).map (output ++ ·)

end Shell
end Treewalk
