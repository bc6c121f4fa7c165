import Treewalk.CommandLine
import Treewalk.Session.Shell

/-!
What a command leaves behind: its exit status and what it writes. A script is
read whole and run as one chunk; without a script the lines of the input are fed
to a shell.
-/

namespace Treewalk

/-- The exit status of a command and the two texts it writes. -/
structure Report where
  status : Nat
  output : String
  errors : String
deriving DecidableEq

/-- Why a script cannot be read. -/
inductive ReadFailure where
  | notFound
  | notADirectory
  | isADirectory
  | nameTooLong
  | notText
deriving DecidableEq

namespace ReadFailure

def reason : ReadFailure → String
  | notFound => "No such file or directory (os error 2)"
  | notADirectory => "Not a directory (os error 20)"
  | isADirectory => "Is a directory (os error 21)"
  | nameTooLong => "File name too long (os error 36)"
  | notText => "stream did not contain valid UTF-8"

end ReadFailure

/-- What a command finds around it. -/
structure Surroundings where
  readScript : String → Except ReadFailure String
  /-- how a token is written in a listing -/
  encode : Token → String
  /-- the line that typing comes to -/
  edit : String → Option String
  user : Option String
  /-- what is typed, line by line -/
  typed : List String

namespace Report

def help : String :=
  Text.lines
    ["The Monkey programming language",
      "",
      "Usage: monkey [OPTIONS] [SCRIPT]",
      "",
      "Arguments:",
      "  [SCRIPT]  Script to run instead of starting the REPL",
      "",
      "Options:",
      "      --mode <MODE>         Evaluate input, or only parse or tokenize it " ++
        "[default: eval] [possible values: eval, parse, lex]",
      "      --max-call-depth <N>  Abort with a stack overflow error past this many " ++
        "nested calls",
      "      --no-banner           Omit the monkey face above parse errors",
      "  -h, --help                Print help",
      "  -V, --version             Print version"]

/-- The report when the arguments do not lead to a run. -/
def ofRefusal : Refusal → Report
  | .version => ⟨0, "monkey 0.1.0\n", ""⟩
  | .help => ⟨0, help, ""⟩
  | .usage => ⟨2, "", "error: invalid arguments\n\nFor more information, try '--help'.\n"⟩

def ofReadFailure (path : String) (failure : ReadFailure) : Report :=
  ⟨1, "", "Error: unable to read script " ++ path ++ "\n\nCaused by:\n    " ++
    failure.reason ++ "\n"⟩

def ofScript (session : Session) (source : String) : Option Report :=
  match session.run source .initial with
  | none => none
  | some (response, machine) =>
      some ⟨if response.outcome = .success then 0 else 1,
        machine.printed ++ response.written, ""⟩

def ofLines (session : Session) (around : Surroundings) : Option Report :=
  match (Shell.start session around.edit).feedAll around.typed with
  | none => none
  | some output => some ⟨0, Shell.greeting around.user ++ output, ""⟩

def ofCommand (args : List String) (around : Surroundings) : Option Report :=
  match Options.read args with
  | .error refusal => some (ofRefusal refusal)
  | .ok options =>
      let session := options.session around.encode
      match options.script with
      | none => ofLines session around
      | some path =>
          match around.readScript path with
          | .error failure => some (ofReadFailure path failure)
          | .ok source => ofScript session source

end Report
end Treewalk
