import Treewalk.CommandLine.Report
import Treewalk.Text.Backspace
import Treewalk.Token.Json

/-!
The command itself: it reads the arguments, the script or the lines of its
input, and writes what the library answers.
-/

namespace Treewalk

/-- The exit status when calls nest beyond every allowance. -/
def exhaustedStatus : UInt32 := 134

def readScriptFile (path : String) : IO (Except ReadFailure String) := do
  try
    let bytes ← IO.FS.readBinFile path
    match String.fromUTF8? bytes with
    | some text => return .ok text
    | none => return .error .notText
  catch
    | .inappropriateType _ code _ =>
        return .error (if code = 20 then .notADirectory else .isADirectory)
    | .invalidArgument _ _ _ => return .error .nameTooLong
    | _ => return .error .notFound

def deliver : Option Report → IO UInt32
  | none => do
      IO.eprintln "stack overflow"
      return exhaustedStatus
  | some report => do
      IO.print report.output
      IO.eprint report.errors
      return UInt32.ofNat report.status

/-- Answer line after line until the shell or the input ends. -/
partial def converse (input output : IO.FS.Stream) (sh : Shell) : IO UInt32 := do
  let line ← input.getLine
  if line.isEmpty then
    return 0
  match sh.feed line with
  | none => deliver none
  | some .done => return 0
  | some (.next text after) =>
      output.putStr text
      output.flush
      converse input output after

end Treewalk

open Treewalk in
def main (args : List String) : IO UInt32 := do
  match Options.read args with
  | .error refusal => deliver (some (Report.ofRefusal refusal))
  | .ok options =>
      let session := options.session Token.jsonObject
      match options.script with
      | some path =>
          match ← readScriptFile path with
          | .error failure => deliver (some (Report.ofReadFailure path failure))
          | .ok source => deliver (Report.ofScript session source)
      | none =>
          IO.print (Shell.greeting (← IO.getEnv "USER"))
          converse (← IO.getStdin) (← IO.getStdout)
            (Shell.start session Text.obeyBackspaces)
