import Treewalk.Session
import Treewalk.Text.Decimal

/-!
The command line. Arguments are options, by name, or the script, by place; they
are read from left to right, and the first fault or request for information ends
the reading.
-/

namespace Treewalk

/-- What the arguments ask for. -/
structure Options where
  /-- the script to run, or none for the shell -/
  script : Option String := none
  mode : Option Mode := none
  maxCallDepth : Option Nat := none
  noBanner : Bool := false

/-- Why the arguments do not lead to a run. -/
inductive Refusal where
  | version
  | help
  | usage
deriving DecidableEq

namespace Mode

def ofName? : String → Option Mode
  | "eval" => some eval
  | "parse" => some parse
  | "lex" => some lex
  | _ => none

end Mode

namespace Options

/-- The number a text stands for, if a machine word can hold it. A plus sign may
stand before it. -/
def count? (text : String) : Option Nat :=
  let digits := match text.toList with
    | '+' :: rest => rest
    | all => all
  match Text.Decimal.toNat? (String.ofList digits) with
  | some n => if n ≤ 0xffffffffffffffff then some n else none
  | none => none

/-- Take an argument by its place. There is one place, and nothing empty fits. -/
def takePlaced (arg : String) (o : Options) : Except Refusal Options :=
  if o.script.isNone && arg != "" then .ok { o with script := some arg } else .error .usage

/-- Take a mode, which is given at most once. -/
def takeMode (value : String) (o : Options) : Except Refusal Options :=
  match o.mode, Mode.ofName? value with
  | none, some mode => .ok { o with mode := some mode }
  | _, _ => .error .usage

/-- Take a limit on nested calls, which is given at most once. -/
def takeMaxCallDepth (value : String) (o : Options) : Except Refusal Options :=
  match o.maxCallDepth, count? value with
  | none, some n => .ok { o with maxCallDepth := some n }
  | _, _ => .error .usage

/-- An argument that can be no value: an option, or the mark that ends options. -/
def isOption (arg : String) : Bool :=
  match arg.toList with
  | '-' :: _ :: _ => true
  | _ => false

/-- An argument of two dashes and a name, split at the first equals sign. -/
def splitLong? (arg : String) : Option (String × Option String) :=
  match arg.toList with
  | '-' :: '-' :: rest =>
      let name := String.ofList (rest.takeWhile (· != '='))
      match rest.dropWhile (· != '=') with
      | [] => some (name, none)
      | _ :: value => some (name, some (String.ofList value))
  | _ => none

/-- What the next argument can be. -/
inductive Expected where
  | anything
  /-- a mode, for the option before it -/
  | mode
  /-- a limit on nested calls, for the option before it -/
  | maxCallDepth
  /-- nothing but an argument taken by its place -/
  | placed

/-- Read an argument of one dash and letters. The first letter decides, since
each asks for information or is at fault. -/
def readShort (letter : Char) : Refusal :=
  if letter = 'h' then .help else if letter = 'V' then .version else .usage

/-- Read an argument of two dashes and a name, perhaps with a value. -/
def readLong (name : String) (value : Option String) (o : Options) :
    Except Refusal (Expected × Options) :=
  match name, value with
  | "", none => .ok (.placed, o)
  | "help", none => .error .help
  | "version", none => .error .version
  | "no-banner", none =>
      if o.noBanner then .error .usage else .ok (.anything, { o with noBanner := true })
  | "mode", none => .ok (.mode, o)
  | "mode", some value => (o.takeMode value).map (.anything, ·)
  | "max-call-depth", none => .ok (.maxCallDepth, o)
  | "max-call-depth", some value => (o.takeMaxCallDepth value).map (.anything, ·)
  | _, _ => .error .usage

/-- Read one argument where anything can stand. -/
def readArgument (arg : String) (o : Options) : Except Refusal (Expected × Options) :=
  match splitLong? arg with
  | some (name, value) => readLong name value o
  | none =>
      match arg.toList with
      | '-' :: letter :: _ => .error (readShort letter)
      | _ => (o.takePlaced arg).map (.anything, ·)

/-- Read one argument, given what it can be. -/
def step (arg : String) (o : Options) : Expected → Except Refusal (Expected × Options)
  | .anything => readArgument arg o
  | .placed => (o.takePlaced arg).map (.placed, ·)
  | .mode => if isOption arg then .error .usage else (o.takeMode arg).map (.anything, ·)
  | .maxCallDepth =>
      if isOption arg then .error .usage else (o.takeMaxCallDepth arg).map (.anything, ·)

def readFrom : List String → Expected → Options → Except Refusal Options
  | [], .mode, _ | [], .maxCallDepth, _ => .error .usage
  | [], _, o => .ok o
  | arg :: rest, expected, o =>
      match step arg o expected with
      | .ok (next, o) => readFrom rest next o
      | .error e => .error e

def read (args : List String) : Except Refusal Options :=
  readFrom args .anything {}

/-- The session that is asked for, given how it is to write tokens. -/
def session (o : Options) (encode : Token → String) : Session :=
  ⟨o.mode.getD .eval, { maxCallDepth := o.maxCallDepth }, !o.noBanner, encode⟩

end Options
end Treewalk
