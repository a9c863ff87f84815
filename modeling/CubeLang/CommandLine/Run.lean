import CubeLang.Analysis
import CubeLang.CommandLine.Arguments
import CubeLang.Config

/-!
# The command line

The command line analyzes one script. Its configuration comes from the environment, then from its
options; the script from its words or from a file, normalized. What it prints, the log lines it
writes and the code it ends with depend on nothing else, so they are a function of these.
-/

set_option autoImplicit false

namespace CubeLang.CommandLine

/-- Why a file cannot be read. -/
inductive FileFault where
  | missing
  | directory
  | illegalName

/-- The world as far as the command line looks at it: environment variables and files. -/
structure World where
  setting? : String → Option String
  file : String → Except FileFault String

/-- What ends the command line without an answer of its own. -/
inductive Failure where
  /-- The log level was set to nothing. -/
  | noLevel
  | unknownLevel (text : List Char)
  | file (fault : FileFault)
  | analysis (fault : Analysis.Fault)

/-- The text of a failure of the command line's own, if it has one. -/
def Failure.message? : Failure → Option String
  | .unknownLevel text => some ("Unknown level: " ++ String.ofList (Text.quoted text))
  | .file .illegalName => some "embedded null byte"
  | _ => none

/-- How the command line ends. -/
inductive Outcome where
  /-- The words make no sense, or ask for help; the texts for that are not part of the outcome. -/
  | usage (code : Nat)
  | finished (code : Nat) (output errors : String)
  | failed (failure : Failure)

/-- The environment variable of the log level. -/
def logLevelVariable : String := "CUBESCRIPT_LOG_LEVEL"

/-- The log levels and their ranks; events from the chosen rank on are shown. -/
def logLevels : List (String × Nat) := [
  ("CRITICAL", 50), ("FATAL", 50), ("ERROR", 40), ("WARN", 30), ("WARNING", 30), ("INFO", 20),
  ("DEBUG", 10), ("NOTSET", 0)]

/-- The rank of the log level chosen, which may be written in small letters. -/
def logRank (world : World) (a : Arguments) : Except Failure Nat :=
  let chosen := match a.logLevel with
    | .unset => some ((world.setting? logLevelVariable).getD "WARNING")
    | .nothing => none
    | .value text => some text
  match chosen with
  | none => .error .noLevel
  | some text =>
    let level := Text.upper text.toList
    match logLevels.find? fun l => l.1.toList = level with
    | some l => .ok l.2
    | none => .error (.unknownLevel level)

/-- The configuration: what the options give, and else what the environment gives. The environment
must make a configuration of its own even if the options leave nothing of it. -/
def config (world : World) (a : Arguments) : Except Config.Fault Config := do
  let base ← Config.ofEnvironment world.setting?
  let fixity ← match a.fixity.text? with
    | none => pure base.fixity
    | some text =>
      let name := String.ofList (Text.upper text.toList)
      match Fixity.ofName? name with
      | some f => pure f
      | none => throw (.unknownFixity name)
  let layerCount ← match a.layers with
    | .unset => pure base.layerCount
    | .nothing => throw .layerCount
    | .value n => pure n
  Config.checked { layerCount, fixity, macroSet := a.macros.text?.or base.macroSet }

/-- The text of a configuration fault; a name that is not known is put between quotes as a
whole. -/
def configText (fault : Config.Fault) : String :=
  let text := fault.message
  match fault with
  | .macroSet (.unknown _) => String.ofList (Text.quoted text.toList)
  | _ => text

/-- An error line. -/
def errorLine (text : String) : String := "error: " ++ text ++ "\n"

/-- The log lines of the events from a rank on. -/
def logLines (rank : Nat) (events : List Event) : String :=
  String.join ((events.filter fun e => rank ≤ e.level.rank).map fun e => e.line ++ "\n")

/-- The script to analyze, normalized; it may be in a file that cannot be read. -/
def scriptText (world : World) (a : Arguments) : Except FileFault String :=
  let text := match a.file.text? with
    | some path => world.file path
    | none => .ok (" ".intercalate a.script)
  text.map fun t => String.ofList (Text.normalize t.toList)

/-- What is printed about a script. -/
def report (visual : Bool) (a : Analysis) : String :=
  if visual then a.visualPermutation ++ "\n"
  else
    s!"Moves: {a.moveCount}\nOrder: {a.order}\nVisible order: {a.visibleOrder}\n"
      ++ a.permutation ++ "\n"

/-- Analyzes a script in the notation of a configuration. -/
def analyze (rank : Nat) (visual : Bool) (c : Config) (language : Notation) (script : String) :
    Outcome :=
  match (Analysis.ofScript script c.layerCount (some language) ∅).run {} with
  | .ok a m => .finished 0 (report visual a) (logLines rank m.events)
  | .error (.parse e) m =>
    .finished 1 "" (logLines rank m.events
      ++ errorLine s!"{e.message} (at {e.span.start}..{e.span.stop})")
  | .error fault _ => .failed (.analysis fault)

/-- Carries out a command line that asks for something. -/
def runArguments (world : World) (a : Arguments) : Outcome :=
  match logRank world a with
  | .error failure => .failed failure
  | .ok rank =>
    match (do let c ← config world a; return (c, ← c.toNotation) : Except Config.Fault _) with
    | .error fault => .finished 2 "" (errorLine (configText fault))
    | .ok (c, language) =>
      match scriptText world a with
      | .error fault => .failed (.file fault)
      | .ok script =>
        if script.isEmpty then .finished 2 "" (errorLine "empty script")
        else analyze rank a.visual c language script

/-- Carries out a command line. -/
def run (world : World) (words : List String) : Outcome :=
  match Arguments.parse words with
  | .error .help => .usage 0
  | .error .usage => .usage 2
  | .ok a => runArguments world a

end CubeLang.CommandLine
