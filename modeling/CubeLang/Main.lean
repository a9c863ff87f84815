import CubeLang.CommandLine.Run

/-!
# The program

Reads the environment and the file that the command line names, and prints what the command line
answers.
-/

set_option autoImplicit false

namespace CubeLang.CommandLine

/-- The value of each environment variable that the command line looks at. -/
def readSettings : IO (List (String × Option String)) :=
  [Config.layerVariable, Config.fixityVariable, Config.macroSetVariable, logLevelVariable].mapM
    fun name => return (name, ← IO.getEnv name)

/-- The text of the file that the words of a command line name, if it can be read. -/
def readFile (words : List String) : IO (Except FileFault String) := do
  match Arguments.parse words with
  | .ok { file := .value path, .. } =>
    try return .ok (← IO.FS.readFile path) catch _ => return .error .missing
  | _ => return .error .missing

/-- Carries out the command line; the answer is the code to end with. -/
def execute (words : List String) : IO UInt32 := do
  let settings ← readSettings
  let file ← readFile words
  let world : World := {
    setting? := fun name => (settings.find? fun v => v.1 = name).bind Prod.snd
    file := fun _ => file }
  match run world words with
  | .usage code => return code.toUInt32
  | .finished code output errors =>
    IO.eprint errors
    IO.print output
    return code.toUInt32
  | .failed failure =>
    IO.eprintln (failure.message?.getD "failed")
    return 1

end CubeLang.CommandLine

/-- The program. -/
def main (words : List String) : IO UInt32 :=
  CubeLang.CommandLine.execute words
