import CubeLang.Text.Integer

/-!
# Command line arguments

The words of a command line are options, the values of options, and the words of a script. An
option begins with a hyphen and may be shortened as long as it stays clear which one is meant; its
value follows it or an equals sign. Two hyphens behind an equals sign set an option to nothing. Two
hyphens alone end the options. The words of the script must stand together, and a script is given
either by them or by a file.
-/

set_option autoImplicit false

namespace CubeLang

/-- What an option with a value was set to: it was not set, or to nothing, or to a value. -/
inductive Setting (α : Type) where
  | unset
  | nothing
  | value (a : α)

namespace Setting

variable {α : Type}

/-- An option that was set, to nothing if there is no value. -/
def ofOption : Option α → Setting α
  | none => nothing
  | some a => value a

/-- Whether an option was set. -/
def isSet : Setting α → Bool
  | unset => false
  | _ => true

/-- The text that an option was set to, unless it is empty. -/
def text? : Setting String → Option String
  | value text => if text.isEmpty then none else some text
  | _ => none

end Setting

/-- What a command line asks for. -/
structure Arguments where
  script : List String := []
  file : Setting String := .unset
  layers : Setting Int := .unset
  fixity : Setting String := .unset
  macros : Setting String := .unset
  visual : Bool := false
  logLevel : Setting String := .unset

namespace Arguments

/-- Why a command line is not carried out: it asks for help, or it is wrong. -/
inductive Fault where
  | help
  | usage
deriving DecidableEq

/-- The options. -/
inductive Flag where
  | help | file | layers | fixity | macros | visual | logLevel
deriving DecidableEq

/-- Whether an option takes a value. -/
def Flag.takesValue : Flag → Bool
  | help | visual => false
  | _ => true

/-- The spellings of the options. -/
def spellings : List (String × Flag) := [
  ("-h", .help), ("--help", .help), ("--file", .file), ("--layers", .layers),
  ("--syntax", .fixity), ("--macros", .macros), ("--visual", .visual),
  ("--log-level", .logLevel)]

/-- A word of a command line. -/
inductive Word where
  | plain (text : String)
  | hyphens
  /-- An option, and what stands behind an equals sign in the same word. -/
  | option (flag : Flag) (attached : Option (List Char))
  /-- The short option that asks for help, and what else stands in the same word, without an
  equals sign in front of it. -/
  | cluster (more : List Char)
  | unknown

/-- The option of a spelling. -/
def flag? (text : List Char) : Option Flag :=
  (spellings.find? fun s => s.1.toList = text).map Prod.snd

/-- The text before the first equals sign and the text behind it, if there is one. -/
def splitEquals (text : List Char) : List Char × Option (List Char) :=
  match text.dropWhile fun c => c ≠ '=' with
  | [] => (text, none)
  | _ :: behind => (text.takeWhile fun c => c ≠ '=', some behind)

/-- Whether a text is a negative number, with or without a decimal point; a line feed may stand
behind it. -/
def isNegativeNumber (text : List Char) : Bool :=
  let isDigit (c : Char) : Bool := (Text.DecimalDigit.value? c).isSome
  match text with
  | '-' :: number =>
    let number := if number.getLast? = some '\n' then number.dropLast else number
    match number.dropWhile isDigit with
    | [] => !number.isEmpty
    | '.' :: places => !places.isEmpty && places.all isDigit
    | _ => false
  | _ => false

/-- What a word is, before it is known whether it is the value of an option. -/
def Word.ofText (text : List Char) : Except Fault Word :=
  let plain := Word.plain (String.ofList text)
  match text with
  | '-' :: 'h' :: '=' :: more => .ok (.cluster more)
  | '-' :: 'h' :: c :: more => .ok (.cluster (c :: more))
  | '-' :: second :: _ =>
    match flag? text, splitEquals text with
    | some flag, _ => .ok (.option flag none)
    | none, (name, attached) =>
      match if attached.isSome then flag? name else none with
      | some flag => .ok (.option flag attached)
      | none =>
        let candidates : List Word :=
          if second = '-' then
            (spellings.filter fun s => name.isPrefixOf s.1.toList).map fun s =>
              .option s.2 attached
          else []
        match candidates with
        | [word] => .ok word
        | _ :: _ => .error .usage
        | [] =>
          if isNegativeNumber text || text.contains ' ' then .ok plain else .ok .unknown
  | _ => .ok plain

/-- What the words of a command line are. -/
def classify : List String → Except Fault (List Word)
  | [] => .ok []
  | text :: rest =>
    if text = "--" then .ok (.hyphens :: rest.map .plain)
    else do
      let word ← Word.ofText text.toList
      let words ← classify rest
      return word :: words

/-- How far a command line was carried out: what it asks for, whether words of a script were met,
and whether there are words that belong nowhere. -/
structure Progress where
  arguments : Arguments := {}
  scriptMet : Bool := false
  extra : Bool := false

/-- The value that stands behind an equals sign; two hyphens are none. -/
def attachedValue (text : List Char) : Option String :=
  if text = ['-', '-'] then none else some (String.ofList text)

/-- Sets an option to a value or to nothing. -/
def Progress.setValue (p : Progress) (flag : Flag) (value : Option String) :
    Except Fault Progress :=
  let a := p.arguments
  match flag with
  | .file =>
    if a.script.isEmpty then .ok { p with arguments := { a with file := .ofOption value } }
    else .error .usage
  | .layers =>
    match value with
    | none => .ok { p with arguments := { a with layers := .nothing } }
    | some text =>
      match Text.Integer.parse? text.toList with
      | some n => .ok { p with arguments := { a with layers := .value n } }
      | none => .error .usage
  | .fixity => .ok { p with arguments := { a with fixity := .ofOption value } }
  | .macros => .ok { p with arguments := { a with macros := .ofOption value } }
  | .logLevel => .ok { p with arguments := { a with logLevel := .ofOption value } }
  | .help | .visual => .error .usage

/-- Sets an option without a value. -/
def Progress.set (p : Progress) (flag : Flag) (attached : Option (List Char)) :
    Except Fault Progress :=
  match flag, attached with
  | .visual, none => .ok { p with arguments := { p.arguments with visual := true } }
  | .help, none => .error .help
  | _, _ => .error .usage

/-- What comes of the letters in one word with the short option that asks for help: each `h` asks
again, and everything else is wrong. -/
def clusterFault (more : List Char) : Fault :=
  if !more.isEmpty && more.all fun c => c = 'h' then .help else .usage

/-- Whether a word is none of the options. -/
def Word.isArgument : Word → Bool
  | .plain _ | .hyphens => true
  | _ => false

/-- The texts of the words up to the next option, without the first pair of hyphens. -/
def scriptWords : List Word → List String
  | .plain text :: rest => text :: scriptWords rest
  | .hyphens :: rest => rest.filterMap fun
    | .plain text => some text
    | _ => none
  | _ => []

/-- Takes words up to the next option for the script, once. -/
def Progress.setScript (p : Progress) (words : List Word) : Except Fault Progress :=
  if p.scriptMet then .ok { p with extra := true }
  else
    let script := scriptWords words
    if !script.isEmpty && p.arguments.file.isSet then .error .usage
    else .ok { p with scriptMet := true, arguments := { p.arguments with script } }

/-- Carries out the words one after the other. -/
def carryOut (p : Progress) (words : List Word) : Except Fault Progress :=
  match words with
  | [] => .ok p
  | .unknown :: rest => carryOut { p with extra := true } rest
  | .cluster more :: _ => .error (clusterFault more)
  | .option flag attached :: rest =>
    if flag.takesValue then
      match attached with
      | some value => do
        let p ← p.setValue flag (attachedValue value)
        carryOut p rest
      | none =>
        match rest with
        | .plain value :: rest => do
          let p ← p.setValue flag (some value)
          carryOut p rest
        | _ => .error .usage
    else do
      let p ← p.set flag attached
      carryOut p rest
  | word :: rest => do
    let p ← p.setScript (word :: rest.takeWhile Word.isArgument)
    carryOut p (rest.dropWhile Word.isArgument)
termination_by words.length
decreasing_by
  · simp
  · simp
  · simp only [List.length_cons]
    omega
  · simp
  · exact Nat.lt_succ_of_le (List.dropWhile_suffix _).length_le

/-- What a command line asks for. It must have a script or a file. -/
def parse (words : List String) : Except Fault Arguments := do
  let words ← classify words
  let p ← carryOut {} words
  if p.extra then throw .usage
  if p.arguments.script.isEmpty && !p.arguments.file.isSet then throw .usage
  return p.arguments

end Arguments

end CubeLang
