import CubeLang.MacroSet
import CubeLang.Notation.Default
import CubeLang.Text.Integer
import CubeLang.Text.Uppercase

/-!
# Configurations

A configuration chooses the layer count, where the signs of cycles stand and perhaps a macro set.
It can be read from environment variables, and gives the notation to read scripts in.
-/

set_option autoImplicit false

namespace CubeLang

/-- A choice of layer count, fixity of cycles, and macro set. -/
structure Config where
  layerCount : Int := 3
  fixity : Fixity := .precircumfixed
  macroSet : Option String := none

namespace Config

/-- Why there is no configuration or no notation for it. -/
inductive Fault where
  | layerCount
  | fixity
  | emptyMacroSet
  | layerText (text : List Char)
  | fixityText (text : List Char)
  | unknownFixity (text : String)
  | language (fault : Notation.Fault)
  | macroSet (fault : MacroSet.Fault)

/-- The layer counts to choose from. -/
def layerCounts : List Int := [2, 3, 4, 5, 6, 7]

/-- The fixities of cycles to choose from. -/
def fixities : List Fixity := [.prefixed, .suffixed, .precircumfixed, .postcircumfixed]

/-- The first fault of a configuration. -/
def fault? (c : Config) : Option Fault :=
  if !layerCounts.contains c.layerCount then some .layerCount
  else if !fixities.contains c.fixity then some .fixity
  else match c.macroSet with
    | none => none
    | some name => if MacroSet.isBlankText name then some .emptyMacroSet else none

/-- A configuration, if it has no fault. -/
def checked (c : Config) : Except Fault Config :=
  match c.fault? with
  | some fault => .error fault
  | none => .ok c

/-- The names of the environment variables. -/
def layerVariable : String := "CUBESCRIPT_LAYER_COUNT"

/-- The variable of the fixity of cycles. -/
def fixityVariable : String := "CUBESCRIPT_PERMUTATION_SYNTAX"

/-- The variable of the macro set. -/
def macroSetVariable : String := "CUBESCRIPT_MACRO_SET"

/-- The configuration that environment variables make. A variable that is not set or blank leaves
the usual choice; fixities may be written in small letters. -/
def ofEnvironment (get : String → Option String) : Except Fault Config := do
  let stripped (name : String) : List Char := Text.strip ((get name).getD "").toList
  let layers := stripped layerVariable
  let fixityText := Text.upper (stripped fixityVariable)
  let macros := stripped macroSetVariable
  let layerCount ←
    if layers.isEmpty then pure 3
    else match Text.Integer.parse? layers with
      | some n => pure n
      | none => throw (.layerText layers)
  let fixity ←
    if fixityText.isEmpty then pure .precircumfixed
    else match Fixity.ofName? (String.ofList fixityText) with
      | some f => pure f
      | none => throw (.fixityText fixityText)
  let macroSet := if macros.isEmpty then none else some (String.ofList macros)
  checked { layerCount, fixity, macroSet }

/-- The built-in notation as a configuration wants it. With the sign of a cycle in front, a minus
sign behind a statement would invert it, so it is no inversion then. -/
def toNotation (c : Config) : Except Fault Notation :=
  match Notation.default c.layerCount with
  | .error fault => .error (.language fault)
  | .ok n =>
    let n := { n with fixities := n.fixities.put .permutation c.fixity }
    let n := if c.fixity = .prefixed then n.unbind .inversionOperator "-" else n
    match c.macroSet with
    | none => .ok n
    | some name =>
      match MacroSet.find name with
      | .error fault => .error (.macroSet fault)
      | .ok s =>
        let add (n : Notation) (m : String × String) : Notation :=
          { n.bind .macroName m.1 with macros := n.macros.put m.1 m.2 }
        .ok (s.macros.foldl add n)

/-- The text of a name that is no fixity. -/
def unknownFixityText (text : String) : String :=
  String.ofList (Text.quoted text.toList) ++ " is not a valid Syntax"

/-- The text of a fault. -/
def Fault.message : Fault → String
  | .layerCount =>
    "layer_count must be one of (" ++ ", ".intercalate (layerCounts.map toString) ++ ")"
  | .fixity =>
    "permutation_syntax must be one of: " ++ ", ".intercalate (fixities.map Fixity.name)
  | .emptyMacroSet => "macro_set must be non-empty when provided"
  | .layerText text =>
    layerVariable ++ " must be an integer, got " ++ String.ofList (Text.quoted text)
  | .fixityText text =>
    fixityVariable ++ " is not a syntax: " ++ String.ofList (Text.quoted text)
  | .unknownFixity text => unknownFixityText text
  | .language fault => fault.message
  | .macroSet fault => fault.message

end Config

end CubeLang
