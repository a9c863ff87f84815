import CubeLang.Text.Blank
import CubeLang.Text.Quoted

/-!
# Macro sets

Named sets of macros to read scripts with. A set has a name and a script for each of its macros,
each macro once. The library comes with two sets, which are found by name or alias in any mixture
of small and capital letters.
-/

set_option autoImplicit false

namespace CubeLang

/-- Macros under a common name. -/
structure MacroSet where
  name : String
  macros : List (String × String)
  description : String := ""
  aliases : List String := []

namespace MacroSet

/-- Why a macro set cannot be made or found. -/
inductive Fault where
  | unnamed
  | unnamedMacro
  | emptyScript (identifier : String)
  | duplicate (identifier : String)
  | unknown (name : String)

/-- Whether a text holds nothing but blanks. -/
def isBlankText (text : String) : Bool := text.toList.all Text.isBlank

/-- The first fault of some macros; `seen` are the names of those before. -/
def macroFault? (seen : List String) : List (String × String) → Option Fault
  | [] => none
  | (identifier, script) :: rest =>
    if isBlankText identifier then some .unnamedMacro
    else if isBlankText script then some (.emptyScript identifier)
    else if seen.contains identifier then some (.duplicate identifier)
    else macroFault? (identifier :: seen) rest

/-- The first fault of a macro set. -/
def fault? (s : MacroSet) : Option Fault :=
  if isBlankText s.name then some .unnamed else macroFault? [] s.macros

/-- A macro set of some macros, if it has no fault. -/
def ofMacros (name : String) (macros : List (String × String)) : Except Fault MacroSet :=
  let s : MacroSet := { name, macros }
  match s.fault? with
  | some fault => .error fault
  | none => .ok s

/-- The sets that the library comes with. -/
def builtIn : List MacroSet := [
  { name := "Triggers"
    description := "Short move groups most algorithms are built from"
    macros := [
      ("sexy", "R U R' U'"),
      ("sledge", "R' F R F'"),
      ("hedge", "F R' F' R"),
      ("sune", "R U R' U R U2 R'"),
      ("antisune", "R U2 R' U' R U' R'")]
    aliases := ["basic"] },
  { name := "PLL"
    description := "Permutations of the last layer, written with triggers"
    macros := [
      ("sexy", "R U R' U'"),
      ("sledge", "R' F R F'"),
      ("tperm", "sexy R' F R2 U' R' U' R U R' F'"),
      ("jperm", "R U R' F' sexy R' F R2 U' R'"),
      ("yperm", "F R U' R' U' R U R' F' sexy sledge"),
      ("aperm", "R' F R' B2 R F' R' B2 R2")]
    aliases := ["permutations"] }]

/-- The names of the sets that the library comes with, in alphabetical order. -/
def names : List String :=
  (builtIn.map MacroSet.name).mergeSort fun a b => a ≤ b

/-- A name as it is looked up: small letters, no blanks at the ends. The sets have names without
other than plain letters, so only those need to be made small. -/
def key (name : String) : List Char :=
  (Text.strip name.toList).map Char.toLower

/-- The macro set of a name or alias. -/
def find (name : String) : Except Fault MacroSet :=
  match builtIn.find? fun s => (s.name :: s.aliases).any fun known => key known = key name with
  | some s => .ok s
  | none => .error (.unknown name)

/-- The text of a fault. -/
def Fault.message : Fault → String
  | .unnamed => "Macro set name must be non-empty"
  | .unnamedMacro => "Macro identifier must be non-empty"
  | .emptyScript identifier =>
    "Macro " ++ String.ofList (Text.quoted identifier.toList) ++ " must have a script"
  | .duplicate identifier => s!"Duplicate macro identifier: {identifier}"
  | .unknown name =>
    s!"Unknown macro set: {name}. Available macro sets: " ++ ", ".intercalate names

end MacroSet

end CubeLang
