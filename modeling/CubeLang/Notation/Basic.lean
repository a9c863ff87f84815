import CubeLang.Move
import CubeLang.Symbol
import CubeLang.Table

/-!
# Notations

A notation says which tokens stand for which symbols, which tokens name which moves, the fixity of
each composite symbol, and which macros there are. It is for cubes of one layer count. A token may
stand for several symbols, and a symbol may have several tokens, of which the earliest is the one
to write. Edits are steps that may fail; what a failing edit has already written stays written.
-/

set_option autoImplicit false

namespace CubeLang

/-- The tokens, moves, fixities and macros of a script language for one layer count. -/
structure Notation where
  layerCount : Nat
  two_le_layerCount : 2 ≤ layerCount := by omega
  /-- Whether the notation began as the built-in one. -/
  builtIn : Bool := false
  /-- Which token stands for which symbol, in the order in which it was said. -/
  bindings : List (Symbol × String) := []
  /-- The tokens that stand for some symbol, in the order in which they came to do so. -/
  tokens : List String := []
  /-- The tokens that name a move. -/
  moves : Table String Move := ∅
  /-- The fixities that were set. -/
  fixities : Table Symbol Fixity := ∅
  /-- The scripts of the macros. -/
  macros : Table String String := ∅

namespace Notation

/-- Why a notation cannot be made or edited. -/
inductive Fault where
  | tooFewLayers
  | emptyToken
  | move (fault : Move.Fault)

/-- The text of a fault. -/
def Fault.message : Fault → String
  | .tooFewLayers => "layer_count must be >= 2"
  | .emptyToken => "Token must be non-empty"
  | .move fault => fault.message

/-- The notation without tokens for a layer count, which must be at least two. -/
def empty (layerCount : Int) : Except Fault Notation :=
  if h : 2 ≤ layerCount then .ok { layerCount := layerCount.toNat }
  else .error .tooFewLayers

/-- The name of a notation: built in or not. -/
def name (n : Notation) : String :=
  if n.builtIn then "default" else "custom"

/-! ## Queries -/

/-- The tokens of a symbol, the earliest first. -/
def tokensFor (n : Notation) (s : Symbol) : List String :=
  (n.bindings.filter fun b => b.1 = s).map Prod.snd

/-- The symbols of a token, the earliest first. -/
def symbolsFor (n : Notation) (token : String) : List Symbol :=
  (n.bindings.filter fun b => b.2 = token).map Prod.fst

/-- The token that a symbol is written with. -/
def token? (n : Notation) (s : Symbol) : Option String :=
  (n.tokensFor s).head?

/-- The fixity of the composite that a symbol belongs to. -/
def fixity (n : Notation) (s : Symbol) : Fixity :=
  (n.fixities.get? s.composite).getD .primary

/-- Whether a symbol has a fixity of its own or a token. -/
def supports (n : Notation) (s : Symbol) : Bool :=
  n.fixities.contains s || !(n.tokensFor s).isEmpty

/-- The move that a token names. -/
def move? (n : Notation) (token : String) : Option Move :=
  n.moves.get? token

/-- The token that a move is written with: the earliest that names it. -/
def moveToken? (n : Notation) (m : Move) : Option String :=
  (n.moves.entries.find? fun e => e.2 = m).map Prod.fst

/-! ## Edits -/

/-- A step that changes a notation and may fail; the notation keeps what was written before. -/
abbrev Edit := EStateM Fault Notation Unit

/-- The notation in which a token stands for a symbol. -/
def bind (n : Notation) (s : Symbol) (token : String) : Notation :=
  { n with
    bindings := if n.bindings.contains (s, token) then n.bindings else n.bindings ++ [(s, token)]
    tokens := if n.tokens.contains token then n.tokens else n.tokens ++ [token] }

/-- The notation in which a token no longer stands for a symbol. A token that stood for nothing
else is gone, and one that no longer stands for a move names none. -/
def unbind (n : Notation) (s : Symbol) (token : String) : Notation :=
  let bindings := n.bindings.filter fun b => b ≠ (s, token)
  { n with
    bindings
    tokens := if bindings.any fun b => b.2 = token then n.tokens
      else n.tokens.filter fun t => t ≠ token
    moves := if s = .move then n.moves.erase token else n.moves }

/-- The notation in which a token names a move; a token that names one already keeps it. -/
def bindMove (n : Notation) (m : Move) (token : String) : Notation :=
  if n.moves.contains token then n
  else { n.bind .move token with moves := n.moves.put token m }

/-- Lets a token stand for a symbol. -/
def addToken (s : Symbol) (token : String) : Edit := do
  if token.isEmpty then throw .emptyToken
  modify fun n => n.bind s token

/-- Lets a token no longer stand for a symbol. -/
def removeToken (s : Symbol) (token : String) : Edit :=
  modify fun n => n.unbind s token

/-- Lets a token name a legal move, unless it names one already. -/
def addMove (m : Move) (token : String) : Edit := do
  if let some fault := m.fault? then throw (.move fault)
  let n ← get
  if n.moves.contains token then return
  if token.isEmpty then throw .emptyToken
  set (n.bindMove m token)

/-- Writes the script of a macro, then lets its name be a token. -/
def addMacro (identifier script : String) : Edit := do
  modify fun n => { n with macros := n.macros.put identifier script }
  addToken .macroName identifier

/-- Sets the fixity of a composite. -/
def setFixity (s : Symbol) (f : Fixity) : Edit :=
  modify fun n => { n with fixities := n.fixities.put s f }

end Notation

end CubeLang
