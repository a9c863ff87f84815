import CubeLang.Analysis
import CubeLang.CommandLine.Arguments
import CubeLang.CommandLine.Run
import CubeLang.Config
import CubeLang.Cube.Arrangement
import CubeLang.Cube.Basic
import CubeLang.Cube.CycleText
import CubeLang.Cube.Cycles
import CubeLang.Cube.Order
import CubeLang.Cube.Part
import CubeLang.Cube.PartCycle
import CubeLang.Cube.Turn
import CubeLang.Geometry.Face
import CubeLang.Geometry.Vector
import CubeLang.Grammar.Affixes
import CubeLang.Grammar.Basic
import CubeLang.Grammar.Expression
import CubeLang.Grammar.Parse
import CubeLang.Grammar.ParseError
import CubeLang.Grammar.Permutation
import CubeLang.Grammar.Statement
import CubeLang.LayerMask
import CubeLang.Log
import CubeLang.MacroSet
import CubeLang.Main
import CubeLang.Move
import CubeLang.Notation.Basic
import CubeLang.Notation.Default
import CubeLang.Proofs.Analysis
import CubeLang.Proofs.CommandLine.Outcome
import CubeLang.Proofs.CommandLine.Overriding
import CubeLang.Proofs.Config
import CubeLang.Proofs.Control
import CubeLang.Proofs.Cube.Composition
import CubeLang.Proofs.Cube.Conjugation
import CubeLang.Proofs.Cube.Conservation
import CubeLang.Proofs.Cube.Core
import CubeLang.Proofs.Cube.Cycle
import CubeLang.Proofs.Cube.CycleBounds
import CubeLang.Proofs.Cube.CycleBuilding
import CubeLang.Proofs.Cube.CycleText
import CubeLang.Proofs.Cube.Decomposition
import CubeLang.Proofs.Cube.LayerAngles
import CubeLang.Proofs.Cube.MarkedCycles
import CubeLang.Proofs.Cube.Mirror
import CubeLang.Proofs.Cube.Order
import CubeLang.Proofs.Cube.Parity
import CubeLang.Proofs.Cube.PartCycle
import CubeLang.Proofs.Cube.PartName
import CubeLang.Proofs.Cube.Period
import CubeLang.Proofs.Cube.RigidBody
import CubeLang.Proofs.Cube.States
import CubeLang.Proofs.Cube.Stickers
import CubeLang.Proofs.Cube.Turn
import CubeLang.Proofs.Cube.TurnBuilding
import CubeLang.Proofs.Cube.TwistSum
import CubeLang.Proofs.Cube.VisualText
import CubeLang.Proofs.Geometry.GrownOffsets
import CubeLang.Proofs.Geometry.Offset
import CubeLang.Proofs.Geometry.Opposite
import CubeLang.Proofs.Geometry.Position
import CubeLang.Proofs.Geometry.Rotation
import CubeLang.Proofs.Geometry.Twist
import CubeLang.Proofs.Grammar.AffixRelocation
import CubeLang.Proofs.Grammar.AffixSuccess
import CubeLang.Proofs.Grammar.BareExpression
import CubeLang.Proofs.Grammar.BuiltIn
import CubeLang.Proofs.Grammar.ConfinedCycles
import CubeLang.Proofs.Grammar.ConfinedScripts
import CubeLang.Proofs.Grammar.CycleDerivation
import CubeLang.Proofs.Grammar.CycleLockstep
import CubeLang.Proofs.Grammar.CycleReading
import CubeLang.Proofs.Grammar.CycleRelocation
import CubeLang.Proofs.Grammar.CycleSpelling
import CubeLang.Proofs.Grammar.Derivation
import CubeLang.Proofs.Grammar.ErrorCauses
import CubeLang.Proofs.Grammar.ExpressionRelocation
import CubeLang.Proofs.Grammar.ExpressionSuccess
import CubeLang.Proofs.Grammar.FirstToken
import CubeLang.Proofs.Grammar.FlatText
import CubeLang.Proofs.Grammar.GroupedText
import CubeLang.Proofs.Grammar.Grouping
import CubeLang.Proofs.Grammar.InsertedBlanks
import CubeLang.Proofs.Grammar.InsertedComments
import CubeLang.Proofs.Grammar.Leaves
import CubeLang.Proofs.Grammar.LegalScripts
import CubeLang.Proofs.Grammar.Lexicon
import CubeLang.Proofs.Grammar.Lockstep
import CubeLang.Proofs.Grammar.MacroBodies
import CubeLang.Proofs.Grammar.MacroMemory
import CubeLang.Proofs.Grammar.MacroNesting
import CubeLang.Proofs.Grammar.MarkedNumbers
import CubeLang.Proofs.Grammar.Marks
import CubeLang.Proofs.Grammar.Meaning
import CubeLang.Proofs.Grammar.MeaningfulTokens
import CubeLang.Proofs.Grammar.MoveReading
import CubeLang.Proofs.Grammar.MoveSpelling
import CubeLang.Proofs.Grammar.NormalizedText
import CubeLang.Proofs.Grammar.Opening
import CubeLang.Proofs.Grammar.PartPieces
import CubeLang.Proofs.Grammar.PartReading
import CubeLang.Proofs.Grammar.ReaderRelation
import CubeLang.Proofs.Grammar.ReadingAlike
import CubeLang.Proofs.Grammar.RoundTrip
import CubeLang.Proofs.Grammar.SameLexemes
import CubeLang.Proofs.Grammar.SameTexts
import CubeLang.Proofs.Grammar.ScriptPlaces
import CubeLang.Proofs.Grammar.ScriptTexts
import CubeLang.Proofs.Grammar.Signed
import CubeLang.Proofs.Grammar.StateReading
import CubeLang.Proofs.Grammar.StateSpelling
import CubeLang.Proofs.Grammar.StatementReading
import CubeLang.Proofs.Grammar.SuffixRoundTrip
import CubeLang.Proofs.Grammar.SuffixedText
import CubeLang.Proofs.Grammar.Suffixes
import CubeLang.Proofs.Grammar.TextReading
import CubeLang.Proofs.Grammar.VisualRoundTrip
import CubeLang.Proofs.Grammar.Yield
import CubeLang.Proofs.LayerMask
import CubeLang.Proofs.Move
import CubeLang.Proofs.Notation.Built
import CubeLang.Proofs.Notation.Calls
import CubeLang.Proofs.Notation.Configured
import CubeLang.Proofs.Notation.Consistency
import CubeLang.Proofs.Notation.Default
import CubeLang.Proofs.Notation.DistinctTokens
import CubeLang.Proofs.Notation.FailedCalls
import CubeLang.Proofs.Notation.LayerGroups
import CubeLang.Proofs.Notation.MacroTokens
import CubeLang.Proofs.Notation.MoveTokens
import CubeLang.Proofs.Notation.NamedLayers
import CubeLang.Proofs.Notation.Registration
import CubeLang.Proofs.Notation.Registry
import CubeLang.Proofs.Script.Action
import CubeLang.Proofs.Script.Calls
import CubeLang.Proofs.Script.ConjugateOrder
import CubeLang.Proofs.Script.Effect
import CubeLang.Proofs.Script.Flattening
import CubeLang.Proofs.Script.Inverse
import CubeLang.Proofs.Script.InverseMoves
import CubeLang.Proofs.Script.Legal
import CubeLang.Proofs.Script.Nesting
import CubeLang.Proofs.Script.OppositeRuns
import CubeLang.Proofs.Script.Order
import CubeLang.Proofs.Script.ReflectedMoves
import CubeLang.Proofs.Script.Reflection
import CubeLang.Proofs.Script.Relocation
import CubeLang.Proofs.Script.RunRelation
import CubeLang.Proofs.Table
import CubeLang.Proofs.Text.Condensed
import CubeLang.Proofs.Text.Integer
import CubeLang.Proofs.Token.Boundaries
import CubeLang.Proofs.Token.Brackets
import CubeLang.Proofs.Token.CondensedText
import CubeLang.Proofs.Token.Continuation
import CubeLang.Proofs.Token.CursorCalls
import CubeLang.Proofs.Token.InsertedComments
import CubeLang.Proofs.Token.LongestMatch
import CubeLang.Proofs.Token.Places
import CubeLang.Proofs.Token.Progress
import CubeLang.Proofs.Token.Relocation
import CubeLang.Proofs.Token.Setup
import CubeLang.Proofs.Token.Spelling
import CubeLang.Proofs.Token.Trie
import CubeLang.Proofs.Token.UnreadableNumbers
import CubeLang.Script.Affix
import CubeLang.Script.Basic
import CubeLang.Script.Kind
import CubeLang.Script.Run
import CubeLang.Script.Span
import CubeLang.Symbol
import CubeLang.Table
import CubeLang.Text.Blank
import CubeLang.Text.DecimalDigit
import CubeLang.Text.Integer
import CubeLang.Text.Printable
import CubeLang.Text.Quoted
import CubeLang.Text.Uppercase
import CubeLang.Token.Basic
import CubeLang.Token.Cursor
import CubeLang.Token.Lexicon
import CubeLang.Token.Tokenizer
import CubeLang.Token.Trie
