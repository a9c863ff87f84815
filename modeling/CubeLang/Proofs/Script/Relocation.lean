import CubeLang.Grammar.ParseError
import CubeLang.Proofs.Token.Relocation
import CubeLang.Script.Affix
import Mathlib.Order.Monotone.Basic
import Mathlib.Order.MinMax

/-!
# Moving scripts to other offsets

When a text becomes a part of another one, the scripts that were read from it move to other offsets,
as its tokens do; nothing else about them changes. The spans in the body of a macro belong to the
macro's own text and stay as they are. A map of offsets that keeps their order can be applied before
or after spans are joined.
-/

set_option autoImplicit false

namespace CubeLang

variable {f : Nat → Nat}

/-- A span whose offsets were moved. -/
def Span.relocate (f : Nat → Nat) (s : Span) : Span := ⟨f s.start.toNat, f s.stop.toNat⟩

namespace Script

mutual

/-- A script whose offsets were moved, but for those in the bodies of macros. -/
def relocate (f : Nat → Nat) : Script → Script
  | move span m => move (span.relocate f) m
  | nop span => nop (span.relocate f)
  | sequence span children => sequence (span.relocate f) (relocateAll f children)
  | grouping span children => grouping (span.relocate f) (relocateAll f children)
  | repetition span count child => repetition (span.relocate f) count (child.relocate f)
  | inversion span child => inversion (span.relocate f) (child.relocate f)
  | reflection span child => reflection (span.relocate f) (child.relocate f)
  | conjugation span a b => conjugation (span.relocate f) (a.relocate f) (b.relocate f)
  | rotation span a b => rotation (span.relocate f) (a.relocate f) (b.relocate f)
  | commutation span a b => commutation (span.relocate f) (a.relocate f) (b.relocate f)
  | macroUse span identifier body => macroUse (span.relocate f) identifier body
  | permutation span cycle => permutation (span.relocate f) cycle

/-- The scripts of a list with their offsets moved. -/
def relocateAll (f : Nat → Nat) : List Script → List Script
  | [] => []
  | s :: rest => s.relocate f :: relocateAll f rest

end

theorem relocateAll_eq_map (f : Nat → Nat) (scripts : List Script) :
    relocateAll f scripts = scripts.map (relocate f) := by
  induction scripts with
  | nil => simp [relocateAll]
  | cons s scripts ih => simp [relocateAll, ih]

@[simp] theorem span_relocate (f : Nat → Nat) (s : Script) :
    (s.relocate f).span = s.span.relocate f := by
  cases s <;> simp [relocate, span]

end Script

@[simp] theorem Span.relocate_natCast (f : Nat → Nat) (start stop : Nat) :
    Span.relocate f ⟨start, stop⟩ = ⟨f start, f stop⟩ := by
  simp [relocate]

@[simp] theorem Token.span_relocate (f : Nat → Nat) (t : Token) :
    (t.relocate f).span = t.span.relocate f := by
  simp [span, relocate]

theorem Span.relocate_join (hf : Monotone f) (a b : Span) :
    (a.join b).relocate f = (a.relocate f).join (b.relocate f) := by
  have hmin : (min a.start b.start).toNat = min a.start.toNat b.start.toNat := by omega
  have hmax : (max a.stop b.stop).toNat = max a.stop.toNat b.stop.toNat := by omega
  simp only [relocate, join, hmin, hmax, hf.map_min, hf.map_max, mk.injEq]
  omega

/-- The larger of two offsets moves to the larger of where they move. -/
theorem Span.relocate_max (hf : Monotone f) (start : Int) (stop : Int) (k : Nat) :
    Span.relocate f ⟨start, max stop k⟩ =
      ⟨f start.toNat, max (f stop.toNat : Int) (f k : Nat)⟩ := by
  have hmax : (max stop (k : Int)).toNat = max stop.toNat k := by omega
  have hmoved : f (max stop.toNat k) = max (f stop.toNat) (f k) := hf.map_max
  simp only [relocate, hmax, hmoved, mk.injEq, true_and]
  omega

theorem BinaryKind.combine_relocate (k : BinaryKind) (span : Span) (a b : Script) :
    (k.combine span a b).relocate f =
      k.combine (span.relocate f) (a.relocate f) (b.relocate f) := by
  cases k <;> simp [combine, Script.relocate]

namespace Affix

/-- An affix whose offsets were moved. -/
def relocate (f : Nat → Nat) (a : Affix) : Affix where
  operation :=
    match a.operation with
    | .binary k operator => .binary k (operator.relocate f)
    | operation => operation
  span := a.span.relocate f

theorem wrap_relocate (hf : Monotone f) (a : Affix) (s : Script) :
    (a.relocate f).wrap (s.relocate f) = (a.wrap s).relocate f := by
  obtain ⟨operation, span⟩ := a
  cases operation with
  | binary k operator =>
    simp [relocate, wrap, BinaryKind.combine_relocate, Span.relocate_join hf]
  | _ => simp [relocate, wrap, Script.relocate, Span.relocate_join hf]

theorem foldr_wrap_relocate (hf : Monotone f) (affixes : List Affix) (s : Script) :
    (affixes.map (relocate f)).foldr wrap (s.relocate f) =
      (affixes.foldr wrap s).relocate f := by
  induction affixes with
  | nil => rfl
  | cons a affixes ih => simp [ih, wrap_relocate hf]

end Affix

end CubeLang
