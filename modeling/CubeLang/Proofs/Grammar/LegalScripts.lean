import CubeLang.Proofs.Grammar.MacroBodies
import CubeLang.Proofs.Script.Legal

/-!
# Legal scripts from texts

What is read in a notation whose moves are legal is a legal script. Its moves are named by the
notation. Its cycles are within the cube, for a part is accepted only with a number of its kind, and on
a cube without edge and side parts only corners are. The bodies of its macros are read in the same
notation.
-/

set_option autoImplicit false

namespace CubeLang

namespace Script

variable {P : Move → Prop} {Q : PartCycle → Prop}

mutual

/-- What all moves and cycles at the leaves of a script have, all those of the script have. -/
theorem each_of_leaves : (s : Script) → (∀ leaf ∈ s.leaves, leaf.Each P Q) → s.Each P Q
  | move _ _, h | macroUse _ _ _, h | permutation _ _, h => h _ (List.mem_singleton_self _)
  | nop _, _ => trivial
  | sequence _ children, h | grouping _ children, h => allEach_of_leaves children h
  | repetition _ _ child, h | inversion _ child, h | reflection _ child, h => each_of_leaves child h
  | conjugation _ a b, h | rotation _ a b, h | commutation _ a b, h =>
    ⟨each_of_leaves a fun leaf hleaf => h leaf (List.mem_append_left _ hleaf),
      each_of_leaves b fun leaf hleaf => h leaf (List.mem_append_right _ hleaf)⟩

/-- So it is with some scripts. -/
theorem allEach_of_leaves : (children : List Script) →
    (∀ leaf ∈ leavesAll children, leaf.Each P Q) → AllEach P Q children
  | [], _ => trivial
  | s :: rest, h => ⟨each_of_leaves s fun leaf hleaf => h leaf (List.mem_append_left _ hleaf),
      allEach_of_leaves rest fun leaf hleaf => h leaf (List.mem_append_right _ hleaf)⟩

end

end Script

/-! ## Cycles -/

namespace Reading

variable {r : Reading} {ts : List Token} {c c' : PartCycle}

theorem PartTokens.within (h : r.PartTokens c c' ts) (hc : c.Within r.grammar.terms.layerCount) :
    c'.Within r.grammar.terms.layerCount := by
  cases h with
  | intro _ _ _ hcube _ _ _ hadd =>
    refine hc.addItem (hcube.imp_right fun hlength => ?_) hadd
    rw [hlength]
    rfl

theorem PartsTokens.within {closed : Closed} (h : r.PartsTokens c ts closed)
    (hc : c.Within r.grammar.terms.layerCount) : closed.cycle.Within r.grammar.terms.layerCount := by
  induction h with
  | close => exact hc
  | part hpart _ ih => exact ih (hpart.within hc)
  | delimited hpart _ _ ih => exact ih (hpart.within hc)
  | signed hpart => exact hpart.within hc

/-- A cycle that is read is within the cubes of the notation. -/
theorem PermutationTokens.within {span : Span} (h : r.PermutationTokens ts (.permutation span c)) :
    c.Within r.grammar.terms.layerCount := by
  cases h with
  | intro _ _ _ hparts _ hsign =>
    obtain ⟨_, twist, heq, -⟩ := eq_permutation_of_withSign hsign
    obtain ⟨-, rfl⟩ := Script.permutation.inj heq
    exact (hparts.within PartCycle.within_empty).withSign twist

end Reading

/-! ## Texts -/

namespace Grammar

variable {g : Grammar}

/-- The moves of a text are named by the notation, and its cycles are read in it, also in the bodies of
macros. -/
theorem each_of_parseAfresh {P : Move → Prop} {Q : PartCycle → Prop}
    (hmoves : ∀ token m, g.terms.move? token = some m → P m)
    (hcycles : ∀ (r : Reading) (ts : List Token) (span : Span) (c : PartCycle), r.grammar = g →
      r.PermutationTokens ts (.permutation span c) → Q c)
    {usable : List String} {text : String} {root : Script}
    (h : g.parseAfresh usable text = .ok root) : root.Each P Q := by
  obtain ⟨scripts, rfl, hderives⟩ := derives_of_parseAfresh h
  refine Script.allEach_of_leaves scripts fun leaf hleaf => ?_
  cases hderives.leaves leaf hleaf with
  | move hm => exact hmoves _ _ hm
  | nop => trivial
  | macroUse hbody =>
    obtain ⟨husable, hbody⟩ := expandAfresh_eq_ok_iff.mp (Reading.eq_ok_of_lift hbody).1
    have := length_without_lt husable
    have heach := each_of_parseAfresh hmoves hcycles hbody
    exact heach
  | permutation hcycle => exact hcycles _ _ _ _ rfl hcycle
termination_by usable.length

/-- A text read in a notation with legal moves is a legal script. -/
theorem legal_of_parseAfresh
    (hmoves : ∀ token m, g.terms.move? token = some m → m.Legal g.terms.layerCount)
    {usable : List String} {text : String} {root : Script}
    (h : g.parseAfresh usable text = .ok root) : root.Legal g.terms.layerCount := by
  rw [Script.legal_iff_each]
  refine each_of_parseAfresh hmoves ?_ h
  rintro r ts span c rfl hcycle
  exact hcycle.within

end Grammar

end CubeLang
