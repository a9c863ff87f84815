import CubeLang.Proofs.Move
import CubeLang.Proofs.Notation.Built

/-!
# The notations of configurations

A configuration changes the built-in notation in the fixity of cycles, in one token for inversion and by
the macros of a set. What comes about has the layer count and the moves of the built-in notation, so
that all its moves are legal, and no empty texts.
-/

set_option autoImplicit false

namespace CubeLang

theorem MacroSet.ne_empty_of_find {name : String} {s : MacroSet} (h : MacroSet.find name = .ok s)
    {m : String × String} (hm : m ∈ s.macros) : m.1 ≠ "" := by
  have hall : ∀ s ∈ MacroSet.builtIn, ∀ m ∈ s.macros, m.1 ≠ "" := by decide
  unfold MacroSet.find at h
  split at h
  · rename_i s' hfind
    obtain rfl := Except.ok.inj h
    exact hall _ (List.mem_of_find?_eq_some hfind) m hm
  · contradiction

namespace Notation

variable {n : Nat} {l : Notation}

/-- The notations that come with the program for `n` layers: the built-in one, and those of
configurations. -/
def Supplied (n : Nat) (l : Notation) : Prop :=
  Notation.default n = .ok l ∨ ∃ c : Config, c.layerCount = n ∧ c.toNotation = .ok l

/-- Whether a notation has the moves of the built-in one for `n` layers, and no empty texts. -/
structure Standard (n : Nat) (l : Notation) : Prop where
  worded : l.Worded
  layerCount : l.layerCount = n
  moves : l.moves = ⟨defaultMoves n⟩

namespace Standard

theorem ofLayerCount (h : 2 ≤ n) : (Notation.ofLayerCount n h).Standard n :=
  ⟨.ofLayerCount h, rfl, rfl⟩

theorem withFixities (h : l.Standard n) (fixities : Table Symbol Fixity) :
    { l with fixities := fixities }.Standard n :=
  ⟨⟨h.worded.tokens, h.worded.bindings, h.worded.macros⟩, h.layerCount, h.moves⟩

theorem unbind (h : l.Standard n) {s : Symbol} (hs : s ≠ .move) (token : String) :
    (l.unbind s token).Standard n :=
  ⟨h.worded.unbind, h.layerCount, by simp [Notation.unbind, hs, h.moves]⟩

/-- A macro with a name is added. -/
theorem addMacro (h : l.Standard n) {identifier : String} (script : String)
    (hname : identifier ≠ "") :
    { l.bind .macroName identifier with macros := l.macros.put identifier script }.Standard n where
  worded :=
    have hbound := (h.worded.putMacro script hname).bind hname
    ⟨hbound.tokens, hbound.bindings, hbound.macros⟩
  layerCount := h.layerCount
  moves := h.moves

/-- All moves of the notation are legal. -/
theorem legal_of_move? (h : l.Standard n) (hn : 2 ≤ n) {token : String} {m : Move}
    (hm : l.move? token = some m) : m.Legal n := by
  unfold move? Table.get? at hm
  rw [h.moves] at hm
  obtain ⟨e, he, rfl⟩ := Option.map_eq_some_iff.mp hm
  exact legal_of_mem_defaultMoves hn (List.mem_of_find?_eq_some he)

end Standard

theorem standard_of_default (h : Notation.default n = .ok l) : l.Standard n := by
  unfold Notation.default at h
  split at h
  · obtain rfl := Except.ok.inj h
    exact .ofLayerCount (n := n) _
  · contradiction

theorem standard_of_toNotation {c : Config} (hc : c.layerCount = n) (h : c.toNotation = .ok l) :
    l.Standard n := by
  unfold Config.toNotation at h
  rw [hc] at h
  split at h
  · contradiction
  · rename_i n₀ hdefault
    let placed : Notation := { n₀ with fixities := n₀.fixities.put .permutation c.fixity }
    let signed := if c.fixity = .prefixed then placed.unbind .inversionOperator "-" else placed
    have hplaced : placed.Standard n := (standard_of_default hdefault).withFixities _
    have hsigned : signed.Standard n := by
      by_cases hprefixed : c.fixity = .prefixed
      · simpa [signed, hprefixed] using hplaced.unbind (by decide) "-"
      · simpa [signed, hprefixed] using hplaced
    dsimp only at h
    split at h
    · obtain rfl := Except.ok.inj h
      exact hsigned
    · split at h
      · contradiction
      · rename_i s hs
        obtain rfl := Except.ok.inj h
        refine List.foldlRecOn s.macros _ hsigned fun l hl m hm => ?_
        exact hl.addMacro m.2 (MacroSet.ne_empty_of_find hs hm)

/-- The notations that come with the program are standard. -/
theorem Supplied.standard (h : l.Supplied n) : l.Standard n := by
  rcases h with h | ⟨c, hc, h⟩
  · exact standard_of_default h
  · exact standard_of_toNotation hc h

end Notation

end CubeLang
