import CubeLang.Proofs.Grammar.CycleSpelling

/-!
# Spelling states

The text of a state spells the cycles of its parts, one after the other; blanks and line ends
between them spell nothing.
-/

set_option autoImplicit false

namespace CubeLang

namespace Lexicon

variable {lex : Lexicon} {ls : List Lexeme}

/-- A text spells some lexemes, if nothing follows that would go on a sign. -/
def SpellsApart (lex : Lexicon) (text : String) (ls : List Lexeme) : Prop :=
  ∀ tail : List Char, (∀ c ∈ tail.head?, c ≠ '+') → lex.Spells text.toList ls tail

theorem SpellsApart.eq_nil (h : lex.SpellsApart "" ls) : ls = [] := by
  obtain ⟨ts, rfl, hread⟩ := h [] (by simp) 0
  have hempty : "".toList ++ [] = [] := rfl
  rw [hempty, tokensFrom_nil, tokensFrom_nil, List.append_nil] at hread
  rw [← (Prod.mk.inj hread).1]
  rfl

theorem SpellsApart.intercalate {texts : List String} {lss : List (List Lexeme)}
    {separator : String} {blank : Char} (hseparator : separator.toList = [blank])
    (hplus : blank ≠ '+') (hskip : lex.isSkip blank = true)
    (h : List.Forall₂ lex.SpellsApart texts lss) :
    lex.SpellsApart (separator.intercalate texts) lss.flatten :=
  SpellsBefore.intercalate (p := (· ≠ '+')) hseparator hplus hskip h

/-- Empty texts spell nothing, so that they can be left out. -/
theorem SpellsApart.filter {texts : List String} {lss : List (List Lexeme)}
    (h : List.Forall₂ lex.SpellsApart texts lss) :
    ∃ lss', List.Forall₂ lex.SpellsApart (texts.filter fun text => !text.isEmpty) lss' ∧
      lss'.flatten = lss.flatten := by
  induction h with
  | nil => exact ⟨[], .nil, rfl⟩
  | @cons text ls texts lss htext hrest ih =>
    obtain ⟨lss', hspells, hflatten⟩ := ih
    by_cases hempty : text = ""
    · subst hempty
      obtain rfl := htext.eq_nil
      exact ⟨lss', hspells, hflatten⟩
    · have hkeep : (!text.isEmpty) = true := by simpa using hempty
      rw [List.filter_cons, if_pos hkeep]
      refine ⟨ls :: lss', .cons htext hspells, ?_⟩
      rw [List.flatten_cons, List.flatten_cons, hflatten]

end Lexicon

theorem PartCycle.lexemes_ne_nil (n : Nat) (f : Fixity) (kind : PartKind) (p : PartCycle) :
    p.lexemes n f kind ≠ [] := by
  simp [lexemes]

namespace Cube

open Lexicon

variable {n : Nat} {h : 2 ≤ n} {f : Fixity} {c : Cube}

/-- The lexemes of the text of a state; without a cycle there is an empty one. -/
def lexemes (n : Nat) (f : Fixity) (c : Cube) : List Lexeme :=
  match c.written with
  | [] => [.keyword "(", .keyword ")"]
  | es => es.flatMap fun e => e.2.lexemes n f e.1

theorem Valid.spellsApart_joined (hc : c.Valid n) (hf : f.HasPlace) (kind : PartKind) :
    (Grammar.signed n h f).lexicon.SpellsApart
      (joined ((c.writtenOf kind).map fun p => p.text n { fixity := f } kind))
      ((c.writtenOf kind).flatMap fun p => p.lexemes n f kind) := by
  have hskip : (Grammar.signed n h f).lexicon.isSkip ' ' = true := by
    show Lexicon.base.isSkip ' ' = true
    decide
  have hforall : ∀ ps : List PartCycle, (∀ p ∈ ps, p.Plain n kind) →
      List.Forall₂ (Grammar.signed n h f).lexicon.SpellsApart
        (ps.map fun p => p.text n { fixity := f } kind) (ps.map fun p => p.lexemes n f kind) := by
    intro ps hps
    induction ps with
    | nil => exact .nil
    | cons p ps ih =>
      exact .cons (fun tail htail => (hps p List.mem_cons_self).spells hf htail)
        (ih fun p hp => hps p (List.mem_cons_of_mem _ hp))
  have hcycles := hforall _ fun p hp => hc.plain_of_mem_writtenOf hp
  rw [List.flatMap_def]
  exact SpellsApart.intercalate rfl (by decide) hskip hcycles

theorem written_eq_nil_of_lexemes
    (hnil : (c.written.flatMap fun e => e.2.lexemes n f e.1) = []) : c.written = [] := by
  cases hlist : c.written with
  | nil => rfl
  | cons e es =>
    have hhead := List.flatMap_eq_nil_iff.mp hnil e (hlist ▸ List.mem_cons_self)
    exact absurd hhead (PartCycle.lexemes_ne_nil n f e.1 e.2)

theorem filter_texts_of_written_eq_nil (hnil : c.written = []) (k : CycleTokens) :
    ((kinds.map fun kind => joined ((c.writtenOf kind).map fun p => p.text n k kind)).filter
      fun text => !text.isEmpty) = [] := by
  rw [List.filter_eq_nil_iff]
  intro text htext
  obtain ⟨kind, hkind, rfl⟩ := List.mem_map.mp htext
  have hempty : c.writtenOf kind = [] :=
    List.map_eq_nil_iff.mp (List.flatMap_eq_nil_iff.mp hnil kind hkind)
  rw [hempty, List.map_nil]
  decide

theorem lexemes_of_ne_nil (hne : c.written ≠ []) :
    c.lexemes n f = c.written.flatMap fun e => e.2.lexemes n f e.1 := by
  unfold lexemes
  split
  · contradiction
  · rfl

/-- The text of a state spells its lexemes. -/
theorem Valid.spells_text (hc : c.Valid n) (hf : f.HasPlace) :
    (Grammar.signed n h f).lexicon.Spells (c.text { fixity := f }).toList (c.lexemes n f) [] := by
  have hskip : (Grammar.signed n h f).lexicon.isSkip '\n' = true := by
    show Lexicon.base.isSkip '\n' = true
    decide
  have hkinds : List.Forall₂ (Grammar.signed n h f).lexicon.SpellsApart
      (kinds.map fun kind => joined ((c.writtenOf kind).map fun p => p.text n { fixity := f } kind))
      (kinds.map fun kind => (c.writtenOf kind).flatMap fun p => p.lexemes n f kind) :=
    .cons (hc.spellsApart_joined hf _) (.cons (hc.spellsApart_joined hf _)
      (.cons (hc.spellsApart_joined hf _) .nil))
  obtain ⟨lss, hspells, hflatten⟩ := SpellsApart.filter hkinds
  have hcycles : lss.flatten = c.written.flatMap fun e => e.2.lexemes n f e.1 := by
    rw [hflatten, ← List.flatMap_def, written, List.flatMap_assoc]
    simp only [List.flatMap_map]
  rw [hc.text_eq]
  unfold lines
  split
  · rename_i hnone
    rw [hnone] at hspells
    cases hspells
    have hopening := @Grammar.spells_plainToken n h f "(" (by decide)
    have hclosing := @Grammar.spells_plainToken n h f ")" (by decide)
    rw [lexemes, written_eq_nil_of_lexemes hcycles.symm, String.toList_append]
    exact (hopening _).append (hclosing [])
  · rename_i hsome
    have hne : c.written ≠ [] := fun hnil => hsome (filter_texts_of_written_eq_nil hnil _)
    have hend : "\n".toList = ['\n'] := rfl
    have hlines := SpellsApart.intercalate hend (by decide) hskip hspells
    rw [lexemes_of_ne_nil hne, ← hcycles]
    exact hlines [] (by simp)

end Cube

end CubeLang
