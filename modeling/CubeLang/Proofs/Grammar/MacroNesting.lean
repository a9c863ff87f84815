import CubeLang.Proofs.Grammar.ReaderRelation
import CubeLang.Proofs.Grammar.TextReading
import Mathlib.Data.Finset.Card

/-!
# How deep macros are nested

The body of a macro is parsed inside the text that uses it, and the bodies of the macros that it uses
inside that. A macro whose body is being parsed is refused there, and nothing else keeps the bodies
from being parsed inside one another without end: a parser that allows for one body inside the other
as often as there are macros never comes to the end of its allowance. Afterwards no body is being
parsed any more, whether the text is a script or not.
-/

set_option autoImplicit false

namespace CubeLang

namespace Grammar

/-- The text of a macro. -/
def macroText (g : Grammar) (identifier : String) : String := (g.macros.get? identifier).getD ""

/-- The script of a text of some length whose statements are read; if they cannot be, that is
reported. -/
def wholeText (length : Nat) (read : Reader (List Script)) : Reader Script := fun memory =>
  match read memory with
  | .ok scripts memory => .ok (.sequence ⟨0, length⟩ scripts) memory
  | .error e memory => .error e (memory.report (.parseFailed e))

/-- Parses a text, given what the use of a macro stands for. -/
def parseBy (g : Grammar) (expand : Token → Reader Script) (text : String) : Reader Script :=
  wholeText text.toList.length
    ((Reading.mk g text.toList.length expand).readAll (g.lexicon.tokens text.toList))

/-- What the use of a macro stands for if `deeper` parses its body. Nothing but the macros whose
bodies are being parsed is refused. -/
def expandBy (g : Grammar) (deeper : String → Reader Script) (t : Token) : Reader Script :=
  fun memory =>
    if t.text ∈ memory.inProgress then .error (.ofToken (.macroInItself t.text) t) memory
    else match memory.bodies.get? t.text with
      | some body => .ok body memory
      | none =>
        match deeper (g.macroText t.text) (memory.enter t.text) with
        | .error e memory => .error (.ofToken (.inMacro t.text e.cause) t) (memory.leave t.text)
        | .ok body memory => .ok body ((memory.leave t.text).keep t.text body)

/-- Parses a text with up to `limit` bodies of macros inside one another; where one more would have
to be parsed, there is the error `overflow`. -/
def parseNested (g : Grammar) (overflow : ParseError) : (limit : Nat) → String → Reader Script
  | 0 => g.parseBy (g.expandBy fun _ => throw overflow)
  | limit + 1 => g.parseBy (g.expandBy (g.parseNested overflow limit))

variable {g : Grammar} {available inProgress : List String} {limit : Nat}

theorem parseWith_eq_parseBy (g : Grammar) (available : List String) (text : String) :
    g.parseWith available text = g.parseBy (g.expansion available) text :=
  funext (parseWith_eq g available text)

/-- Parsers that do related things with the use of a macro are related. -/
theorem related_parseBy {ι : Type} {P : ParseError → Prop}
    {T : ∀ {α : Type}, (ι → Reader α) → Prop} (hT : ReaderRelation P @T) {text : String}
    (hP : ∀ e, (g.reading [] text.toList.length).Refusal (g.lexicon.tokens text.toList) e → P e)
    {expand : ι → Token → Reader Script}
    (hexpand : ∀ t ∈ g.lexicon.tokens text.toList, g.macros.contains t.text = true →
      T fun i => expand i t)
    (hwhole : ∀ (length : Nat) (x : ι → Reader (List Script)), T x →
      T fun i => wholeText length (x i)) :
    T fun i => g.parseBy (expand i) text := by
  have hread : T fun i => (Reading.mk g text.toList.length (expand i)).readAll
      (g.lexicon.tokens text.toList) :=
    Reading.related_readAll (r := g.reading [] text.toList.length) hT hP hexpand _
      (List.suffix_refl _)
  exact hwhole text.toList.length _ hread

/-- Two steps that do the same while the bodies of some macros are being parsed, and leave it at
these macros. -/
def SameInside (inProgress : List String) {α : Type} (f : Bool → Reader α) : Prop :=
  ∀ m : Memory, m.inProgress = inProgress →
    f false m = f true m ∧ (stateAfter (f true m)).inProgress = inProgress

theorem readerRelation_sameInside (inProgress : List String) :
    ReaderRelation (ι := Bool) (fun _ => True) (SameInside inProgress) where
  done _ _ hm := ⟨rfl, hm⟩
  fail _ _ hm := ⟨rfl, hm⟩
  andThen := by
    intro α β x f hx hf m hm
    obtain ⟨hsame, hafter⟩ := hx m hm
    show (x false >>= f false) m = (x true >>= f true) m ∧
      (stateAfter ((x true >>= f true) m)).inProgress = inProgress
    cases hstep : x true m with
    | ok a m' =>
      rw [hstep] at hsame hafter
      rw [bind_of_ok hsame, bind_of_ok hstep]
      exact hf a ⟨true, m, m', hstep⟩ m' hafter
    | error e m' =>
      rw [hstep] at hsame hafter
      rw [bind_of_error hsame, bind_of_error hstep]
      exact ⟨rfl, hafter⟩

theorem SameInside.wholeText (length : Nat) {x : Bool → Reader (List Script)}
    (hx : SameInside inProgress x) : SameInside inProgress fun b => wholeText length (x b) := by
  intro m hm
  obtain ⟨hsame, hafter⟩ := hx m hm
  unfold Grammar.wholeText
  simp only [hsame, true_and]
  cases hread : x true m with
  | ok scripts m' =>
    rw [hread] at hafter
    exact hafter
  | error e m' =>
    rw [hread] at hafter
    exact hafter

@[simp] theorem inProgress_enter (m : Memory) (identifier : String) :
    (m.enter identifier).inProgress = identifier :: m.inProgress := rfl

@[simp] theorem inProgress_leave (m : Memory) (identifier : String) :
    (m.leave identifier).inProgress = m.inProgress.erase identifier := rfl

@[simp] theorem inProgress_keep (m : Memory) (identifier : String) (body : Script) :
    (m.keep identifier body).inProgress = m.inProgress := rfl

/-- The use of a macro that is not in progress is the same to both parsers if its body is. -/
theorem sameInside_expand {deeper : String → Reader Script} {t : Token}
    (havailable : t.text ∉ inProgress → t.text ∈ available)
    (hdeeper : t.text ∉ inProgress → SameInside (t.text :: inProgress) fun b =>
      cond b (g.parseWith (available.erase t.text) (g.macroText t.text))
        (deeper (g.macroText t.text))) :
    SameInside inProgress fun b => cond b (g.expansion available t) (g.expandBy deeper t) := by
  intro m hm
  show g.expandBy deeper t m = g.expansion available t m ∧
    (stateAfter (g.expansion available t m)).inProgress = inProgress
  unfold expandBy expansion
  by_cases hcyclic : t.text ∈ inProgress
  · rw [hm, if_pos hcyclic, if_neg fun husable => husable.2 hcyclic]
    exact ⟨rfl, hm⟩
  · rw [hm, if_neg hcyclic, if_pos ⟨havailable hcyclic, hcyclic⟩]
    cases hbody : m.bodies.get? t.text with
    | some body => exact ⟨rfl, hm⟩
    | none =>
      obtain ⟨hsame, hafter⟩ := hdeeper hcyclic (m.enter t.text) (by rw [inProgress_enter, hm])
      dsimp only [cond_true, cond_false, macroText] at hsame hafter ⊢
      rw [hsame]
      refine ⟨rfl, ?_⟩
      cases hparse : g.parseWith (available.erase t.text) ((g.macros.get? t.text).getD "")
        (m.enter t.text) with
      | ok body m' =>
        rw [hparse] at hafter
        have hafter : m'.inProgress = t.text :: inProgress := hafter
        simp [stateAfter, hafter]
      | error e m' =>
        rw [hparse] at hafter
        have hafter : m'.inProgress = t.text :: inProgress := hafter
        simp [stateAfter, hafter]

theorem sameInside_parseBy {deeper : String → Reader Script}
    (havailable : ∀ X ∈ g.macros.keys, X ∉ inProgress → X ∈ available)
    (hdeeper : ∀ X ∈ g.macros.keys, X ∉ inProgress → SameInside (X :: inProgress) fun b =>
      cond b (g.parseWith (available.erase X) (g.macroText X)) (deeper (g.macroText X)))
    (text : String) :
    SameInside inProgress fun b =>
      cond b (g.parseWith available text) (g.parseBy (g.expandBy deeper) text) := by
  have hexpand : ∀ t : Token, g.macros.contains t.text = true → SameInside inProgress fun b =>
      cond b (g.expansion available t) (g.expandBy deeper t) := by
    intro t ht
    have hkey := Table.contains_iff_mem_keys.mp ht
    exact sameInside_expand (havailable _ hkey) (hdeeper _ hkey)
  have hparse : SameInside inProgress fun b =>
      g.parseBy (fun t => cond b (g.expansion available t) (g.expandBy deeper t)) text :=
    related_parseBy (readerRelation_sameInside inProgress) (fun _ _ => trivial)
      (fun t _ => hexpand t) (fun length _ => SameInside.wholeText length)
  rw [parseWith_eq_parseBy]
  exact hparse

/-- Macros in progress are refused. So the other ones are all that can be used, and they are few
enough not to come to the end of the allowance. -/
theorem sameInside_parse (overflow : ParseError) (limit : Nat) (available inProgress : List String)
    (havailable : ∀ X ∈ g.macros.keys, X ∉ inProgress → X ∈ available)
    (hlimit : (g.macros.keys.toFinset \ inProgress.toFinset).card ≤ limit) (text : String) :
    SameInside inProgress fun b =>
      cond b (g.parseWith available text) (g.parseNested overflow limit text) := by
  induction limit generalizing available inProgress text with
  | zero =>
    refine sameInside_parseBy havailable (fun X hkey hfresh => ?_) text
    have hmem : X ∈ g.macros.keys.toFinset \ inProgress.toFinset := by simp [hkey, hfresh]
    exact absurd (Finset.card_pos.mpr ⟨X, hmem⟩) (Nat.not_lt.mpr hlimit)
  | succ limit ih =>
    refine sameInside_parseBy havailable (fun X hkey hfresh => ?_) text
    refine ih (available.erase X) (X :: inProgress) ?_ ?_ _
    · intro Y hY hfresh'
      rw [List.mem_cons, not_or] at hfresh'
      exact (List.mem_erase_of_ne hfresh'.1).mpr (havailable Y hY hfresh'.2)
    · have hmem : X ∈ g.macros.keys.toFinset \ inProgress.toFinset := by simp [hkey, hfresh]
      have hless : g.macros.keys.toFinset \ (X :: inProgress).toFinset =
          (g.macros.keys.toFinset \ inProgress.toFinset).erase X := by
        ext Y
        simp
        tauto
      have hcard := Finset.card_erase_add_one hmem
      rw [hless]
      omega

end Grammar

end CubeLang
