import CubeLang.Config
import Mathlib.Data.List.TakeWhile

/-!
# Which environments make a configuration

A configuration has passed its checks, and an environment makes one as soon as the variables of the
layer count and of the fixity are blank or hold one of the choices. The variable of the macro set
may hold any name here; whether there is such a set shows only when the notation is made.
-/

set_option autoImplicit false

namespace CubeLang

/-- A text that is stripped of its blanks holds a letter, or nothing. -/
theorem Text.exists_letter_of_strip {text : List Char} (h : strip text ≠ []) :
    ∃ c ∈ strip text, isBlank c = false := by
  unfold strip at h ⊢
  generalize (text.dropWhile isBlank).reverse = rest at h ⊢
  have hhead := List.head?_dropWhile_not isBlank rest
  cases hrest : rest.dropWhile isBlank with
  | nil =>
    rw [hrest] at h
    contradiction
  | cons c cs =>
    rw [hrest] at hhead
    exact ⟨c, List.mem_reverse.mpr List.mem_cons_self, by simpa using hhead⟩

namespace Config

/-- What the checks of a configuration ask for. -/
structure Sound (c : Config) : Prop where
  layers : c.layerCount ∈ layerCounts
  fixity : c.fixity ∈ fixities
  macroSet : ∀ name, c.macroSet = some name → MacroSet.isBlankText name = false

theorem fault?_eq_none_iff {c : Config} : c.fault? = none ↔ c.Sound := by
  constructor
  · intro h
    unfold fault? at h
    split at h
    · contradiction
    · split at h
      · contradiction
      · rename_i hlayers hfixity
        refine ⟨by simpa using hlayers, by simpa using hfixity, ?_⟩
        intro name hname
        simpa [hname] using h
  · rintro ⟨hlayers, hfixity, hmacros⟩
    unfold fault?
    rw [if_neg (by simpa using hlayers), if_neg (by simpa using hfixity)]
    cases hname : c.macroSet with
    | none => rfl
    | some name => simp [hmacros name hname]

/-- A configuration passes its checks as it is. -/
theorem checked_eq_ok_iff {c c' : Config} : checked c = .ok c' ↔ c = c' ∧ c.Sound := by
  rw [← fault?_eq_none_iff]
  unfold checked
  cases c.fault? <;> simp

/-! ## Environments -/

section

variable {get : String → Option String}

/-- What stands in a variable, without the blanks around it. -/
def stripped (get : String → Option String) (name : String) : List Char :=
  Text.strip ((get name).getD "").toList

/-- The name of a fixity that stands in its variable, in capital letters. -/
def fixityName (get : String → Option String) : List Char :=
  Text.upper (stripped get fixityVariable)

/-- The variables of the layer count and of the fixity are blank or hold one of the choices. -/
structure WellFormed (get : String → Option String) : Prop where
  layers : stripped get layerVariable = [] ∨
    ∃ n ∈ layerCounts, Text.Integer.parse? (stripped get layerVariable) = some n
  fixity : fixityName get = [] ∨
    ∃ f ∈ fixities, Fixity.ofName? (String.ofList (fixityName get)) = some f

/-- The layer count that an environment chooses. -/
def chosenLayers (get : String → Option String) : Except Fault Int :=
  if (stripped get layerVariable).isEmpty then pure 3
  else match Text.Integer.parse? (stripped get layerVariable) with
    | some n => pure n
    | none => throw (.layerText (stripped get layerVariable))

/-- The fixity that an environment chooses. -/
def chosenFixity (get : String → Option String) : Except Fault Fixity :=
  if (fixityName get).isEmpty then pure .precircumfixed
  else match Fixity.ofName? (String.ofList (fixityName get)) with
    | some f => pure f
    | none => throw (.fixityText (fixityName get))

/-- The macro set that an environment chooses. -/
def chosenMacroSet (get : String → Option String) : Option String :=
  if (stripped get macroSetVariable).isEmpty then none
  else some (String.ofList (stripped get macroSetVariable))

/-- The choices are made one after the other, and then checked. -/
theorem ofEnvironment_eq (get : String → Option String) : ofEnvironment get = (do
    let layerCount ← chosenLayers get
    let fixity ← chosenFixity get
    checked { layerCount, fixity, macroSet := chosenMacroSet get }) := by
  unfold ofEnvironment chosenLayers chosenFixity fixityName stripped
  dsimp only
  -- Both sides branch on the same four things.
  cases (Text.strip ((get layerVariable).getD "").toList).isEmpty <;>
    cases Text.Integer.parse? (Text.strip ((get layerVariable).getD "").toList) <;>
    cases (Text.upper (Text.strip ((get fixityVariable).getD "").toList)).isEmpty <;>
    cases Fixity.ofName? (String.ofList
      (Text.upper (Text.strip ((get fixityVariable).getD "").toList))) <;> rfl

theorem ofEnvironment_eq_ok_iff {c : Config} : ofEnvironment get = .ok c ↔
    chosenLayers get = .ok c.layerCount ∧ chosenFixity get = .ok c.fixity ∧
      chosenMacroSet get = c.macroSet ∧ c.Sound := by
  rw [ofEnvironment_eq]
  cases hlayers : chosenLayers get with
  | error fault => simp [bind, Except.bind]
  | ok n =>
    cases hfixity : chosenFixity get with
    | error fault => simp [bind, Except.bind]
    | ok f =>
      obtain ⟨layerCount, fixity, macroSet⟩ := c
      simp only [bind, Except.bind, checked_eq_ok_iff, Config.mk.injEq, Except.ok.injEq]
      constructor
      · rintro ⟨⟨rfl, rfl, rfl⟩, hsound⟩
        exact ⟨rfl, rfl, rfl, hsound⟩
      · rintro ⟨rfl, rfl, rfl, hsound⟩
        exact ⟨⟨rfl, rfl, rfl⟩, hsound⟩

theorem exists_chosenLayers_iff : (∃ n ∈ layerCounts, chosenLayers get = .ok n) ↔
    stripped get layerVariable = [] ∨
      ∃ n ∈ layerCounts, Text.Integer.parse? (stripped get layerVariable) = some n := by
  unfold chosenLayers
  by_cases hblank : stripped get layerVariable = []
  · exact iff_of_true ⟨3, by decide, by simp [hblank, pure, Except.pure]⟩ (Or.inl hblank)
  · cases hparse : Text.Integer.parse? (stripped get layerVariable) <;>
      simp [hblank, pure, Except.pure, throw, throwThe, MonadExceptOf.throw]

theorem exists_chosenFixity_iff : (∃ f ∈ fixities, chosenFixity get = .ok f) ↔
    fixityName get = [] ∨
      ∃ f ∈ fixities, Fixity.ofName? (String.ofList (fixityName get)) = some f := by
  unfold chosenFixity
  by_cases hblank : fixityName get = []
  · exact iff_of_true ⟨.precircumfixed, by decide, by simp [hblank, pure, Except.pure]⟩
      (Or.inl hblank)
  · cases hname : Fixity.ofName? (String.ofList (fixityName get)) <;>
      simp [hblank, pure, Except.pure, throw, throwThe, MonadExceptOf.throw]

/-- The macro set that an environment chooses has a name that is not blank. -/
theorem isBlankText_chosenMacroSet {name : String} (h : chosenMacroSet get = some name) :
    MacroSet.isBlankText name = false := by
  unfold chosenMacroSet at h
  split at h
  · contradiction
  · rename_i hname
    obtain rfl := Option.some.inj h
    obtain ⟨c, hc, hletter⟩ := Text.exists_letter_of_strip fun hnil => hname (by
      rw [stripped, hnil, List.isEmpty_nil])
    unfold MacroSet.isBlankText
    rw [String.toList_ofList, List.all_eq_false]
    exact ⟨c, hc, by simp [hletter]⟩

/-- An environment makes a configuration just if it is well-formed. -/
theorem exists_ofEnvironment_iff : (∃ c, ofEnvironment get = .ok c) ↔ WellFormed get := by
  constructor
  · rintro ⟨c, h⟩
    obtain ⟨hlayers, hfixity, -, hsound⟩ := ofEnvironment_eq_ok_iff.mp h
    exact ⟨exists_chosenLayers_iff.mp ⟨_, hsound.layers, hlayers⟩,
      exists_chosenFixity_iff.mp ⟨_, hsound.fixity, hfixity⟩⟩
  · rintro ⟨hlayers, hfixity⟩
    obtain ⟨n, hn, hlayers⟩ := exists_chosenLayers_iff.mpr hlayers
    obtain ⟨f, hf, hfixity⟩ := exists_chosenFixity_iff.mpr hfixity
    exact ⟨⟨n, f, chosenMacroSet get⟩, ofEnvironment_eq_ok_iff.mpr
      ⟨hlayers, hfixity, rfl, hn, hf, fun _ => isBlankText_chosenMacroSet⟩⟩

end

end Config

end CubeLang
