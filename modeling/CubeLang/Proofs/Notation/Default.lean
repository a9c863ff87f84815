import CubeLang.Config
import CubeLang.Proofs.Notation.Calls
import CubeLang.Proofs.Notation.LayerGroups
import CubeLang.Proofs.Text.Integer

/-!
# The tokens of the built-in notation

Every token of a move begins with a capital letter, so that all other tokens can be read off a short
list, whatever the layer count. A configuration without macros changes the fixity of cycles only,
and takes the minus sign from inversion if signs stand in front.
-/

set_option autoImplicit false

namespace CubeLang

namespace Notation

variable {n : Nat} {token : String} {s : Symbol}

/-- Whether a text begins with a capital letter. -/
def Capital (text : String) : Prop := text.toList.head?.any Char.isUpper = true

instance (text : String) : Decidable (Capital text) := inferInstanceAs (Decidable (_ = true))

theorem Capital.append {text : String} (h : Capital text) (other : String) :
    Capital (text ++ other) := by
  obtain ⟨c, hc, hupper⟩ := (Option.any_eq_true ..).mp h
  refine (Option.any_eq_true ..).mpr ⟨c, ?_, hupper⟩
  rw [String.toList_append, List.head?_append, hc]
  rfl

theorem capital_numbered {letter : String} {short k : Nat} {mask : Nat → Nat} {g : LayerGroup}
    (hletter : Capital letter) (h : g ∈ numbered letter short mask k) : Capital g.label := by
  rcases (of_mem_numbered h).2 with ⟨-, hlabel⟩ | hlabel
  · exact hlabel ▸ hletter
  · exact hlabel ▸ hletter.append (toString k)

theorem capital_label {g : LayerGroup} (h : g ∈ layerGroups n) :
    g.label = "" ∨ Capital g.label := by
  have hletter : ∀ letter ∈ ["C", "M", "W", "T", "N", "V", "S"], Capital letter := by decide
  have hrange : ∀ letter ∈ ["N", "S"], ∀ r : Nat × Nat,
      Capital (letter ++ toString r.1 ++ "-" ++ toString r.2) := by
    intro letter hmem r
    have hcapital : ∀ letter ∈ ["N", "S"], Capital letter := by decide
    exact (((hcapital letter hmem).append (toString r.1)).append "-").append (toString r.2)
  cases inFamily_of_mem h with
  | face => exact Or.inl rfl
  | cube => exact Or.inr (hletter "C" (by decide))
  | mid _ hg => exact Or.inr (capital_numbered (hletter "M" (by decide)) hg)
  | wide => exact Or.inr (hletter "W" (by decide))
  | tier _ hg => exact Or.inr (capital_numbered (hletter "T" (by decide)) hg)
  | layer _ hg => exact Or.inr (capital_numbered (hletter "N" (by decide)) hg)
  | @layerRange r _ => exact Or.inr (hrange "N" (by decide) r)
  | verge _ hg => exact Or.inr (capital_numbered (hletter "V" (by decide)) hg)
  | slice _ hg => exact Or.inr (capital_numbered (hletter "S" (by decide)) hg)
  | @sliceRange r _ => exact Or.inr (hrange "S" (by decide) r)

/-- Every token of a move of the built-in notation begins with a capital letter. -/
theorem capital_of_mem_defaultMoves {e : String × Move} (h : e ∈ defaultMoves n) :
    Capital e.1 := by
  obtain ⟨g, hg, m, -, face, hface, rfl⟩ := mem_defaultMoves_iff.mp h
  -- The letters are gone through one by one, not all characters for those that are such letters.
  have hfaces : ∀ face ∈ faceLetters, Capital (String.singleton face) :=
    List.all_iff_forall_prop.mp (by decide)
  have htoken : Capital (faceToken g.label face m.2) := by
    unfold faceToken
    rcases capital_label hg with hlabel | hlabel
    · rw [hlabel, String.empty_append]
      exact (hfaces face hface).append m.2
    · exact (hlabel.append (String.singleton face)).append m.2
  exact htoken

theorem ne_empty_of_mem_defaultMoves {e : String × Move} (h : e ∈ defaultMoves n) : e.1 ≠ "" := by
  intro hempty
  have hcapital := capital_of_mem_defaultMoves h
  rw [hempty] at hcapital
  exact absurd hcapital (by decide)

/-- The letters of labels, and the dash between the numbers of a range. -/
def labelSigns : List Char := ['C', 'M', 'W', 'T', 'N', 'V', 'S', '-']

/-- Whether a text is made of digits and of what else labels are made of. -/
def Labelling (text : String) : Prop := ∀ c ∈ text.toList, c.isDigit = true ∨ c ∈ labelSigns

instance (text : String) : Decidable (Labelling text) :=
  List.decidableBAll (fun c : Char => c.isDigit = true ∨ c ∈ labelSigns) text.toList

theorem Labelling.append {text other : String} (h : Labelling text) (h' : Labelling other) :
    Labelling (text ++ other) := by
  intro c hc
  rw [String.toList_append] at hc
  rcases List.mem_append.mp hc with hc | hc
  · exact h c hc
  · exact h' c hc

theorem labelling_toString (k : Nat) : Labelling (toString k) :=
  fun _ hc => Or.inl (Text.Integer.isDigit_of_mem_toString hc)

theorem labelling_numbered {letter : String} {short k : Nat} {mask : Nat → Nat} {g : LayerGroup}
    (hletter : Labelling letter) (h : g ∈ numbered letter short mask k) : Labelling g.label := by
  rcases (of_mem_numbered h).2 with ⟨-, hlabel⟩ | hlabel
  · exact hlabel ▸ hletter
  · exact hlabel ▸ hletter.append (labelling_toString k)

theorem labelling_label {g : LayerGroup} (h : g ∈ layerGroups n) : Labelling g.label := by
  have hletter : ∀ letter ∈ ["", "C", "M", "W", "T", "N", "V", "S", "-"], Labelling letter := by
    decide
  have hrange : ∀ letter ∈ ["N", "S"], ∀ r : Nat × Nat,
      Labelling (letter ++ toString r.1 ++ "-" ++ toString r.2) := by
    intro letter hmem r
    have hlabelling : ∀ letter ∈ ["N", "S"], Labelling letter := by decide
    exact (((hlabelling letter hmem).append (labelling_toString r.1)).append
      (hletter "-" (by decide))).append (labelling_toString r.2)
  cases inFamily_of_mem h with
  | face => exact hletter "" (by decide)
  | cube => exact hletter "C" (by decide)
  | mid _ hg => exact labelling_numbered (hletter "M" (by decide)) hg
  | wide => exact hletter "W" (by decide)
  | tier _ hg => exact labelling_numbered (hletter "T" (by decide)) hg
  | layer _ hg => exact labelling_numbered (hletter "N" (by decide)) hg
  | @layerRange r _ => exact hrange "N" (by decide) r
  | verge _ hg => exact labelling_numbered (hletter "V" (by decide)) hg
  | slice _ hg => exact labelling_numbered (hletter "S" (by decide)) hg
  | @sliceRange r _ => exact hrange "S" (by decide) r

/-- Whether a text is made of letters, digits and dashes. -/
def Wordlike (text : String) : Prop := ∀ c ∈ text.toList, c.isAlphanum = true ∨ c = '-'

instance (text : String) : Decidable (Wordlike text) :=
  List.decidableBAll (fun c : Char => c.isAlphanum = true ∨ c = '-') text.toList

theorem Wordlike.append {text other : String} (h : Wordlike text) (h' : Wordlike other) :
    Wordlike (text ++ other) := by
  intro c hc
  rw [String.toList_append] at hc
  rcases List.mem_append.mp hc with hc | hc
  · exact h c hc
  · exact h' c hc

theorem Labelling.wordlike {text : String} (h : Labelling text) : Wordlike text := by
  have hsigns : ∀ c ∈ labelSigns, c.isAlphanum = true ∨ c = '-' :=
    List.all_iff_forall_prop.mp (by decide)
  intro c hc
  rcases h c hc with hdigit | hsign
  · simp [Char.isAlphanum, hdigit]
  · exact hsigns c hsign

/-- Every token of a move of the built-in notation is made of letters, digits and dashes. -/
theorem wordlike_of_mem_defaultMoves {e : String × Move} (h : e ∈ defaultMoves n) :
    Wordlike e.1 := by
  obtain ⟨g, hg, m, hm, face, hface, rfl⟩ := mem_defaultMoves_iff.mp h
  have hfaces : ∀ face ∈ faceLetters, Wordlike (String.singleton face) :=
    List.all_iff_forall_prop.mp (by decide)
  have hmarks : ∀ m ∈ turnMarks, Wordlike m.2 := by decide
  exact ((labelling_label hg).wordlike.append (hfaces face hface)).append (hmarks m hm)

/-! ## Tokens and symbols -/

theorem filter_bindings_symbol (h : 2 ≤ n) (hs : s ≠ .move) :
    ((ofLayerCount n h).bindings.filter fun b => b.1 = s) = defaultTokens.filter fun b => b.1 = s
    := by
  have hmoves : ((defaultMoves n).map fun e => (Symbol.move, e.1)).filter (fun b => b.1 = s) = []
      := by
    rw [List.filter_eq_nil_iff]
    intro b hb
    obtain ⟨e, -, rfl⟩ := List.mem_map.mp hb
    simpa using Ne.symm hs
  simp only [ofLayerCount, List.filter_append, hmoves, List.append_nil]

theorem filter_bindings_token (h : 2 ≤ n) (htoken : ¬Capital token) :
    ((ofLayerCount n h).bindings.filter fun b => b.2 = token) =
      defaultTokens.filter fun b => b.2 = token := by
  have hmoves : ((defaultMoves n).map fun e => (Symbol.move, e.1)).filter (fun b => b.2 = token) =
      [] := by
    rw [List.filter_eq_nil_iff]
    intro b hb heq
    obtain ⟨e, he, rfl⟩ := List.mem_map.mp hb
    have htext : e.1 = token := by simpa using heq
    exact htoken (htext ▸ capital_of_mem_defaultMoves he)
  simp only [ofLayerCount, List.filter_append, hmoves, List.append_nil]

theorem mem_tokens_ofLayerCount (h : 2 ≤ n) (htoken : ¬Capital token) :
    token ∈ (ofLayerCount n h).tokens ↔ token ∈ defaultTokens.map Prod.snd := by
  have hmoves : token ∉ (defaultMoves n).map Prod.fst := by
    intro hmem
    obtain ⟨e, he, rfl⟩ := List.mem_map.mp hmem
    exact htoken (capital_of_mem_defaultMoves he)
  unfold ofLayerCount
  simp only [List.mem_append, hmoves, or_false, List.mem_eraseDups]

/-! ## With a fixity of cycles -/

/-- The built-in notation for signs of cycles in some place. -/
def signed (n : Nat) (h : 2 ≤ n) (f : Fixity) : Notation :=
  let terms := { ofLayerCount n h with fixities := (⟨defaultFixities⟩ : Table _ _).put .permutation f }
  if f = .prefixed then terms.unbind .inversionOperator "-" else terms

/-- Its tokens other than those of moves. -/
def signedTokens (f : Fixity) : List (Symbol × String) :=
  defaultTokens.filter fun b => !(f = .prefixed && b = (.inversionOperator, "-"))

variable {f : Fixity}

theorem layerCount_signed (h : 2 ≤ n) : (signed n h f).layerCount = n := by
  unfold signed
  split <;> rfl

theorem macros_signed (h : 2 ≤ n) : (signed n h f).macros = ∅ := by
  unfold signed
  split <;> rfl

theorem tokens_signed (h : 2 ≤ n) : (signed n h f).tokens = (ofLayerCount n h).tokens := by
  unfold signed
  split
  · -- The minus sign is still a sign of cycles.
    have hminus : (Symbol.permutationMinus, "-") ∈ (ofLayerCount n h).bindings :=
      List.mem_append_left _ (by decide)
    unfold unbind
    simp only
    rw [if_pos]
    rw [List.any_eq_true]
    exact ⟨_, List.mem_filter.mpr ⟨hminus, by decide⟩, by decide⟩
  · rfl

theorem bindings_signed (h : 2 ≤ n) : (signed n h f).bindings =
    (ofLayerCount n h).bindings.filter fun b => !(f = .prefixed && b = (.inversionOperator, "-")) := by
  unfold signed
  split
  · rename_i hf
    simp [unbind, hf]
  · rename_i hf
    exact (List.filter_eq_self.mpr (by simp [hf])).symm

theorem move?_signed (h : 2 ≤ n) (token : String) :
    (signed n h f).move? token = (ofLayerCount n h).move? token := by
  unfold signed
  split <;> rfl

/-- A token of a move stands for a move. -/
theorem move_mem_symbolsFor_signed (h : 2 ≤ n) {e : String × Move} (he : e ∈ defaultMoves n) :
    .move ∈ (signed n h f).symbolsFor e.1 := by
  have hbinding : (.move, e.1) ∈ (signed n h f).bindings := by
    rw [bindings_signed, List.mem_filter]
    exact ⟨List.mem_append_right _ (List.mem_map.mpr ⟨e, he, rfl⟩), by simp⟩
  exact List.mem_map.mpr ⟨_, List.mem_filter.mpr ⟨hbinding, by simp⟩, rfl⟩

theorem fixity_signed (h : 2 ≤ n) (s : Symbol) : (signed n h f).fixity s =
    if s.composite = .permutation then f else (ofLayerCount n h).fixity s := by
  have hfixities : (signed n h f).fixities = (⟨defaultFixities⟩ : Table _ _).put .permutation f := by
    unfold signed
    split <;> rfl
  unfold fixity
  rw [hfixities, Table.get?_put]
  split
  · rename_i heq
    rw [if_pos heq.symm]
    rfl
  · rename_i hne
    rw [if_neg (Ne.symm hne)]
    rfl

theorem fixity_permutation (h : 2 ≤ n) (f : Fixity) : (signed n h f).fixity .permutation = f :=
  (fixity_signed h _).trans (if_pos rfl)

theorem supports_permutation (h : 2 ≤ n) : (signed n h f).supports .permutation = true := by
  have hcontains : (signed n h f).fixities.contains .permutation = true := by
    unfold signed
    split <;> rfl
  rw [supports, hcontains, Bool.true_or]

theorem filter_swap {α : Type} (p q : α → Bool) (l : List α) :
    (l.filter q).filter p = (l.filter p).filter q := by
  simp only [List.filter_filter, Bool.and_comm]

theorem tokensFor_signed (h : 2 ≤ n) (hs : s ≠ .move) :
    (signed n h f).tokensFor s = ((signedTokens f).filter fun b => b.1 = s).map Prod.snd := by
  unfold tokensFor signedTokens
  rw [bindings_signed, filter_swap, filter_bindings_symbol h hs, filter_swap]

theorem symbolsFor_signed (h : 2 ≤ n) (htoken : ¬Capital token) :
    (signed n h f).symbolsFor token = ((signedTokens f).filter fun b => b.2 = token).map Prod.fst
    := by
  unfold symbolsFor signedTokens
  rw [bindings_signed, filter_swap, filter_bindings_token h htoken, filter_swap]

/-- What a token stands for other than a move. -/
theorem mem_symbolsFor_signed (h : 2 ≤ n) (hs : s ≠ .move) :
    s ∈ (signed n h f).symbolsFor token ↔ (s, token) ∈ signedTokens f := by
  have hbinding : (s, token) ∈ (ofLayerCount n h).bindings ↔ (s, token) ∈ defaultTokens := by
    have hmoves : (s, token) ∉ (defaultMoves n).map fun e => (Symbol.move, e.1) := by
      intro hmem
      obtain ⟨e, -, heq⟩ := List.mem_map.mp hmem
      exact hs (Prod.mk.inj heq).1.symm
    simp only [ofLayerCount, List.mem_append, hmoves, or_false]
  rw [mem_symbolsFor, bindings_signed, List.mem_filter, hbinding, signedTokens, List.mem_filter]

theorem default_eq (h : 2 ≤ n) : Notation.default (n : Int) = .ok (ofLayerCount n h) := by
  unfold Notation.default
  rw [dif_pos (by omega)]
  rfl

end Notation

/-- The notation of a configuration without macros. -/
theorem Config.toNotation_eq {n : Nat} (h : 2 ≤ n) (f : Fixity) :
    Config.toNotation { layerCount := n, fixity := f } = .ok (Notation.signed n h f) := by
  unfold Config.toNotation
  rw [Notation.default_eq h]
  rfl

end CubeLang
