import CubeLang.Text.Blank
import Mathlib.Data.List.TakeWhile

/-!
# Condensed texts

The normal form of a script has its words in order, and between two of them a line feed if there was a
line end and a space if there was none. This says letter by letter what `normalize` does by lines and
words, so that two readers of a text and of its normal form can be followed side by side.
-/

set_option autoImplicit false

namespace CubeLang.Text

variable {cs ds run : List Char} {c e : Char} {p : Char → Bool}

/-- Letters and digits are no blanks. -/
theorem isBlank_of_isAlphanum (h : c.isAlphanum = true) : isBlank c = false := by
  have h : ((decide (65 ≤ c.val ∧ c.val ≤ 90) || (decide (97 ≤ c.val) && decide (c.val ≤ 122))) ||
      (decide (48 ≤ c.val) && decide (c.val ≤ 57))) = true := h
  simp only [Bool.or_eq_true, Bool.and_eq_true, decide_eq_true_eq, UInt32.le_iff_toNat_le,
    Char.toNat_val] at h
  have hrange : ((65 ≤ c.toNat ∧ c.toNat ≤ 90) ∨ (97 ≤ c.toNat ∧ c.toNat ≤ 122)) ∨
      (48 ≤ c.toNat ∧ c.toNat ≤ 57) := h
  simp only [isBlank, Bool.and_eq_false_iff, Bool.or_eq_false_iff, decide_eq_false_iff_not,
    beq_eq_false_iff_ne, ne_eq]
  omega

/-- What a run of blanks between two words becomes. -/
def separator (run : List Char) : Char := if run.any isLineEnd then '\n' else ' '

theorem isBlank_separator (run : List Char) : isBlank (separator run) = true := by
  unfold separator
  split <;> decide

/-- A text and what it becomes if each run of blanks is made one character, and none at the end. -/
inductive Condenses : List Char → List Char → Prop
  | blank {cs : List Char} (h : ∀ c ∈ cs, isBlank c = true) : Condenses cs []
  | letter {c : Char} {cs ds : List Char} (hc : isBlank c = false) (h : Condenses cs ds) :
      Condenses (c :: cs) (c :: ds)
  | gap {run cs ds : List Char} {c : Char} (hne : run ≠ []) (hrun : ∀ b ∈ run, isBlank b = true)
      (hc : isBlank c = false) (h : Condenses (c :: cs) (c :: ds)) :
      Condenses (run ++ c :: cs) (separator run :: c :: ds)

namespace Condenses

/-- Letters become themselves. -/
theorem exists_of_letter (h : Condenses (c :: cs) ds) (hc : isBlank c = false) :
    ∃ ds', ds = c :: ds' ∧ Condenses cs ds' := by
  generalize htext : c :: cs = text at h
  cases h with
  | blank h =>
    have hblank := h c (htext ▸ List.mem_cons_self)
    rw [hc] at hblank
    contradiction
  | letter _ h =>
    obtain ⟨rfl, rfl⟩ := List.cons.inj htext
    exact ⟨_, rfl, h⟩
  | gap hne hrun =>
    obtain ⟨b, run, rfl⟩ := List.exists_cons_of_ne_nil hne
    obtain ⟨rfl, -⟩ := List.cons.inj htext
    have hblank := hrun c List.mem_cons_self
    rw [hc] at hblank
    contradiction

/-- Only a letter becomes a letter. -/
theorem exists_of_becomes_letter (h : Condenses cs (c :: ds)) (hc : isBlank c = false) :
    ∃ cs', cs = c :: cs' ∧ Condenses cs' ds := by
  generalize htext : c :: ds = text at h
  cases h with
  | blank => contradiction
  | letter _ h =>
    obtain ⟨rfl, rfl⟩ := List.cons.inj htext
    exact ⟨_, rfl, h⟩
  | @gap run =>
    obtain ⟨rfl, -⟩ := List.cons.inj htext
    rw [isBlank_separator] at hc
    contradiction

/-- Only blanks become nothing. -/
theorem isBlank_of_nil (h : Condenses cs []) : ∀ c ∈ cs, isBlank c = true := by
  cases h with
  | blank h => exact h

/-- Nothing becomes nothing. -/
theorem eq_nil_of_nil (h : Condenses [] ds) : ds = [] := by
  cases ds with
  | nil => rfl
  | cons d ds =>
    generalize hnil : [] = text at h
    cases h with
    | letter => contradiction
    | gap => simp at hnil

/-- A word becomes itself. -/
theorem append_word {word : List Char} (hword : ∀ c ∈ word, isBlank c = false)
    (h : Condenses cs ds) : Condenses (word ++ cs) (word ++ ds) := by
  induction word with
  | nil => exact h
  | cons c word ih =>
    exact .letter (hword c List.mem_cons_self)
      (ih fun d hd => hword d (List.mem_cons_of_mem c hd))

/-- Blanks in front may be left out in both texts. -/
theorem dropWhile (h : Condenses cs ds) :
    Condenses (cs.dropWhile isBlank) (ds.dropWhile isBlank) := by
  cases h with
  | blank h =>
    rw [List.dropWhile_eq_nil_iff.mpr h]
    exact .blank (List.forall_mem_nil _)
  | letter hc h =>
    rw [List.dropWhile_cons_of_neg (by simp [hc]), List.dropWhile_cons_of_neg (by simp [hc])]
    exact .letter hc h
  | @gap run cs ds c _ hrun hc h =>
    rw [List.dropWhile_append_of_pos hrun, List.dropWhile_cons_of_pos (isBlank_separator run),
      List.dropWhile_cons_of_neg (by simp [hc]), List.dropWhile_cons_of_neg (by simp [hc])]
    exact h

/-- The only blanks left are spaces and line feeds. -/
theorem eq_of_isBlank (h : Condenses cs ds) : ∀ b ∈ ds, isBlank b = true → b = ' ' ∨ b = '\n' := by
  induction h with
  | blank => exact List.forall_mem_nil _
  | letter hc _ ih =>
    refine List.forall_mem_cons.mpr ⟨fun hblank => ?_, ih⟩
    rw [hc] at hblank
    contradiction
  | @gap run _ _ _ _ _ _ _ ih =>
    refine List.forall_mem_cons.mpr ⟨fun _ => ?_, ih⟩
    unfold separator
    split
    · exact Or.inr rfl
    · exact Or.inl rfl

/-- Both texts begin with the same word, in front of blanks or of nothing. -/
theorem exists_word (h : Condenses cs ds) : ∃ word cs' ds', cs = word ++ cs' ∧ ds = word ++ ds' ∧
    (∀ c ∈ word, isBlank c = false) ∧ Condenses cs' ds' ∧
    (∀ c ∈ cs'.head?, isBlank c = true) ∧ ∀ c ∈ ds'.head?, isBlank c = true := by
  induction h with
  | @blank cs h =>
    exact ⟨[], cs, [], rfl, rfl, List.forall_mem_nil _, .blank h,
      fun c hc => h c (List.mem_of_mem_head? hc), nofun⟩
  | @letter c cs ds hc _ ih =>
    obtain ⟨word, cs', ds', rfl, rfl, hword, hothers⟩ := ih
    exact ⟨c :: word, cs', ds', rfl, rfl, List.forall_mem_cons.mpr ⟨hc, hword⟩, hothers⟩
  | @gap run cs ds c hne hrun hc h =>
    refine ⟨[], _, _, rfl, rfl, List.forall_mem_nil _, .gap hne hrun hc h, fun b hb => ?_,
      fun b hb => ?_⟩
    · obtain ⟨first, run, rfl⟩ := List.exists_cons_of_ne_nil hne
      exact Option.some.inj hb ▸ hrun first List.mem_cons_self
    · rw [List.head?_cons] at hb
      exact Option.some.inj hb ▸ isBlank_separator run

/-- A text without the blanks in front begins with a letter. -/
theorem exists_of_dropWhile {rest : List Char} (h : Condenses (rest.dropWhile isBlank) (c :: ds)) :
    ∃ cs, isBlank c = false ∧ rest = rest.takeWhile isBlank ++ c :: cs ∧
      Condenses (c :: cs) (c :: ds) := by
  have hrest : rest.takeWhile isBlank ++ rest.dropWhile isBlank = rest :=
    List.takeWhile_append_dropWhile
  cases hdrop : rest.dropWhile isBlank with
  | nil =>
    rw [hdrop] at h
    exact absurd h.eq_nil_of_nil (List.cons_ne_nil c ds)
  | cons d cs =>
    have hd : isBlank d = false := by
      have hhead := List.head?_dropWhile_not isBlank rest
      rwa [hdrop, List.head?_cons] at hhead
    rw [hdrop] at h hrest
    obtain ⟨_, heq, -⟩ := h.exists_of_letter hd
    obtain ⟨rfl, rfl⟩ := List.cons.inj heq
    exact ⟨cs, hd, hrest.symm, h⟩

/-- A text that becomes nothing has nothing behind the blanks in front. -/
theorem dropWhile_eq_nil {rest : List Char} (h : Condenses (rest.dropWhile isBlank) []) :
    rest.dropWhile isBlank = [] := by
  rw [List.dropWhile_eq_nil_iff]
  intro c hc
  rw [← List.takeWhile_append_dropWhile (p := isBlank) (l := rest)] at hc
  rcases List.mem_append.mp hc with hc | hc
  · exact List.all_eq_true.mp List.all_takeWhile c hc
  · exact h.isBlank_of_nil c hc

/-- Two texts are condensed with what the blanks between them become, if the one in front has no line
end and the other one a letter. -/
theorem join {line front rest behind : List Char} (h : Condenses line front)
    (hline : ∀ c ∈ line, isLineEnd c = false) (he : isBlank e = true)
    (hrest : Condenses (rest.dropWhile isBlank) behind) :
    Condenses (line ++ e :: rest)
      (front ++ if behind.isEmpty then [] else separator (e :: rest.takeWhile isBlank) :: behind) := by
  induction h with
  | @blank line hblank =>
    cases behind with
    | nil =>
      refine .blank fun c hc => ?_
      rcases List.mem_append.mp hc with hc | hc
      · exact hblank c hc
      · rcases List.mem_cons.mp hc with rfl | hc
        · exact he
        · exact List.dropWhile_eq_nil_iff.mp hrest.dropWhile_eq_nil c hc
    | cons c behind =>
      obtain ⟨cs, hc, hsplit, hbehind⟩ := hrest.exists_of_dropWhile
      have hseparator : separator (line ++ e :: rest.takeWhile isBlank) =
          separator (e :: rest.takeWhile isBlank) := by
        have hnone : line.any isLineEnd = false :=
          List.any_eq_false.mpr fun c hc => by simp [hline c hc]
        rw [separator, separator, List.any_append, hnone, Bool.false_or]
      have htext : line ++ e :: rest = (line ++ e :: rest.takeWhile isBlank) ++ c :: cs := by
        rw [List.append_assoc, List.cons_append, ← hsplit]
      rw [htext, ← hseparator]
      refine .gap (by simp) (fun b hb => ?_) hc hbehind
      rcases List.mem_append.mp hb with hb | hb
      · exact hblank b hb
      · rcases List.mem_cons.mp hb with rfl | hb
        · exact he
        · exact List.all_eq_true.mp List.all_takeWhile b hb
  | letter hc _ ih =>
    exact .letter hc (ih fun d hd => hline d (List.mem_cons_of_mem _ hd))
  | gap hne hrun hc _ ih =>
    rw [List.append_assoc]
    exact .gap hne hrun hc (ih fun d hd => hline d (List.mem_append_right _ hd))

end Condenses

/-! ## Pieces -/

theorem pieces_of_free (h : ∀ c ∈ cs, p c = false) : pieces p cs = [cs] := by
  induction cs with
  | nil => rfl
  | cons c cs ih =>
    rw [pieces, h c List.mem_cons_self, ih fun d hd => h d (List.mem_cons_of_mem c hd)]
    rfl

theorem pieces_append_cons {front : List Char} (h : ∀ c ∈ front, p c = false) (he : p e = true)
    (rest : List Char) : pieces p (front ++ e :: rest) = front :: pieces p rest := by
  induction front with
  | nil => rw [List.nil_append, pieces, if_pos he]
  | cons c front ih =>
    rw [List.cons_append, pieces, h c List.mem_cons_self,
      ih fun d hd => h d (List.mem_cons_of_mem c hd)]
    rfl

/-- A text is one piece, or there is a first one and then the others. -/
theorem induction_on_pieces (p : Char → Bool) {motive : List Char → Prop}
    (free : ∀ cs, (∀ c ∈ cs, p c = false) → motive cs)
    (cut : ∀ front e rest, (∀ c ∈ front, p c = false) → p e = true → motive rest →
      motive (front ++ e :: rest)) (cs : List Char) : motive cs := by
  have hfront : ∀ c ∈ cs.takeWhile (fun c => !p c), p c = false := fun c hc => by
    simpa using List.all_eq_true.mp List.all_takeWhile c hc
  have hcs : cs.takeWhile (fun c => !p c) ++ cs.dropWhile (fun c => !p c) = cs :=
    List.takeWhile_append_dropWhile
  cases hdrop : cs.dropWhile fun c => !p c with
  | nil =>
    rw [hdrop, List.append_nil] at hcs
    exact hcs ▸ free _ hfront
  | cons e rest =>
    have he : p e = true := by
      have hhead := List.head?_dropWhile_not (fun c => !p c) cs
      rw [hdrop, List.head?_cons] at hhead
      simpa using hhead
    have hlt : rest.length < cs.length := by
      have hle := (List.dropWhile_suffix fun c => !p c : cs.dropWhile _ <:+ cs).length_le
      rw [hdrop] at hle
      exact hle
    rw [hdrop] at hcs
    exact hcs ▸ cut _ e rest hfront he (induction_on_pieces p free cut rest)
termination_by cs.length

/-- What is made of the pieces of a text, one after the other and without the empty ones. -/
def joined (p : Char → Bool) (g : List Char → List Char) (sep : Char) (cs : List Char) : List Char :=
  [sep].intercalate (((pieces p cs).map g).filter fun w => !w.isEmpty)

section

variable (g : List Char → List Char) (sep : Char)

theorem intercalate_cons (word : List Char) {words : List (List Char)}
    (hwords : ∀ w ∈ words, w ≠ []) : [sep].intercalate (word :: words) =
      word ++ if ([sep].intercalate words).isEmpty then [] else sep :: [sep].intercalate words := by
  cases words with
  | nil => simp [List.intercalate]
  | cons w words =>
    have hne : ([sep].intercalate (w :: words)).isEmpty = false := by
      have hw : w ≠ [] := hwords w List.mem_cons_self
      cases words <;> simp [List.intercalate, hw]
    rw [hne]
    simp [List.intercalate]

theorem joined_of_free (h : ∀ c ∈ cs, p c = false) : joined p g sep cs = g cs := by
  rw [joined, pieces_of_free h, List.map_singleton]
  cases hg : g cs <;> simp [List.intercalate]

theorem joined_append_cons {front : List Char} (h : ∀ c ∈ front, p c = false) (he : p e = true)
    (rest : List Char) : joined p g sep (front ++ e :: rest) =
      if (g front).isEmpty then joined p g sep rest
      else g front ++ if (joined p g sep rest).isEmpty then [] else sep :: joined p g sep rest := by
  have hwords : ∀ w ∈ ((pieces p rest).map g).filter fun w => !w.isEmpty, w ≠ [] := by
    intro w hw
    simpa using (List.mem_filter.mp hw).2
  rw [joined, pieces_append_cons h he, List.map_cons, List.filter_cons]
  split
  · rename_i hne
    have hne : (g front).isEmpty = false := by simpa using hne
    rw [intercalate_cons sep _ hwords, hne]
    rfl
  · rename_i hempty
    have hempty : (g front).isEmpty = true := by simpa using hempty
    rw [if_pos hempty, joined]

end

/-! ## Normal forms -/

/-- A text is condensed by its pieces. They are made up of some characters, which decide what a run of
blanks between them becomes. -/
theorem condenses_joined {g : List Char → List Char} {sep : Char} (allowed : Char → Prop)
    (hp : ∀ c, p c = true → isBlank c = true)
    (hline : ∀ c, p c = false → allowed c → isLineEnd c = false)
    (hpiece : ∀ piece : List Char, (∀ c ∈ piece, p c = false ∧ allowed c) →
      Condenses (piece.dropWhile isBlank) (g piece))
    (hsep : ∀ e run, p e = true → (∀ c ∈ e :: run, allowed c) → separator (e :: run) = sep)
    (hcs : ∀ c ∈ cs, allowed c) : Condenses (cs.dropWhile isBlank) (joined p g sep cs) := by
  induction cs using induction_on_pieces p with
  | free piece hfree =>
    rw [joined_of_free g sep hfree]
    exact hpiece piece fun c hc => ⟨hfree c hc, hcs c hc⟩
  | cut front e rest hfree he ih =>
    have hfront := hpiece front fun c hc => ⟨hfree c hc, hcs c (List.mem_append_left _ hc)⟩
    have hrest := ih fun c hc => hcs c (List.mem_append_right _ (List.mem_cons_of_mem e hc))
    rw [joined_append_cons g sep hfree he]
    split
    · rename_i hempty
      rw [List.isEmpty_iff.mp hempty] at hfront
      rw [List.dropWhile_append, hfront.dropWhile_eq_nil, List.isEmpty_nil, if_pos rfl,
        List.dropWhile_cons_of_pos (hp e he)]
      exact hrest
    · rename_i hne
      have hletter : front.dropWhile isBlank ≠ [] := by
        intro hnil
        rw [hnil] at hfront
        exact hne (List.isEmpty_iff.mpr hfront.eq_nil_of_nil)
      have hends : separator (e :: rest.takeWhile isBlank) = sep := by
        refine hsep e _ he fun c hc => hcs c (List.mem_append_right _ ?_)
        exact (List.cons_sublist_cons.mpr (List.takeWhile_sublist isBlank)).mem hc
      have hjoined := hfront.join (fun c hc => ?_) (hp e he) hrest
      · rw [hends] at hjoined
        rwa [List.dropWhile_append, if_neg (by simpa using hletter)]
      · have hmem := (List.dropWhile_suffix isBlank).mem hc
        exact hline c (hfree c hmem) (hcs c (List.mem_append_left _ hmem))

/-- Lines are condensed by their words. -/
theorem condenses_normalizeLine {line : List Char} (hline : ∀ c ∈ line, isLineEnd c = false) :
    Condenses (line.dropWhile isBlank) (normalizeLine line) := by
  have hwords : normalizeLine line = joined isBlank id ' ' line := by
    rw [normalizeLine, words, joined, List.map_id]
  rw [hwords]
  refine condenses_joined (fun c => isLineEnd c = false) (fun _ hc => hc) (fun _ _ hc => hc)
    (fun word hword => ?_) (fun e run he hrun => ?_) hline
  · have hword : ∀ c ∈ word, isBlank c = false := fun c hc => (hword c hc).1
    have hself := Condenses.append_word hword (.blank (List.forall_mem_nil _))
    rw [List.append_nil] at hself
    cases word with
    | nil => exact hself
    | cons c word => rwa [List.dropWhile_cons_of_neg (by simp [hword c List.mem_cons_self])]
  · have hnone : (e :: run).any isLineEnd = false :=
      List.any_eq_false.mpr fun c hc => by simp [hrun c hc]
    rw [separator, hnone]
    rfl

/-- **The normal form of a text is the text condensed**, without the blanks in front. -/
theorem condenses_normalize (text : List Char) :
    Condenses (text.dropWhile isBlank) (normalize text) := by
  have hlines : normalize text = joined isLineEnd normalizeLine '\n' text := rfl
  rw [hlines]
  refine condenses_joined (fun _ => True) isBlank_of_isLineEnd (fun _ hc _ => hc)
    (fun line hline => condenses_normalizeLine fun c hc => (hline c hc).1) (fun e run he _ => ?_)
    fun _ _ => trivial
  rw [separator, List.any_cons, he]
  rfl

end CubeLang.Text
