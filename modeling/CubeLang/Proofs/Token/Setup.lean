import CubeLang.Proofs.Grammar.Lexicon
import Mathlib.Data.List.Induction

/-!
# Lexicons set up by calls

A lexicon comes about by calls that make characters separators or digits and that add keywords and
openings of comments, in any order and any number. What such a lexicon does can be told from the
calls alone: a character has the role that it was given last, a text is known if it was ever added,
and it opens a comment if it was ever added as an opening, with the closing mark that came last.
-/

set_option autoImplicit false

namespace CubeLang.Lexicon

open Text.Integer (Decimal)

/-- A call that sets a lexicon up. -/
inductive Call where
  | skip (text : List Char)
  | digits (first last : Char)
  | keyword (text : List Char)
  | comment (opening close : List Char)

namespace Call

/-- Makes a call. -/
def make : Call → Edit
  | skip text => modify fun lex => lex.addSkip text
  | digits first last => modify fun lex => lex.addDigits first last
  | keyword text => addKeyword text
  | comment opening close => addComment opening close

/-- Makes calls, up to the first that fails. -/
def makeAll : List Call → Edit
  | [] => pure ()
  | call :: calls => do
    call.make
    makeAll calls

/-- Whether a call adds no empty text and makes numbers of decimal digits only. -/
def Proper : Call → Prop
  | skip _ => True
  | digits first last => ∀ c, first ≤ c → c ≤ last → Decimal c
  | keyword text => text ≠ []
  | comment opening _ => opening ≠ []

/-! ## What calls say -/

/-- The role that a call gives to a character. -/
def roleOf? (c : Char) : Call → Option Role
  | skip text => if text = [c] then some .skip else none
  | digits first last => if first ≤ c ∧ c ≤ last then some .digit else none
  | _ => none

/-- The text that a call adds. -/
def text? : Call → Option (List Char)
  | keyword text => some text
  | comment opening _ => some opening
  | _ => none

/-- Whether a call adds no empty text. -/
def Filled (call : Call) : Prop := call.text? ≠ some []

/-- The closing mark that a call gives to an opening. -/
def closeOf? (text : List Char) : Call → Option (List Char)
  | comment opening close => if opening = text then some close else none
  | _ => none

/-- The role that some calls give to a character: the last one. -/
def role? (calls : List Call) (c : Char) : Option Role :=
  (calls.filterMap (roleOf? c)).getLast?

/-- The texts that some calls add. -/
def texts (calls : List Call) : List (List Char) :=
  calls.filterMap text?

/-- The closing mark of a text that some calls make an opening: the last one. -/
def close? (calls : List Call) (text : List Char) : Option (List Char) :=
  (calls.filterMap (closeOf? text)).getLast?

/-! ## What calls do -/

/-- The lexicon after a call that adds no empty text. -/
def apply (lex : Lexicon) : Call → Lexicon
  | skip text => lex.addSkip text
  | digits first last => lex.addDigits first last
  | keyword text => lex.insert .keyword text
  | comment opening close => lex.insert (.comment close) opening

/-- The lexicon that some calls make. -/
def lexicon (calls : List Call) : Lexicon := calls.foldl apply {}

variable {call : Call} {calls : List Call} {lex : Lexicon} {c : Char} {w : List Char}

theorem Proper.filled (h : call.Proper) : call.Filled := by
  unfold Filled
  cases call with
  | keyword text => exact fun heq => h (Option.some.inj heq)
  | comment opening close => exact fun heq => h (Option.some.inj heq)
  | _ => nofun

/-- A call that adds no empty text does not fail, and one that does fails. -/
theorem make_eq (call : Call) (lex : Lexicon) : call.make lex =
    if call.text? = some [] then .error .emptyKeyword lex else .ok () (apply lex call) := by
  have hadd : ∀ e text, add e text lex =
      if text = [] then .error .emptyKeyword lex else .ok () (lex.insert e text) := by
    intro e text
    split
    · rename_i htext
      subst htext
      rfl
    · exact add_run ‹_›
  cases call with
  | skip text => rfl
  | digits first last => rfl
  | keyword text =>
    refine (hadd .keyword text).trans ?_
    simp only [text?, Option.some.injEq, apply]
  | comment opening close =>
    refine (hadd (.comment close) opening).trans ?_
    simp only [text?, Option.some.injEq, apply]

/-- Calls are all accepted if none adds an empty text. -/
theorem makeAll_eq_ok_iff {lex' : Lexicon} : makeAll calls lex = .ok () lex' ↔
    (∀ call ∈ calls, call.Filled) ∧ lex' = calls.foldl apply lex := by
  induction calls generalizing lex with
  | nil =>
    refine ⟨fun h => ⟨by simp, (EStateM.Result.ok.inj h).2.symm⟩, ?_⟩
    rintro ⟨-, rfl⟩
    rfl
  | cons call calls ih =>
    rw [List.forall_mem_cons, List.foldl_cons, makeAll]
    by_cases hempty : call.text? = some []
    · have hfail := make_eq call lex
      rw [if_pos hempty] at hfail
      rw [bind_of_error hfail]
      exact ⟨nofun, fun h => absurd hempty h.1.1⟩
    · have hmake := make_eq call lex
      rw [if_neg hempty] at hmake
      rw [bind_of_ok hmake, ih]
      exact ⟨fun h => ⟨⟨hempty, h.1⟩, h.2⟩, fun h => ⟨h.1.2, h.2⟩⟩

/-- Calls that add no empty texts do not fail. -/
theorem makeAll_of_proper (h : ∀ call ∈ calls, call.Proper) :
    makeAll calls lex = .ok () (calls.foldl apply lex) :=
  makeAll_eq_ok_iff.mpr ⟨fun call hcall => (h call hcall).filled, rfl⟩

/-! ### Roles -/

theorem role?_assign (lex : Lexicon) (first last : Nat) (role : Role) (c : Char) :
    (lex.assign first last role).role? c =
      if first ≤ c.toNat ∧ c.toNat ≤ last then some role else lex.role? c := by
  unfold assign Lexicon.role?
  rw [List.find?_cons]
  by_cases h : first ≤ c.toNat ∧ c.toNat ≤ last
  · simp [h]
  · have hcovered : (decide (first ≤ c.toNat) && decide (c.toNat ≤ last)) = false := by
      simpa using h
    rw [hcovered, if_neg h]

theorem role?_addSkip (lex : Lexicon) (text : List Char) (c : Char) :
    (lex.addSkip text).role? c = if text = [c] then some .skip else lex.role? c := by
  unfold addSkip
  split
  · rename_i d
    have heq : (d.toNat ≤ c.toNat ∧ c.toNat ≤ d.toNat) ↔ [d] = [c] := by
      rw [← Nat.le_antisymm_iff, Char.toNat_inj, List.singleton_inj]
    rw [role?_assign]
    exact ite_congr (propext heq) (fun _ => rfl) (fun _ => rfl)
  · rename_i hmany
    rw [if_neg (hmany c)]

theorem role?_apply (lex : Lexicon) (call : Call) (c : Char) :
    (apply lex call).role? c = (call.roleOf? c).or (lex.role? c) := by
  cases call with
  | skip text =>
    rw [apply, role?_addSkip, roleOf?]
    split <;> rfl
  | digits first last =>
    have hrange : (first.toNat ≤ c.toNat ∧ c.toNat ≤ last.toNat) ↔ (first ≤ c ∧ c ≤ last) := Iff.rfl
    rw [apply, addDigits, role?_assign, roleOf?, ite_congr (propext hrange) (fun _ => rfl)
      (fun _ => rfl)]
    split <;> rfl
  | keyword text => rfl
  | comment opening close => rfl

/-- A character has the role that it was given last. -/
theorem role?_lexicon (calls : List Call) (c : Char) : (lexicon calls).role? c = role? calls c := by
  induction calls using List.reverseRecOn with
  | nil => rfl
  | append_singleton calls call ih =>
    unfold lexicon at ih ⊢
    unfold role? at ih ⊢
    rw [List.foldl_append, List.foldl_cons, List.foldl_nil, role?_apply, ih, List.filterMap_append,
      List.getLast?_append]
    cases hrole : call.roleOf? c <;> simp [hrole]

/-- Only decimal digits were made digits. -/
theorem decimal_of_role? (h : ∀ call ∈ calls, call.Proper) (hrole : role? calls c = some .digit) :
    Decimal c := by
  obtain ⟨call, hcall, hc⟩ := List.mem_filterMap.mp (List.mem_of_getLast? hrole)
  cases call with
  | digits first last =>
    obtain ⟨hrange, -⟩ := Option.ite_none_right_eq_some.mp hc
    exact h _ hcall c hrange.1 hrange.2
  | skip text =>
    obtain ⟨-, hskip⟩ := Option.ite_none_right_eq_some.mp hc
    contradiction
  | _ => contradiction

/-! ### Texts -/

theorem ne_nil_of_mem_texts (h : ∀ call ∈ calls, call.Filled) (hw : w ∈ texts calls) : w ≠ [] := by
  obtain ⟨call, hcall, htext⟩ := List.mem_filterMap.mp hw
  rintro rfl
  exact h call hcall htext

/-- What a text is that is known: an opening if it has a closing mark. -/
def entryOf : Option (List Char) → Trie.Entry
  | none => .keyword
  | some close => .comment close

theorem close?_eq_none_of_notMem (h : w ∉ texts calls) : close? calls w = none := by
  rw [close?, List.getLast?_eq_none_iff, List.filterMap_eq_nil_iff]
  intro call hcall
  cases call with
  | comment opening close =>
    refine if_neg ?_
    rintro rfl
    exact h (List.mem_filterMap.mpr ⟨_, hcall, rfl⟩)
  | _ => rfl

/-- A text is known if it was added, and it is an opening if it was ever added as one. -/
theorem lookup?_lexicon (calls : List Call) (w : List Char) : (lexicon calls).trie.lookup? w =
    if w ∈ texts calls then some (entryOf (close? calls w)) else none := by
  induction calls using List.reverseRecOn with
  | nil => exact Trie.lookup?_empty w
  | append_singleton calls call ih =>
    have hlexicon : lexicon (calls ++ [call]) = apply (lexicon calls) call := by
      unfold lexicon
      rw [List.foldl_append, List.foldl_cons, List.foldl_nil]
    have htexts : texts (calls ++ [call]) = texts calls ++ call.text?.toList := by
      unfold texts
      rw [List.filterMap_append]
      cases call <;> rfl
    have hclose : close? (calls ++ [call]) w = (call.closeOf? w).or (close? calls w) := by
      unfold close?
      rw [List.filterMap_append, List.getLast?_append]
      cases hlast : call.closeOf? w <;> simp [hlast]
    rw [hlexicon, htexts, hclose]
    cases call with
    | skip text =>
      have hsame : ((lexicon calls).addSkip text).trie = (lexicon calls).trie := by
        unfold addSkip
        split <;> rfl
      rw [apply, hsame, ih]
      simp [text?, closeOf?]
    | digits first last =>
      rw [apply, addDigits, assign, ih]
      simp [text?, closeOf?]
    | keyword text =>
      rw [apply, insert, Trie.lookup?_insert]
      by_cases hw : w = text
      · subst hw
        have hadded : w ∈ texts calls ++ (keyword w).text?.toList := by simp [text?]
        rw [if_pos rfl, if_pos hadded, ih]
        -- A keyword that is an opening already stays one.
        by_cases hknown : w ∈ texts calls
        · rw [if_pos hknown]
          cases close? calls w <;> rfl
        · rw [if_neg hknown, close?_eq_none_of_notMem hknown]
          rfl
      · rw [if_neg hw, ih]
        simp [text?, closeOf?, hw]
    | comment opening close =>
      rw [apply, insert, Trie.lookup?_insert]
      by_cases hw : w = opening
      · subst hw
        rw [if_pos rfl, if_pos (by simp [text?])]
        simp [closeOf?, entryOf, Trie.Entry.merge]
      · rw [if_neg hw, ih]
        simp [text?, closeOf?, hw, Ne.symm hw]

end Call

end CubeLang.Lexicon
