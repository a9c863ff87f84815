import CubeLang.Proofs.Token.Relocation
import Mathlib.Data.List.Infix

/-!
# Texts in front of a separator

A separator that is part of no keyword ends all that stands in front of it but an open comment: the
tokens of the text in front of it are those that they would be without it, and those of the text
behind it follow. Only a comment that has not met its closing mark would go on.
-/

set_option autoImplicit false

namespace CubeLang.Lexicon

open Text.Integer (Decimal)

variable {lex : Lexicon} {cs tail close : List Char} {c : Char} {position : Nat}

/-- The closing mark that the last comment of a text lacks. -/
def openComment? (lex : Lexicon) (cs : List Char) : Option (List Char) :=
  match _here : cs.dropWhile lex.isSkip with
  | [] => none
  | c :: rest =>
    match _found : lex.trie.longest? (c :: rest) with
    | some (.keyword, k) => lex.openComment? ((c :: rest).drop k)
    | some (.comment close, k) =>
      let behind := (c :: rest).drop k
      if close <:+: behind then lex.openComment? (behind.drop (closeLength close behind))
      else some close
    | none =>
      if lex.isDigit c then lex.openComment? ((c :: rest).dropWhile lex.isDigit)
      else lex.openComment? ((c :: rest).dropWhile lex.isPlain)
termination_by cs.length
decreasing_by
  all_goals
    have hle : (cs.dropWhile lex.isSkip).length ≤ cs.length := (List.dropWhile_suffix _).length_le
    rw [_here] at hle
  · have := Trie.longest?_bounds _found
    simp only [List.length_drop]
    omega
  · have := Trie.longest?_bounds _found
    simp only [List.length_drop]
    omega
  · exact Nat.lt_of_lt_of_le (length_dropWhile_lt ‹_›) hle
  · exact Nat.lt_of_lt_of_le (length_dropWhile_lt (isPlain_of_head _here ‹_›)) hle

theorem openComment?_of_nil (here : cs.dropWhile lex.isSkip = []) : lex.openComment? cs = none := by
  rw [openComment?]
  split
  · rfl
  · rename_i hcons
    rw [here] at hcons
    contradiction

/-- The comment that is open is one that begins behind what a text begins with, or begins it. -/
theorem openComment?_of_cons {rest : List Char} (here : cs.dropWhile lex.isSkip = c :: rest) :
    lex.openComment? cs =
      match lex.trie.longest? (c :: rest) with
      | some (.keyword, k) => lex.openComment? ((c :: rest).drop k)
      | some (.comment close, k) =>
        if close <:+: (c :: rest).drop k then
          lex.openComment? (((c :: rest).drop k).drop (closeLength close ((c :: rest).drop k)))
        else some close
      | none =>
        if lex.isDigit c then lex.openComment? ((c :: rest).dropWhile lex.isDigit)
        else lex.openComment? ((c :: rest).dropWhile lex.isPlain) := by
  rw [openComment?]
  split
  · rename_i hnil
    rw [here] at hnil
    contradiction
  · rename_i hcons
    obtain ⟨rfl, rfl⟩ := List.cons.inj (here.symm.trans hcons)
    cases lex.trie.longest? (c :: rest) with
    | none => rfl
    | some e =>
      obtain ⟨entry, k⟩ := e
      cases entry <;> rfl

/-- A closing mark that is lacking is that of a comment which the lexicon knows. -/
theorem exists_lookup?_of_openComment? (h : lex.openComment? cs = some close) :
    ∃ opening, lex.trie.lookup? opening = some (.comment close) := by
  fun_induction lex.openComment? cs with
  | case1 => contradiction
  | case4 =>
    rename_i found _ _
    obtain rfl := Option.some.inj h
    exact ⟨_, Trie.lookup?_take_of_longest? found⟩
  | _ =>
    rename_i ih
    exact ih h

/-! ## Closing marks -/

theorem closeLength_of_not_infix (h : ¬close <:+: cs) : closeLength close cs = cs.length := by
  induction cs with
  | nil => rfl
  | cons c cs ih =>
    have hfront : ¬close.isPrefixOf (c :: cs) = true := by
      intro hfront
      exact h (List.isPrefixOf_iff_prefix.mp hfront).isInfix
    rw [closeLength, if_neg hfront, ih fun hinside => h (hinside.trans (List.suffix_cons ..).isInfix),
      List.length_cons]

theorem closeLength_le_of_infix (h : close <:+: cs) : closeLength close cs ≤ cs.length := by
  induction cs with
  | nil => exact Nat.le_refl _
  | cons c cs ih =>
    rw [closeLength]
    split
    · exact h.length_le
    · rename_i hfront
      have hinside := (List.infix_cons_iff.mp h).resolve_left fun h =>
        hfront (List.isPrefixOf_iff_prefix.mpr h)
      exact Nat.succ_le_succ (ih hinside)

/-- A comment that is closed ends where it ended, whatever stands behind. -/
theorem closeLength_append_of_infix (h : close <:+: cs) (tail : List Char) :
    closeLength close (cs ++ tail) = closeLength close cs := by
  induction cs with
  | nil =>
    obtain rfl := List.eq_nil_of_infix_nil h
    cases tail <;> rfl
  | cons c cs ih =>
    rw [List.cons_append, closeLength, closeLength]
    by_cases hfront : close <+: c :: cs
    · have hlonger : close <+: c :: (cs ++ tail) := hfront.trans (List.prefix_append (c :: cs) tail)
      rw [if_pos (List.isPrefixOf_iff_prefix.mpr hlonger),
        if_pos (List.isPrefixOf_iff_prefix.mpr hfront)]
    · have hinside : close <:+: cs := (List.infix_cons_iff.mp h).resolve_left hfront
      have hlonger : ¬close <+: c :: (cs ++ tail) := by
        intro hlonger
        have hle : close.length ≤ (c :: cs).length :=
          Nat.le_trans hinside.length_le (Nat.le_succ _)
        exact hfront
          (List.prefix_of_prefix_length_le hlonger (List.prefix_append (c :: cs) tail) hle)
      rw [if_neg fun h => hlonger (List.isPrefixOf_iff_prefix.mp h),
        if_neg fun h => hfront (List.isPrefixOf_iff_prefix.mp h), ih hinside]

/-- What ends in front of the end of a text and in the front part of it is closed there. -/
theorem infix_of_closeLength_le (hle : closeLength close (cs ++ tail) ≤ cs.length)
    (hlt : closeLength close (cs ++ tail) < (cs ++ tail).length) : close <:+: cs := by
  induction cs with
  | nil =>
    cases tail with
    | nil => contradiction
    | cons d tail =>
      rw [List.nil_append, closeLength] at hle
      split at hle
      · obtain rfl := List.eq_nil_of_length_eq_zero (Nat.le_zero.mp hle)
        exact List.infix_refl []
      · contradiction
  | cons c cs ih =>
    rw [List.cons_append, closeLength] at hle hlt
    split at hle
    · rename_i hfront
      have hfront := List.isPrefixOf_iff_prefix.mp hfront
      exact (List.prefix_of_prefix_length_le hfront (List.prefix_append (c :: cs) tail) hle).isInfix
    · rename_i hfront
      rw [if_neg hfront] at hlt
      exact (ih (Nat.le_of_succ_le_succ hle) (Nat.lt_of_succ_lt_succ hlt)).trans
        (List.suffix_cons c cs).isInfix

theorem closeLength_append_cons (h : c ∉ cs) (tail : List Char) :
    closeLength [c] (cs ++ c :: tail) = cs.length + 1 := by
  induction cs with
  | nil => simp [closeLength]
  | cons d cs ih =>
    have hne : ¬c = d := fun heq => h (heq ▸ List.mem_cons_self)
    rw [List.cons_append, closeLength, if_neg (by simpa using hne),
      ih fun hmem => h (List.mem_cons_of_mem _ hmem), List.length_cons]

/-! ## Tokens in front of a separator -/

/-- Separators alone hold no token. -/
theorem scan_of_dropWhile_nil (h : cs.dropWhile lex.isSkip = []) (tail : List Char) :
    lex.scan position (cs ++ tail) = lex.scan (position + cs.length) tail := by
  induction cs generalizing position with
  | nil => rfl
  | cons c cs ih =>
    have hskip : lex.isSkip c = true := by
      by_cases hc : lex.isSkip c = true
      · exact hc
      · rw [List.dropWhile_cons_of_neg hc] at h
        contradiction
    rw [List.dropWhile_cons_of_pos hskip] at h
    rw [List.cons_append, scan_skip position hskip, ih h, List.length_cons]
    congr 1
    omega

theorem tokensFrom_congr {position' : Nat} {cs' : List Char}
    (h : lex.scan position cs = lex.scan position' cs') :
    lex.tokensFrom position cs = lex.tokensFrom position' cs' := by
  rw [tokensFrom_eq, h, ← tokensFrom_eq]

theorem tokensFrom_of_token {t : Token} {rest : List Char}
    (hscan : lex.scan position cs = .token t rest) :
    lex.tokensFrom position cs =
      (t :: (lex.tokensFrom t.stop rest).1, (lex.tokensFrom t.stop rest).2) := by
  rw [tokensFrom_eq, hscan]

theorem length_run (p : Char → Bool) (cs : List Char) :
    (cs.takeWhile p).length + (cs.dropWhile p).length = cs.length := by
  rw [← List.length_append, List.takeWhile_append_dropWhile]

/-- A run of characters that does not reach the end of a text is not longer in a longer text. -/
theorem run_append {rest : List Char} {d : Char} {p : Char → Bool}
    (here : cs.dropWhile p = d :: rest) (tail : List Char) :
    (cs ++ tail).dropWhile p = d :: (rest ++ tail) ∧
      (cs ++ tail).takeWhile p = cs.takeWhile p := by
  have hlength := length_run p cs
  rw [here] at hlength
  rw [List.dropWhile_append, List.takeWhile_append, here]
  refine ⟨rfl, if_neg ?_⟩
  rw [List.length_cons] at hlength
  omega

/-- A run of characters that ends in the front part of a text is the run of that part. -/
theorem run_append_of_length_le {p : Char → Bool}
    (h : ((cs ++ tail).takeWhile p).length ≤ cs.length) :
    (cs ++ tail).dropWhile p = cs.dropWhile p ++ tail ∧
      (cs ++ tail).takeWhile p = cs.takeWhile p := by
  cases here : cs.dropWhile p with
  | cons d rest => exact run_append here tail
  | nil =>
    have hall : cs.takeWhile p = cs := by
      simpa [here] using List.takeWhile_append_dropWhile (p := p) (l := cs)
    have hrest := length_run p tail
    rw [List.takeWhile_append, hall, if_pos rfl, List.length_append] at h
    have hnone : tail.takeWhile p = [] := List.eq_nil_of_length_eq_zero (by omega)
    have hdrop : tail.dropWhile p = tail := by
      simpa [hnone] using List.takeWhile_append_dropWhile (p := p) (l := tail)
    rw [List.dropWhile_append, List.takeWhile_append, here, hall, if_pos rfl, hnone, hdrop]
    simp

/-- A run of characters ends in front of one that does not belong to it. -/
theorem run_append_cons {p : Char → Bool} (hc : p c = false) (cs tail : List Char) :
    (cs ++ c :: tail).dropWhile p = cs.dropWhile p ++ c :: tail ∧
      (cs ++ c :: tail).takeWhile p = cs.takeWhile p := by
  cases here : cs.dropWhile p with
  | cons d rest => exact run_append here (c :: tail)
  | nil =>
    have hall : cs.takeWhile p = cs := by
      simpa [here] using List.takeWhile_append_dropWhile (p := p) (l := cs)
    rw [List.dropWhile_append, List.takeWhile_append, here, hall]
    simp [hc]

/-- So does it in front of nothing. -/
theorem run_append_of_head {p : Char → Bool} (htail : ∀ c ∈ tail.head?, p c = false) (cs : List Char) :
    (cs ++ tail).dropWhile p = cs.dropWhile p ++ tail ∧
      (cs ++ tail).takeWhile p = cs.takeWhile p := by
  cases tail with
  | nil => simp
  | cons c tail => exact run_append_cons (htail c rfl) cs tail

/-- The tokens of a text in front of a separator are those that it has alone, and those of the text
behind the separator follow. -/
def EndsAt (lex : Lexicon) (c : Char) (tail cs : List Char) : Prop :=
  ∀ position, (lex.tokensFrom position cs).2 = none →
    lex.tokensFrom position (cs ++ c :: tail) =
      ((lex.tokensFrom position cs).1 ++ (lex.tokensFrom (position + cs.length + 1) tail).1,
        (lex.tokensFrom (position + cs.length + 1) tail).2)

theorem EndsAt.of_token {rest : List Char} (hrest : lex.EndsAt c tail rest)
    (h : ∀ position, ∃ t, lex.scan position cs = .token t rest ∧
      lex.scan position (cs ++ c :: tail) = .token t (rest ++ c :: tail) ∧
      t.stop + rest.length = position + cs.length) : lex.EndsAt c tail cs := by
  intro position hread
  obtain ⟨t, hscan, hscan', hstop⟩ := h position
  rw [tokensFrom_of_token hscan] at hread ⊢
  rw [tokensFrom_of_token hscan', hrest t.stop hread, hstop, List.cons_append]

theorem EndsAt.of_scan {rest : List Char} (hrest : lex.EndsAt c tail rest)
    (h : ∀ position, ∃ position', lex.scan position cs = lex.scan position' rest ∧
      lex.scan position (cs ++ c :: tail) = lex.scan position' (rest ++ c :: tail) ∧
      position' + rest.length = position + cs.length) : lex.EndsAt c tail cs := by
  intro position hread
  obtain ⟨position', hscan, hscan', hstop⟩ := h position
  rw [tokensFrom_congr hscan] at hread ⊢
  rw [tokensFrom_congr hscan', hrest position' hread, hstop]

/-- A text without tokens, all of which and the separator are skipped. -/
theorem EndsAt.of_finished (h : ∀ position, lex.scan position cs = .finished ∧
    lex.scan position (cs ++ c :: tail) = lex.scan (position + cs.length + 1) tail) :
    lex.EndsAt c tail cs := by
  intro position _
  obtain ⟨hscan, hscan'⟩ := h position
  have hnone : lex.tokensFrom position cs = ([], none) := by rw [tokensFrom_eq, hscan]
  rw [hnone, List.nil_append, tokensFrom_congr hscan']

/-! ## What a text begins with -/

section

variable {d : Char} {rest : List Char} {k : Nat}
variable (habsent : ∀ v e, lex.trie.lookup? v = some e → c ∉ v)
variable (here : cs.dropWhile lex.isSkip = d :: rest)

include habsent in
/-- In front of a separator that no keyword has, the same keyword is found. -/
theorem longest?_append (d : Char) (rest tail : List Char) :
    lex.trie.longest? (d :: (rest ++ c :: tail)) = lex.trie.longest? (d :: rest) :=
  Trie.longest?_append_cons habsent (d :: rest) tail

include here

theorem length_skipped : (cs.takeWhile lex.isSkip).length + (d :: rest).length = cs.length := by
  rw [← here]
  exact length_run lex.isSkip cs

/-- The same is skipped in front of the first token. -/
theorem scan_append (position : Nat) (tail : List Char) : lex.scan position (cs ++ tail) =
    lex.scanBehind (position + (cs.takeWhile lex.isSkip).length) (d :: (rest ++ tail)) := by
  obtain ⟨here', hstart⟩ := run_append here tail
  rw [scan_of_dropWhile here', hstart]

include habsent

theorem endsAt_of_keyword (found : lex.trie.longest? (d :: rest) = some (.keyword, k))
    (hrest : lex.EndsAt c tail ((d :: rest).drop k)) : lex.EndsAt c tail cs := by
  obtain ⟨-, hle⟩ := Trie.longest?_bounds found
  have hlength := length_skipped here
  apply hrest.of_token
  intro position
  rw [scan_of_dropWhile here, scanBehind_keyword found, scan_append here,
    scanBehind_keyword ((longest?_append habsent ..).trans found), ← List.cons_append,
    List.take_append_of_le_length hle, List.drop_append_of_le_length hle]
  refine ⟨_, rfl, rfl, ?_⟩
  simp only [Token.ofChars, List.length_take, List.length_drop]
  omega

/-- A comment that is closed ends where it does alone. -/
theorem endsAt_of_comment {close : List Char}
    (found : lex.trie.longest? (d :: rest) = some (.comment close, k))
    (hclosed : close <:+: (d :: rest).drop k)
    (hrest : lex.EndsAt c tail
      (((d :: rest).drop k).drop (closeLength close ((d :: rest).drop k)))) :
    lex.EndsAt c tail cs := by
  obtain ⟨-, hle⟩ := Trie.longest?_bounds found
  have hlength := length_skipped here
  have hclose := closeLength_le_of_infix hclosed
  apply hrest.of_scan
  intro position
  rw [scan_of_dropWhile here, scanBehind_comment found, scan_append here,
    scanBehind_comment ((longest?_append habsent ..).trans found), ← List.cons_append,
    List.drop_append_of_le_length hle, closeLength_append_of_infix hclosed,
    List.drop_append_of_le_length hclose]
  refine ⟨_, rfl, rfl, ?_⟩
  have hlength' : ((d :: rest).drop k).length = (d :: rest).length - k := List.length_drop
  rw [List.length_drop]
  omega

/-- A comment that is not closed ends with the separator, if the separator closes it. -/
theorem endsAt_of_openComment (found : lex.trie.longest? (d :: rest) = some (.comment [c], k))
    (hclosed : ¬[c] <:+: (d :: rest).drop k) : lex.EndsAt c tail cs := by
  obtain ⟨-, hle⟩ := Trie.longest?_bounds found
  have hlength := length_skipped here
  -- The separator in front of the text would have closed the comment.
  have hmem : c ∉ (d :: rest).drop k := by
    intro hmem
    obtain ⟨front, after, hsplit⟩ := List.append_of_mem hmem
    exact hclosed ⟨front, after, by simp [hsplit]⟩
  have hdrop : ∀ behind : List Char, (behind ++ c :: tail).drop (behind.length + 1) = tail := by
    simp
  apply EndsAt.of_finished
  intro position
  have hplace : position + (cs.takeWhile lex.isSkip).length + k +
      (((d :: rest).drop k).length + 1) = position + cs.length + 1 := by
    rw [List.length_drop]
    omega
  rw [scan_of_dropWhile here, scanBehind_comment found, scan_append here,
    scanBehind_comment ((longest?_append habsent ..).trans found), ← List.cons_append,
    List.drop_append_of_le_length hle, closeLength_of_not_infix hclosed,
    closeLength_append_cons hmem, List.drop_length, hdrop, hplace]
  refine ⟨?_, rfl⟩
  rw [scan_eq]
  rfl

/-- A comment that is not closed goes on to the end of the text, where nothing is left to read. -/
theorem endsAt_nil_of_openComment (found : lex.trie.longest? (d :: rest) = some (.comment close, k))
    (hclosed : ¬close <:+: (d :: rest).drop k) : lex.EndsAt c [] cs := by
  obtain ⟨-, hle⟩ := Trie.longest?_bounds found
  have hfinished : ∀ position, lex.scan position [] = .finished := by
    intro position
    rw [scan_eq]
    rfl
  have hall : ((d :: rest).drop k ++ [c]).drop (closeLength close ((d :: rest).drop k ++ [c])) = [] := by
    apply List.drop_eq_nil_of_le
    by_contra hlt
    rw [Nat.not_le] at hlt
    refine hclosed (infix_of_closeLength_le (Nat.le_of_lt_succ ?_) hlt)
    rwa [List.length_append] at hlt
  apply EndsAt.of_finished
  intro position
  rw [scan_of_dropWhile here, scanBehind_comment found, scan_append here,
    scanBehind_comment ((longest?_append habsent ..).trans found), ← List.cons_append,
    List.drop_append_of_le_length hle, hall, closeLength_of_not_infix hclosed, List.drop_length,
    hfinished, hfinished, hfinished]
  exact ⟨rfl, rfl⟩

theorem endsAt_of_digits (hdigit : lex.isDigit c = false)
    (found : lex.trie.longest? (d :: rest) = none) (digit : lex.isDigit d = true)
    (hrest : lex.EndsAt c tail ((d :: rest).dropWhile lex.isDigit)) : lex.EndsAt c tail cs := by
  obtain ⟨hdrop, htake⟩ := run_append_cons hdigit (d :: rest) tail
  have hlength := length_skipped here
  cases hvalue : Text.Integer.parse? ((d :: rest).takeWhile lex.isDigit) with
  | none =>
    intro position hread
    rw [tokensFrom_eq, scan_of_dropWhile here, scanBehind_digits found digit, hvalue] at hread
    contradiction
  | some value =>
    apply hrest.of_token
    intro position
    rw [scan_of_dropWhile here, scanBehind_digits found digit, scan_append here,
      scanBehind_digits ((longest?_append habsent ..).trans found) digit, ← List.cons_append,
      hdrop, htake, hvalue]
    refine ⟨_, rfl, rfl, ?_⟩
    have hdigits := length_run lex.isDigit (d :: rest)
    simp only [Token.ofChars]
    omega

theorem endsAt_of_word (hplain : lex.isPlain c = false)
    (found : lex.trie.longest? (d :: rest) = none) (digit : ¬lex.isDigit d = true)
    (hrest : lex.EndsAt c tail ((d :: rest).dropWhile lex.isPlain)) : lex.EndsAt c tail cs := by
  obtain ⟨hdrop, htake⟩ := run_append_cons hplain (d :: rest) tail
  have hlength := length_skipped here
  apply hrest.of_token
  intro position
  rw [scan_of_dropWhile here, scanBehind_word found digit, scan_append here,
    scanBehind_word ((longest?_append habsent ..).trans found) digit, ← List.cons_append, hdrop,
    htake]
  refine ⟨_, rfl, rfl, ?_⟩
  have hword := length_run lex.isPlain (d :: rest)
  simp only [Token.ofChars]
  omega

end

section

variable (hskip : lex.isSkip c = true)
variable (habsent : ∀ v e, lex.trie.lookup? v = some e → c ∉ v)
include hskip habsent

/-- A separator ends the text in front of it, unless a comment is open that does not end there and in
which more is to follow. -/
theorem endsAt_of_openComment? (hopen : ∀ close ∈ lex.openComment? cs, close = [c] ∨ tail = []) :
    lex.EndsAt c tail cs := by
  have hdigit : lex.isDigit c = false := by
    rw [isSkip, decide_eq_true_eq] at hskip
    simp [isDigit, hskip]
  have hplain : lex.isPlain c = false := by
    rw [isSkip, decide_eq_true_eq] at hskip
    simp [isPlain, hskip]
  fun_induction lex.openComment? cs with
  | case1 cs here =>
    apply EndsAt.of_finished
    intro position
    rw [scan_of_dropWhile here, scan_of_dropWhile_nil here, scan_skip _ hskip]
    exact ⟨rfl, rfl⟩
  | case2 cs d rest here k found ih => exact endsAt_of_keyword habsent here found (ih hopen)
  | case3 =>
    rename_i here _ _ found _ hclosed ih
    exact endsAt_of_comment habsent here found hclosed (ih hopen)
  | case4 =>
    rename_i here close _ found _ hclosed
    rcases hopen close rfl with rfl | rfl
    · exact endsAt_of_openComment habsent here found hclosed
    · exact endsAt_nil_of_openComment habsent here found hclosed
  | case5 cs d rest here found digit ih =>
    exact endsAt_of_digits habsent here hdigit found digit (ih hopen)
  | case6 cs d rest here found digit ih =>
    exact endsAt_of_word habsent here hplain found digit (ih hopen)

end

/-! ## Numbers -/

theorem scan_ne_unreadable (hdigit : ∀ c, lex.isDigit c = true → Decimal c) {stop : Nat}
    {rest : List Char} : lex.scan position cs ≠ .unreadable stop rest := by
  fun_induction lex.scan position cs with
  | case3 =>
    rename_i ih
    exact ih
  | case5 =>
    rename_i position cs start c tail here found digit digits behind hvalue
    have hdigits : ∀ c ∈ digits, Decimal c :=
      fun c hc => hdigit c (List.all_eq_true.mp List.all_takeWhile c hc)
    have hne : digits ≠ [] := by simp [digits, digit]
    rw [Text.Integer.parse?_of_decimal hne hdigits] at hvalue
    contradiction
  | _ =>
    intro hscan
    contradiction

/-- If only decimal digits make numbers, every text is read to its end. -/
theorem ending_eq_none (hdigit : ∀ c, lex.isDigit c = true → Decimal c) :
    (lex.tokensFrom position cs).2 = none := by
  fun_induction lex.tokensFrom position cs with
  | case1 => rfl
  | case2 =>
    rename_i hscan
    exact absurd hscan (scan_ne_unreadable hdigit)
  | case3 =>
    rename_i hrest ih
    rw [hrest] at ih
    exact ih

end CubeLang.Lexicon
