import CubeLang.Proofs.Text.Condensed
import CubeLang.Proofs.Token.Boundaries

/-!
# Tokens of condensed texts

Where blanks are part of no keyword and of no number, a text without words has the same lexemes when its
blanks are condensed. A comment up to the end of its line is the exception: there are more line ends than
the line feed that closes it, and each of them becomes a line feed. So behind its first line end such a
comment may have nothing but blanks.
-/

set_option autoImplicit false

namespace CubeLang.Lexicon

open Text (isBlank isLineEnd Condenses)

variable {lex : Lexicon} {cs ds rest close : List Char} {c d : Char} {k : Nat}

/-! ## Comments -/

/-- The comments of a text: the closing mark of each, and what stands behind its opening up to there,
the mark included. -/
def comments (lex : Lexicon) (cs : List Char) : List (List Char × List Char) :=
  match _here : cs.dropWhile lex.isSkip with
  | [] => []
  | c :: rest =>
    match _found : lex.trie.longest? (c :: rest) with
    | some (.keyword, k) => lex.comments ((c :: rest).drop k)
    | some (.comment close, k) =>
      let behind := (c :: rest).drop k
      let k' := closeLength close behind
      (close, behind.take k') :: lex.comments (behind.drop k')
    | none =>
      if lex.isDigit c then lex.comments ((c :: rest).dropWhile lex.isDigit)
      else lex.comments ((c :: rest).dropWhile lex.isPlain)
termination_by cs.length
decreasing_by
  all_goals
    have hle : (cs.dropWhile lex.isSkip).length ≤ cs.length := (List.dropWhile_suffix _).length_le
    rw [_here] at hle
  · have := Trie.longest?_bounds _found
    simp only [List.length_drop]
    omega
  · have := Trie.longest?_bounds _found
    simp only [List.length_drop]
    omega
  · exact Nat.lt_of_lt_of_le (length_dropWhile_lt ‹_›) hle
  · exact Nat.lt_of_lt_of_le (length_dropWhile_lt (isPlain_of_head _here ‹_›)) hle

/-- Whether a comment has nothing but blanks behind its first line end. -/
def OnOneLine (comment : List Char) : Prop :=
  ∀ c ∈ comment.dropWhile fun c => !isLineEnd c, isBlank c = true

instance (comment : List Char) : Decidable (OnOneLine comment) :=
  List.decidableBAll (fun c => isBlank c = true) _

/-! ## Closing marks -/

theorem closeLength_append_of_notMem {run : List Char} (hc : ∀ c ∈ close.head?, c ∉ run)
    (hne : close ≠ []) (cs : List Char) :
    closeLength close (run ++ cs) = run.length + closeLength close cs := by
  induction run with
  | nil => simp
  | cons b run ih =>
    obtain ⟨c, close, rfl⟩ := List.exists_cons_of_ne_nil hne
    have hb : ¬c = b := fun heq => hc c rfl (heq ▸ List.mem_cons_self)
    rw [List.cons_append, closeLength, if_neg (by simp [hb]),
      ih fun d hd hmem => hc d hd (List.mem_cons_of_mem b hmem), List.length_cons]
    omega

theorem drop_closeLength_append {run : List Char} (hc : ∀ c ∈ close.head?, c ∉ run)
    (hne : close ≠ []) (cs : List Char) : (run ++ cs).drop (closeLength close (run ++ cs)) =
      cs.drop (closeLength close cs) := by
  rw [closeLength_append_of_notMem hc hne, ← List.drop_drop, List.drop_left]

/-- Behind a comment with a mark at its end a text and the condensed one go on alike. -/
theorem condenses_behind_mark (h : Condenses cs ds) :
    Condenses (cs.drop (closeLength ['*', '/'] cs)) (ds.drop (closeLength ['*', '/'] ds)) := by
  have hne : ['*', '/'] ≠ [] := List.cons_ne_nil _ _
  induction h with
  | @blank cs h =>
    rw [List.drop_nil]
    exact .blank fun c hc => h c (List.mem_of_mem_drop hc)
  | @letter c cs ds hc h ih =>
    by_cases hmark : ∃ cs', c = '*' ∧ cs = '/' :: cs'
    · obtain ⟨cs', rfl, rfl⟩ := hmark
      obtain ⟨ds', rfl, h'⟩ := h.exists_of_letter (by decide)
      exact h'
    · have hcs : ¬['*', '/'].isPrefixOf (c :: cs) = true := by
        intro hfront
        obtain ⟨cs', hcs'⟩ := List.isPrefixOf_iff_prefix.mp hfront
        obtain ⟨rfl, rfl⟩ := List.cons.inj hcs'
        exact hmark ⟨cs', rfl, rfl⟩
      have hds : ¬['*', '/'].isPrefixOf (c :: ds) = true := by
        intro hfront
        obtain ⟨ds', hds'⟩ := List.isPrefixOf_iff_prefix.mp hfront
        obtain ⟨rfl, rfl⟩ := List.cons.inj hds'
        obtain ⟨cs', rfl, -⟩ := h.exists_of_becomes_letter (by decide)
        exact hmark ⟨cs', rfl, rfl⟩
      rw [closeLength, closeLength, if_neg hcs, if_neg hds]
      exact ih
  | @gap run cs ds c _ hrun hc _ ih =>
    have hstar : ∀ run : List Char, (∀ b ∈ run, isBlank b = true) →
        ∀ d ∈ ['*', '/'].head?, d ∉ run := by
      intro run hrun d hd hmem
      obtain rfl := Option.some.inj hd
      have hblank := hrun _ hmem
      contradiction
    have hbehind := drop_closeLength_append (hstar [Text.separator run]
      (by simp [Text.isBlank_separator])) hne (c :: ds)
    rw [List.singleton_append] at hbehind
    rw [drop_closeLength_append (hstar run hrun) hne, hbehind]
    exact ih

/-- What is passed in front of the closing mark of a line comment has no line end. -/
theorem behind_line_append {run : List Char} (hrun : ∀ b ∈ run, isLineEnd b = false) (cs : List Char) :
    (run ++ cs).drop (closeLength ['\n'] (run ++ cs)) = cs.drop (closeLength ['\n'] cs) ∧
      (OnOneLine ((run ++ cs).take (closeLength ['\n'] (run ++ cs))) →
        OnOneLine (cs.take (closeLength ['\n'] cs))) := by
  have hne : ['\n'] ≠ [] := List.cons_ne_nil _ _
  have hnewline : ∀ c ∈ ['\n'].head?, c ∉ run := by
    intro c hc hmem
    obtain rfl := Option.some.inj hc
    have hends := hrun _ hmem
    contradiction
  refine ⟨drop_closeLength_append hnewline hne cs, fun hline => ?_⟩
  rw [closeLength_append_of_notMem hnewline hne, List.take_length_add_append, OnOneLine,
    List.dropWhile_append_of_pos fun b hb => by simp [hrun b hb]] at hline
  exact hline

/-- A comment on one line ends within blanks with a line end: otherwise it would hold what stands behind
them. -/
theorem closeLength_le_of_onOneLine {run : List Char} (hends : run.any isLineEnd = true)
    (hc : isBlank c = false)
    (hline : OnOneLine ((run ++ c :: cs).take (closeLength ['\n'] (run ++ c :: cs)))) :
    closeLength ['\n'] (run ++ c :: cs) ≤ run.length := by
  by_contra hlt
  obtain ⟨k, hk⟩ : ∃ k, closeLength ['\n'] (run ++ c :: cs) = run.length + (k + 1) :=
    ⟨closeLength ['\n'] (run ++ c :: cs) - run.length - 1, by omega⟩
  have hbehind : ¬(run.dropWhile fun c => !isLineEnd c).isEmpty = true := by
    rw [List.isEmpty_iff, List.dropWhile_eq_nil_iff]
    intro hnone
    obtain ⟨b, hb, hends⟩ := List.any_eq_true.mp hends
    have hnot := hnone b hb
    rw [hends] at hnot
    contradiction
  rw [hk, List.take_length_add_append, OnOneLine, List.dropWhile_append, if_neg hbehind] at hline
  have hblank := hline c (List.mem_append_right _ List.mem_cons_self)
  rw [hc] at hblank
  contradiction

/-- So they do behind a comment that is on one line, but for blanks. -/
theorem condenses_behind_line (h : Condenses cs ds)
    (hline : OnOneLine (cs.take (closeLength ['\n'] cs))) :
    Condenses ((cs.drop (closeLength ['\n'] cs)).dropWhile isBlank)
      ((ds.drop (closeLength ['\n'] ds)).dropWhile isBlank) := by
  induction h with
  | @blank cs h =>
    rw [List.drop_nil]
    exact (Condenses.blank fun c hc => h c (List.mem_of_mem_drop hc)).dropWhile
  | @letter c cs ds hc h ih =>
    have hletter : ∀ b ∈ [c], isLineEnd b = false := by
      intro b hb
      obtain rfl := List.mem_singleton.mp hb
      cases hends : isLineEnd b with
      | false => rfl
      | true =>
        rw [Text.isBlank_of_isLineEnd b hends] at hc
        contradiction
    obtain ⟨hcs, hline'⟩ := behind_line_append hletter cs
    obtain ⟨hds, -⟩ := behind_line_append hletter ds
    rw [List.singleton_append] at hcs hds hline'
    rw [hcs, hds]
    exact ih (hline' hline)
  | @gap run cs ds c hne' hrun hc h ih =>
    cases hends : run.any isLineEnd with
    | false =>
      have hrun' : ∀ b ∈ run, isLineEnd b = false := by simpa using hends
      have hspace : Text.separator run = ' ' := by
        rw [Text.separator, hends]
        rfl
      have hblank : ∀ b ∈ [' '], isLineEnd b = false := List.forall_mem_singleton.mpr rfl
      obtain ⟨hcs, hline'⟩ := behind_line_append hrun' (c :: cs)
      obtain ⟨hds, -⟩ := behind_line_append hblank (c :: ds)
      rw [List.singleton_append] at hds
      rw [hspace, hcs, hds]
      exact ih (hline' hline)
    | true =>
      have hnewline : Text.separator run = '\n' := by
        rw [Text.separator, hends]
        rfl
      have hle := closeLength_le_of_onOneLine hends hc hline
      have hblank : ∀ b ∈ run.drop (closeLength ['\n'] (run ++ c :: cs)), isBlank b = true :=
        fun b hb => hrun b (List.mem_of_mem_drop hb)
      rw [List.drop_append_of_le_length hle, List.dropWhile_append_of_pos hblank, hnewline]
      exact h.dropWhile

/-! ## Texts -/

/-- Blanks do nothing but separate: they are part of no keyword and of no number. A comment ends with its
mark or with the line. -/
structure Spaced (lex : Lexicon) : Prop where
  skip : ∀ c, lex.isSkip c = true → isBlank c = true
  digit : ∀ c, lex.isDigit c = true → isBlank c = false
  keyword : ∀ v e, lex.trie.lookup? v = some e → ∀ c ∈ v, isBlank c = false
  close : ∀ v close, lex.trie.lookup? v = some (.comment close) → close = ['*', '/'] ∨ close = ['\n']

namespace Spaced

variable (hlex : lex.Spaced) {rest' : List Char}
include hlex

theorem isBlank_of_longest? {e : Trie.Entry} (found : lex.trie.longest? (d :: rest) = some (e, k)) :
    isBlank d = false := by
  obtain ⟨hk, -⟩ := Trie.longest?_bounds found
  obtain ⟨k, rfl⟩ := Nat.exists_eq_succ_of_ne_zero (Nat.ne_of_gt hk)
  exact hlex.keyword _ e (Trie.lookup?_take_of_longest? found) d List.mem_cons_self

/-- Behind the separators both texts begin with the same letter. -/
theorem exists_head (here : cs.dropWhile lex.isSkip = d :: rest) (hd : isBlank d = false)
    (hds : ∀ c ∈ ds, isBlank c = true → lex.isSkip c = true)
    (h : Condenses (cs.dropWhile isBlank) (ds.dropWhile isBlank)) :
    ∃ rest', ds.dropWhile lex.isSkip = d :: rest' ∧ Condenses rest rest' ∧ d :: rest' <:+ ds := by
  have hcs : cs.dropWhile isBlank = d :: rest := by
    have hsplit : cs.takeWhile lex.isSkip ++ d :: rest = cs :=
      here ▸ List.takeWhile_append_dropWhile
    rw [← hsplit, List.dropWhile_append_of_pos, List.dropWhile_cons_of_neg (by simp [hd])]
    exact fun c hc => hlex.skip c (List.all_eq_true.mp List.all_takeWhile c hc)
  rw [hcs] at h
  obtain ⟨rest', hdrop, hrest⟩ := h.exists_of_letter hd
  have hsplit : ds.takeWhile isBlank ++ d :: rest' = ds :=
    hdrop ▸ List.takeWhile_append_dropWhile
  have hskip : ¬lex.isSkip d = true := by
    intro hskip
    rw [hlex.skip d hskip] at hd
    contradiction
  refine ⟨rest', ?_, hrest, ds.takeWhile isBlank, hsplit⟩
  have hblank : ∀ c ∈ ds.takeWhile isBlank, lex.isSkip c = true := by
    intro c hc
    refine hds c ?_ (List.all_eq_true.mp List.all_takeWhile c hc)
    rw [← hsplit]
    exact List.mem_append_left _ hc
  rw [← hsplit, List.dropWhile_append_of_pos hblank, List.dropWhile_cons_of_neg hskip]

theorem longest?_append_blanks {word tail : List Char} (htail : ∀ c ∈ tail.head?, isBlank c = true) :
    lex.trie.longest? (word ++ tail) = lex.trie.longest? word := by
  cases tail with
  | nil => rw [List.append_nil]
  | cons b tail =>
    refine Trie.longest?_append_cons (fun v e he hb => ?_) word tail
    have hletter := hlex.keyword v e he b hb
    rw [htail b rfl] at hletter
    contradiction

/-- The same keyword or opening is found in both texts, and they go on alike behind it. -/
theorem longest?_eq (h : Condenses rest rest') (hd : isBlank d = false) :
    lex.trie.longest? (d :: rest') = lex.trie.longest? (d :: rest) ∧
      ∀ e k, lex.trie.longest? (d :: rest) = some (e, k) →
        (d :: rest').take k = (d :: rest).take k ∧
          Condenses ((d :: rest).drop k) ((d :: rest').drop k) := by
  obtain ⟨word, cs', ds', rfl, rfl, hword, h', hcs, hds⟩ := h.exists_word
  have hword : ∀ c ∈ d :: word, isBlank c = false := List.forall_mem_cons.mpr ⟨hd, hword⟩
  simp only [← List.cons_append]
  rw [hlex.longest?_append_blanks hcs, hlex.longest?_append_blanks hds]
  refine ⟨rfl, fun e k found => ?_⟩
  obtain ⟨-, hle⟩ := Trie.longest?_bounds found
  rw [List.take_append_of_le_length hle, List.take_append_of_le_length hle,
    List.drop_append_of_le_length hle, List.drop_append_of_le_length hle]
  exact ⟨rfl, h'.append_word fun c hc => hword c (List.mem_of_mem_drop hc)⟩

/-- The same digits stand in both texts, and they go on alike behind them. -/
theorem digits_eq (h : Condenses rest rest') (hd : isBlank d = false) :
    (d :: rest').takeWhile lex.isDigit = (d :: rest).takeWhile lex.isDigit ∧
      Condenses ((d :: rest).dropWhile lex.isDigit) ((d :: rest').dropWhile lex.isDigit) := by
  have hnot : ∀ {tail : List Char}, (∀ c ∈ tail.head?, isBlank c = true) →
      ∀ c ∈ tail.head?, lex.isDigit c = false := by
    intro tail htail c hc
    cases hdigit : lex.isDigit c with
    | false => rfl
    | true =>
      have hblank := hlex.digit c hdigit
      rw [htail c hc] at hblank
      contradiction
  obtain ⟨word, cs', ds', rfl, rfl, hword, h', hcs, hds⟩ := h.exists_word
  have hword : ∀ c ∈ d :: word, isBlank c = false := List.forall_mem_cons.mpr ⟨hd, hword⟩
  obtain ⟨hdrop, htake⟩ := run_append_of_head (hnot hcs) (d :: word)
  obtain ⟨hdrop', htake'⟩ := run_append_of_head (hnot hds) (d :: word)
  rw [← List.cons_append, ← List.cons_append, hdrop, htake, hdrop', htake']
  exact ⟨rfl, h'.append_word fun c hc => hword c ((List.dropWhile_suffix _).mem hc)⟩

end Spaced

/-- **A condensed text has the same lexemes**, if there are no words among them and every comment up to
the end of the line is on one line. -/
theorem lexemes_of_condenses (hlex : lex.Spaced)
    (hds : ∀ c ∈ ds, isBlank c = true → lex.isSkip c = true)
    (h : Condenses (cs.dropWhile isBlank) (ds.dropWhile isBlank))
    (hwords : ∀ l ∈ (lex.tokens cs).map Token.lexeme, l.1 ≠ .word)
    (hcomments : ∀ comment ∈ lex.comments cs, comment.1 = ['\n'] → OnOneLine comment.2) :
    (lex.tokens ds).map Token.lexeme = (lex.tokens cs).map Token.lexeme := by
  fun_induction lex.comments cs generalizing ds with
  | case1 cs here =>
    have hblank : cs.dropWhile isBlank = [] := List.dropWhile_eq_nil_iff.mpr fun c hc =>
      hlex.skip c (List.dropWhile_eq_nil_iff.mp here c hc)
    rw [hblank] at h
    have hdrop : ds.dropWhile lex.isSkip = [] := List.dropWhile_eq_nil_iff.mpr fun c hc =>
      hds c hc (List.dropWhile_eq_nil_iff.mp h.eq_nil_of_nil c hc)
    rw [lexemes_of_nil here, lexemes_of_nil hdrop]
  | case2 cs d rest here k found ih =>
    have hd := hlex.isBlank_of_longest? found
    obtain ⟨rest', here', hrest, hsuffix⟩ := hlex.exists_head here hd hds h
    obtain ⟨hfound, hbehind⟩ := hlex.longest?_eq hrest hd
    obtain ⟨htake, hdrop⟩ := hbehind _ k found
    rw [lexemes_of_keyword here found] at hwords ⊢
    rw [lexemes_of_keyword here' (hfound.trans found), htake,
      ih (fun c hc => hds c (hsuffix.mem (List.mem_of_mem_drop hc))) hdrop.dropWhile
        (fun l hl => hwords l (List.mem_cons_of_mem _ hl)) hcomments]
  | case3 =>
    rename_i cs d rest here close k found behind k' ih
    have hd := hlex.isBlank_of_longest? found
    obtain ⟨rest', here', hrest, hsuffix⟩ := hlex.exists_head here hd hds h
    obtain ⟨hfound, hbehind⟩ := hlex.longest?_eq hrest hd
    obtain ⟨-, hdrop⟩ := hbehind _ k found
    have hgoesOn : Condenses ((behind.drop k').dropWhile isBlank)
        ((((d :: rest').drop k).drop (closeLength close ((d :: rest').drop k))).dropWhile isBlank) := by
      rcases hlex.close _ close (Trie.lookup?_take_of_longest? found) with rfl | rfl
      · exact (condenses_behind_mark hdrop).dropWhile
      · exact condenses_behind_line hdrop (hcomments _ List.mem_cons_self rfl)
    rw [lexemes_of_comment here found] at hwords ⊢
    rw [lexemes_of_comment here' (hfound.trans found)]
    exact ih
      (fun c hc => hds c (hsuffix.mem (List.mem_of_mem_drop (List.mem_of_mem_drop hc)))) hgoesOn hwords
      fun comment hcomment => hcomments comment (List.mem_cons_of_mem _ hcomment)
  | case4 cs d rest here found digit ih =>
    have hd := hlex.digit d digit
    obtain ⟨rest', here', hrest, hsuffix⟩ := hlex.exists_head here hd hds h
    obtain ⟨hdigits, hbehind⟩ := hlex.digits_eq hrest hd
    have found' := (hlex.longest?_eq hrest hd).1.trans found
    rw [lexemes_of_digits here found digit] at hwords ⊢
    rw [lexemes_of_digits here' found' digit, hdigits]
    cases hvalue : Text.Integer.parse? ((d :: rest).takeWhile lex.isDigit) with
    | none => rfl
    | some value =>
      rw [hvalue] at hwords
      dsimp only at hwords ⊢
      rw [ih (fun c hc => hds c (hsuffix.mem ((List.dropWhile_suffix _).mem hc))) hbehind.dropWhile
        (fun l hl => hwords l (List.mem_cons_of_mem _ hl)) hcomments]
  | case5 cs d rest here found digit =>
    rw [lexemes_of_word here found digit] at hwords
    exact absurd rfl (hwords _ List.mem_cons_self)

end CubeLang.Lexicon
