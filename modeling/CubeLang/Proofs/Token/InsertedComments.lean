import CubeLang.Proofs.Token.Boundaries

/-!
# Comments between tokens

A comment that is put between two tokens changes neither of them, unless the opening of the comment makes
a longer keyword of the token in front of it. What stands behind the closing mark is read by itself.
-/

set_option autoImplicit false

namespace CubeLang.Lexicon

variable {lex : Lexicon} {cs tail rest : List Char} {position position' : Nat} {c d : Char} {k : Nat}

/-- A text is cut where it is cut behind what a scan passes without a token. -/
theorem Cut.of_scan (h : lex.Cut position' rest tail)
    (hscan : lex.scan position cs = lex.scan position' rest)
    (hscan' : lex.scan position (cs ++ tail) = lex.scan position' (rest ++ tail))
    (hclosed : lex.openComment? cs = lex.openComment? rest)
    (hplace : position' + rest.length = position + cs.length) : lex.Cut position cs tail where
  whole := by
    rw [tokensFrom_congr hscan]
    exact h.whole
  closed := hclosed.trans h.closed
  tokens := by rw [tokensFrom_congr hscan, tokensFrom_congr hscan', h.tokens, hplace]

/-! ## Cutting behind what a text begins with -/

section

variable (here : cs.dropWhile lex.isSkip = d :: rest)
include here

theorem Cut.of_keyword (found : lex.trie.longest? (d :: rest) = some (.keyword, k))
    (found' : lex.trie.longest? (d :: (rest ++ tail)) = some (.keyword, k)) {t : Token}
    (hscan : lex.scan position cs = .token t ((d :: rest).drop k))
    (h : lex.Cut t.stop ((d :: rest).drop k) tail) : lex.Cut position cs tail := by
  obtain ⟨-, hle⟩ := Trie.longest?_bounds found
  rw [scan_of_dropWhile here, scanBehind_keyword found] at hscan
  obtain ⟨rfl, -⟩ := Scan.token.inj hscan
  refine h.cons ?_ ?_ ?_
  · rw [scan_of_dropWhile here, scanBehind_keyword found]
  · rw [scan_append here, scanBehind_keyword found', ← List.cons_append,
      List.take_append_of_le_length hle, List.drop_append_of_le_length hle]
  · rw [openComment?_of_cons here, found]

/-- Behind a closed comment that a text begins with stands the rest of the text. -/
theorem length_behind_comment {close : List Char}
    (found : lex.trie.longest? (d :: rest) = some (.comment close, k))
    (hclosed : close <:+: (d :: rest).drop k) (position : Nat) :
    position + (cs.takeWhile lex.isSkip).length + k + closeLength close ((d :: rest).drop k) +
      (((d :: rest).drop k).drop (closeLength close ((d :: rest).drop k))).length =
        position + cs.length := by
  obtain ⟨-, hle⟩ := Trie.longest?_bounds found
  have hlength := length_skipped here
  have hclose := closeLength_le_of_infix hclosed
  have hlength' : ((d :: rest).drop k).length = (d :: rest).length - k := List.length_drop
  rw [List.length_drop]
  omega

theorem Cut.of_comment {close : List Char}
    (found : lex.trie.longest? (d :: rest) = some (.comment close, k))
    (found' : lex.trie.longest? (d :: (rest ++ tail)) = some (.comment close, k))
    (hclosed : close <:+: (d :: rest).drop k)
    (h : lex.Cut (position + (cs.takeWhile lex.isSkip).length + k +
        closeLength close ((d :: rest).drop k))
      (((d :: rest).drop k).drop (closeLength close ((d :: rest).drop k))) tail) :
    lex.Cut position cs tail := by
  obtain ⟨-, hle⟩ := Trie.longest?_bounds found
  have hclose := closeLength_le_of_infix hclosed
  refine h.of_scan ?_ ?_ ?_ (length_behind_comment here found hclosed position)
  · rw [scan_of_dropWhile here, scanBehind_comment found]
  · rw [scan_append here, scanBehind_comment found', ← List.cons_append,
      List.drop_append_of_le_length hle, closeLength_append_of_infix hclosed,
      List.drop_append_of_le_length hclose]
  · rw [openComment?_of_cons here, found]
    exact if_pos hclosed

theorem Cut.of_digits (found : lex.trie.longest? (d :: rest) = none)
    (found' : lex.trie.longest? (d :: (rest ++ tail)) = none) (digit : lex.isDigit d = true)
    (htail : ∀ c ∈ tail.head?, lex.isDigit c = false) {t : Token}
    (hscan : lex.scan position cs = .token t ((d :: rest).dropWhile lex.isDigit))
    (h : lex.Cut t.stop ((d :: rest).dropWhile lex.isDigit) tail) : lex.Cut position cs tail := by
  obtain ⟨hdrop, htake⟩ := run_append_of_head htail (d :: rest)
  refine h.cons hscan ?_ ?_
  · rw [scan_of_dropWhile here, scanBehind_digits found digit] at hscan
    rw [scan_append here, scanBehind_digits found' digit, ← List.cons_append, hdrop, htake]
    cases hvalue : Text.Integer.parse? ((d :: rest).takeWhile lex.isDigit) with
    | none =>
      rw [hvalue] at hscan
      contradiction
    | some value =>
      rw [hvalue] at hscan
      obtain ⟨rfl, -⟩ := Scan.token.inj hscan
      rfl
  · rw [openComment?_of_cons here, found]
    exact if_pos digit

end

/-- What a text without words and without an open comment needs to be cut at its end, in front of some
other text: no keyword reaches over the end, unless its first character stands there alone, and then it
is no keyword by itself. -/
structure Separate (lex : Lexicon) (tail : List Char) (position : Nat) (cs : List Char) : Prop where
  digit : ∀ c ∈ tail.head?, lex.isDigit c = false
  reach : ∀ w u : List Char, w ≠ [] → u ≠ [] → u <+: tail → lex.trie.lookup? (w ++ u) ≠ none →
    ∃ c, w = [c] ∧ lex.isDigit c = false ∧ ∀ close, lex.trie.lookup? [c] ≠ some (.comment close)
  last : ∀ t ∈ (lex.tokensFrom position cs).1, t.stop = position + cs.length →
    ∀ c, t.text.toList = [c] → lex.trie.lookup? [c] = some .keyword →
      ∀ u, u ≠ [] → u <+: tail → lex.trie.lookup? ([c] ++ u) = none

/-- Only a keyword of one character could become longer. -/
theorem Separate.longest?_append (hcs : lex.Separate tail position cs) (d : Char) (rest : List Char)
    (hshort : rest = [] → lex.isDigit d = false →
      (∀ close, lex.trie.lookup? [d] ≠ some (.comment close)) →
        ∀ u, u ≠ [] → u <+: tail → lex.trie.lookup? ([d] ++ u) = none) :
    lex.trie.longest? (d :: (rest ++ tail)) = lex.trie.longest? (d :: rest) := by
  rw [← List.cons_append]
  apply Trie.longest?_append
  intro u hne hprefix
  by_contra hlonger
  obtain ⟨c, hw, hc, hcomment⟩ :=
    hcs.reach (d :: rest) u (List.cons_ne_nil d rest) hne hprefix hlonger
  obtain ⟨rfl, rfl⟩ := List.cons.inj hw
  exact hlonger (hshort rfl hc hcomment u hne hprefix)

/-- A text without words and without an open comment can be cut at its end, whatever follows, if no
keyword reaches over the end. -/
theorem cut_of_separate (hcs : lex.Separate tail position cs) (hclosed : lex.openComment? cs = none)
    (hwhole : (lex.tokensFrom position cs).2 = none)
    (hwords : ∀ t ∈ (lex.tokensFrom position cs).1, t.kind ≠ .word) : lex.Cut position cs tail := by
  have hlongest := hcs.longest?_append
  obtain ⟨hdigit, -, hlast⟩ := hcs
  fun_induction lex.openComment? cs generalizing position with
  | case1 cs here =>
    have hnone : lex.tokensFrom position cs = ([], none) := by
      rw [tokensFrom_eq, scan_of_dropWhile here]
      rfl
    refine ⟨hwhole, openComment?_of_nil here, ?_⟩
    rw [hnone, tokensFrom_congr (scan_of_dropWhile_nil here tail)]
    rfl
  | case2 cs d rest here k found ih =>
    obtain ⟨hk, hle⟩ := Trie.longest?_bounds found
    have hscan := (scan_of_dropWhile here position).trans (scanBehind_keyword found)
    obtain ⟨-, -, hplace⟩ := bounds_of_scan hscan
    rw [tokensFrom_of_token hscan] at hwhole hwords hlast
    -- A keyword of one character that could become longer would stop at the end of the text.
    have found' := hlongest d rest fun hrest _ _ => by
      subst hrest
      obtain rfl : k = 1 := by
        rw [List.length_singleton] at hle
        omega
      exact hlast _ List.mem_cons_self (by simpa using hplace) d (by simp [Token.ofChars])
        (Trie.lookup?_take_of_longest? found)
    exact Cut.of_keyword here found (found'.trans found) hscan
      (ih hclosed hwhole (fun t ht => hwords t (List.mem_cons_of_mem _ ht))
        fun t ht hstop => hlast t (List.mem_cons_of_mem _ ht) (by omega))
  | case3 =>
    rename_i cs d rest here close k found behind hclose ih
    have found' := hlongest d rest fun hrest _ hcomment => by
      subst hrest
      obtain ⟨hk, hle⟩ := Trie.longest?_bounds found
      obtain rfl : k = 1 := by
        rw [List.length_singleton] at hle
        omega
      exact absurd (Trie.lookup?_take_of_longest? found) (hcomment close)
    have hscan := (scan_of_dropWhile here position).trans (scanBehind_comment found)
    have hplace := length_behind_comment here found hclose position
    rw [tokensFrom_congr hscan] at hwhole hwords hlast
    exact Cut.of_comment here found (found'.trans found) hclose
      (ih hclosed hwhole hwords fun t ht hstop => hlast t ht (hstop.trans hplace))
  | case4 => contradiction
  | case5 cs d rest here found digit ih =>
    cases hvalue : Text.Integer.parse? ((d :: rest).takeWhile lex.isDigit) with
    | none =>
      rw [tokensFrom_eq, scan_of_dropWhile here, scanBehind_digits found digit, hvalue] at hwhole
      contradiction
    | some value =>
      have hscan := (scan_of_dropWhile here position).trans (scanBehind_digits found digit)
      rw [hvalue] at hscan
      obtain ⟨-, -, hplace⟩ := bounds_of_scan hscan
      rw [tokensFrom_of_token hscan] at hwhole hwords hlast
      have found' := hlongest d rest fun _ hd => by
        rw [digit] at hd
        contradiction
      exact Cut.of_digits here found (found'.trans found) digit hdigit hscan
        (ih hclosed hwhole (fun t ht => hwords t (List.mem_cons_of_mem _ ht))
          fun t ht hstop => hlast t (List.mem_cons_of_mem _ ht) (by omega))
  | case6 cs d rest here found digit ih =>
    rw [tokensFrom_of_token ((scan_of_dropWhile here position).trans (scanBehind_word found digit))]
      at hwords
    exact absurd rfl (hwords _ List.mem_cons_self)

/-! ## Comments -/

/-- A comment in which its closing mark does not occur ends with the mark behind it. -/
theorem closeLength_mark {comment : List Char} (h : ¬['*', '/'] <:+: comment) (tail : List Char) :
    closeLength ['*', '/'] (comment ++ '*' :: '/' :: tail) = comment.length + 2 := by
  induction comment with
  | nil => rfl
  | cons c comment ih =>
    have hfront : ¬['*', '/'].isPrefixOf (c :: (comment ++ '*' :: '/' :: tail)) = true := by
      intro hfront
      obtain ⟨rfl, hrest⟩ := List.cons_prefix_cons.mp (List.isPrefixOf_iff_prefix.mp hfront)
      cases comment with
      | nil =>
        have hmark := (List.cons_prefix_cons.mp hrest).1
        contradiction
      | cons d comment =>
        obtain ⟨rfl, -⟩ := List.cons_prefix_cons.mp hrest
        exact h ⟨[], comment, rfl⟩
    rw [List.cons_append, closeLength, if_neg hfront,
      ih fun hinside => h (hinside.trans (List.suffix_cons c comment).isInfix), List.length_cons]

/-- A comment in front of a text is not seen. -/
theorem lexemes_behind_comment {comment : List Char} (h : ¬['*', '/'] <:+: comment)
    (hskip : lex.isSkip '/' = false) (back : List Char)
    (hopening : lex.trie.lookup? ['/', '*'] = some (.comment ['*', '/']))
    (hlonger : ∀ u, u ≠ [] → lex.trie.lookup? ('/' :: '*' :: u) = none) :
    (lex.tokens ('/' :: '*' :: (comment ++ '*' :: '/' :: back))).map Token.lexeme =
      (lex.tokens back).map Token.lexeme := by
  have found : lex.trie.longest? ('/' :: '*' :: (comment ++ '*' :: '/' :: back)) =
      some (.comment ['*', '/'], 2) := by
    refine Trie.longest?_eq_some (by decide) (by simp) hopening fun j hj hle => ?_
    obtain ⟨j, rfl⟩ : ∃ i, j = i + 1 + 2 := ⟨j - 3, by omega⟩
    rw [List.take_succ_cons, List.take_succ_cons]
    refine hlonger _ ?_
    simp
  have here : ('/' :: '*' :: (comment ++ '*' :: '/' :: back)).dropWhile lex.isSkip =
      '/' :: '*' :: (comment ++ '*' :: '/' :: back) :=
    List.dropWhile_cons_of_neg (by simp [hskip])
  have hbehind : (comment ++ '*' :: '/' :: back).drop (comment.length + 2) = back := by
    rw [← List.drop_drop, List.drop_left]
    rfl
  rw [lexemes_of_comment here found, List.drop_succ_cons, List.drop_succ_cons, List.drop_zero,
    closeLength_mark h, hbehind]

end CubeLang.Lexicon
