import CubeLang.Proofs.Token.Places
import Mathlib.Data.List.TakeWhile

/-!
# Token boundaries

Where a token of a text starts or stops, the text can be cut: what stands in front has its tokens
without the rest and leaves no comment open, and what stands behind has its tokens by itself. Scanning
looks further than that, but only to see that no longer token begins there.
-/

set_option autoImplicit false

namespace CubeLang.Lexicon

variable {lex : Lexicon} {front back rest : List Char} {position : Nat} {t : Token} {c : Char}

theorem takeWhile_cons_ne_nil {p : Char → Bool} (hc : p c = true) (cs : List Char) :
    (c :: cs).takeWhile p ≠ [] := by
  rw [List.takeWhile_cons_of_pos hc]
  exact List.cons_ne_nil _ _

/-- A token has a text. -/
theorem start_lt_stop_of_scan {cs : List Char} (h : lex.scan position cs = .token t rest) :
    t.start < t.stop := by
  have hmade : ∀ {kind : Token.Kind} {start : Nat} {word : List Char}, word ≠ [] →
      (Token.ofChars kind start word).start < (Token.ofChars kind start word).stop :=
    fun hne => Nat.lt_add_of_pos_right (List.length_pos_of_ne_nil hne)
  fun_induction scan lex position cs with
  | case1 | case5 => contradiction
  | case2 position cs start c tail here k found =>
    obtain ⟨rfl, -⟩ := Scan.token.inj h
    obtain ⟨hk, -⟩ := Trie.longest?_bounds found
    exact hmade (by simp [Nat.ne_of_gt hk])
  | case3 position cs start c tail here close k found behind k' ih => exact ih h
  | case4 position cs start c tail here found digit =>
    obtain ⟨rfl, -⟩ := Scan.token.inj h
    exact hmade (takeWhile_cons_ne_nil digit tail)
  | case6 position cs start c tail here found digit =>
    obtain ⟨rfl, -⟩ := Scan.token.inj h
    exact hmade (takeWhile_cons_ne_nil (isPlain_of_head here digit) tail)

/-- A token that is scanned starts not before the place of the scan, and stops in the text. -/
theorem bounds_of_scan {cs : List Char} (h : lex.scan position cs = .token t rest) :
    position ≤ t.start ∧ t.start < t.stop ∧ t.stop + rest.length = position + cs.length := by
  obtain ⟨skipped, rfl, hstart, hstop⟩ := standsIn_of_scan h
  refine ⟨by omega, start_lt_stop_of_scan h, ?_⟩
  simp only [List.length_append]
  omega

/-! ## Cutting a scan -/

/-- What is scanned in a text that begins with `front`: it may stand behind, with nothing but
separators and closed comments in front of it, or within it. -/
inductive CutScan (lex : Lexicon) (position : Nat) (front back : List Char) (t : Token)
    (rest : List Char) : Prop
  | behind (finished : lex.scan position front = .finished) (closed : lex.openComment? front = none)
      (scanned : lex.scan (position + front.length) back = .token t rest)
  | within {rest' : List Char} (scanned : lex.scan position front = .token t rest')
      (closed : lex.openComment? front = lex.openComment? rest') (rest_eq : rest = rest' ++ back)

section

variable {front' : List Char} (here : front.dropWhile lex.isSkip = c :: front')
include here

/-- A token at the first character that is not skipped does not reach beyond `front`. -/
theorem length_le_of_place {kind : Token.Kind} {word : List Char} (hne : word ≠ [])
    (hplace : t.start = position + front.length ∨ t.stop ≤ position + front.length)
    (ht : t = .ofChars kind (position + (front.takeWhile lex.isSkip).length) word) :
    word.length ≤ (c :: front').length := by
  have hlength := length_skipped here
  have hpos := List.length_pos_of_ne_nil hne
  subst ht
  simp only [Token.ofChars, List.length_cons] at hplace hlength ⊢
  omega

omit here in
/-- A comment in front of such a token does not reach beyond `front` either. -/
theorem comment_within {start k : Nat} {close : List Char}
    (h : lex.scan (start + k + closeLength close ((c :: front' ++ back).drop k))
      (((c :: front' ++ back).drop k).drop (closeLength close ((c :: front' ++ back).drop k))) =
        .token t rest)
    (hplace : t.start ≤ start + (c :: front').length) :
    k ≤ (c :: front').length ∧ close <:+: (c :: front').drop k := by
  obtain ⟨hstart, hstop, hrest⟩ := bounds_of_scan h
  have hk : k ≤ (c :: front').length := by omega
  rw [List.drop_append_of_le_length hk] at hstart hrest
  have hle : closeLength close ((c :: front').drop k ++ back) ≤ ((c :: front').drop k).length := by
    rw [List.length_drop]
    omega
  refine ⟨hk, infix_of_closeLength_le hle ?_⟩
  simp only [List.length_append, List.length_drop] at hrest ⊢
  omega

section

variable (hplace : t.start = position + front.length ∨ t.stop ≤ position + front.length)
include hplace

theorem cutScan_of_keyword {k : Nat}
    (found : lex.trie.longest? (c :: (front' ++ back)) = some (.keyword, k))
    (h : lex.scan position (front ++ back) = .token t rest) : lex.CutScan position front back t rest := by
  obtain ⟨hk, hle⟩ := Trie.longest?_bounds found
  rw [scan_append here, scanBehind_keyword found, ← List.cons_append] at h
  obtain ⟨rfl, rfl⟩ := Scan.token.inj h
  have hshort := length_le_of_place here (by simp [Nat.ne_of_gt hk]) hplace rfl
  rw [List.cons_append, List.length_take_of_le hle] at hshort
  have found' := Trie.longest?_of_append found hshort
  refine .within ?_ ?_ (List.drop_append_of_le_length hshort)
  · rw [scan_of_dropWhile here, scanBehind_keyword found', List.take_append_of_le_length hshort]
  · rw [openComment?_of_cons here, found']

variable (found : lex.trie.longest? (c :: (front' ++ back)) = none)
include found

theorem cutScan_of_digits (digit : lex.isDigit c = true)
    (h : lex.scan position (front ++ back) = .token t rest) : lex.CutScan position front back t rest := by
  have found' := Trie.longest?_eq_none_of_append (List.cons_append ▸ found)
  rw [scan_append here, scanBehind_digits found digit, ← List.cons_append] at h
  split at h
  · rename_i value hvalue
    obtain ⟨rfl, rfl⟩ := Scan.token.inj h
    obtain ⟨hdrop, htake⟩ := run_append_of_length_le
      (length_le_of_place here (takeWhile_cons_ne_nil digit _) hplace rfl)
    rw [htake] at hvalue
    refine .within ?_ ?_ hdrop
    · rw [scan_of_dropWhile here, scanBehind_digits found' digit, hvalue, htake]
    · rw [openComment?_of_cons here, found']
      exact if_pos digit
  · contradiction

theorem cutScan_of_word (digit : ¬lex.isDigit c = true)
    (h : lex.scan position (front ++ back) = .token t rest) : lex.CutScan position front back t rest := by
  have found' := Trie.longest?_eq_none_of_append (List.cons_append ▸ found)
  have plain := isPlain_of_head here digit
  rw [scan_append here, scanBehind_word found digit, ← List.cons_append] at h
  obtain ⟨rfl, rfl⟩ := Scan.token.inj h
  obtain ⟨hdrop, htake⟩ := run_append_of_length_le
    (length_le_of_place here (takeWhile_cons_ne_nil plain _) hplace rfl)
  refine .within ?_ ?_ hdrop
  · rw [scan_of_dropWhile here, scanBehind_word found' digit, htake]
  · rw [openComment?_of_cons here, found']
    exact if_neg digit

end

end

/-- A token that starts behind `front` or stops within it is scanned there. -/
theorem cutScan_of_scan {position : Nat} {front : List Char}
    (h : lex.scan position (front ++ back) = .token t rest)
    (hplace : t.start = position + front.length ∨ t.stop ≤ position + front.length) :
    lex.CutScan position front back t rest := by
  cases here : front.dropWhile lex.isSkip with
  | nil =>
    rw [scan_of_dropWhile_nil here] at h
    refine .behind ?_ (openComment?_of_nil here) h
    rw [scan_of_dropWhile here]
    rfl
  | cons c front' =>
    have hlength := length_skipped here
    have hlt := start_lt_stop_of_scan h
    cases found : lex.trie.longest? (c :: (front' ++ back)) with
    | some e =>
      obtain ⟨entry, k⟩ := e
      cases entry with
      | keyword => exact cutScan_of_keyword here hplace found h
      | comment close =>
        rw [scan_append here, scanBehind_comment found, ← List.cons_append] at h
        obtain ⟨hk, hclosed⟩ := comment_within h (by omega)
        have found' := Trie.longest?_of_append found hk
        have hclose := closeLength_le_of_infix hclosed
        rw [List.drop_append_of_le_length hk, closeLength_append_of_infix hclosed,
          List.drop_append_of_le_length hclose] at h
        rw [List.length_drop] at hclose
        have hshort : (((c :: front').drop k).drop
            (closeLength close ((c :: front').drop k))).length < front.length := by
          simp only [List.length_drop]
          have hpos := (Trie.longest?_bounds found).1
          omega
        have hcut := cutScan_of_scan h (by simp only [List.length_drop]; omega)
        cases hcut with
        | behind finished closed scanned =>
          refine .behind ?_ ?_ ?_
          · rw [scan_of_dropWhile here, scanBehind_comment found', finished]
          · rw [openComment?_of_cons here, found']
            exact (if_pos hclosed).trans closed
          · rw [← scanned]
            congr 1
            simp only [List.length_drop]
            omega
        | within scanned closed rest_eq =>
          refine .within ?_ ?_ rest_eq
          · rw [scan_of_dropWhile here, scanBehind_comment found', scanned]
          · rw [openComment?_of_cons here, found']
            exact (if_pos hclosed).trans closed
    | none =>
      by_cases digit : lex.isDigit c = true
      · exact cutScan_of_digits here hplace found digit h
      · exact cutScan_of_word here hplace found digit h
termination_by front.length
decreasing_by exact hshort

/-! ## Cutting a text -/

/-- A text can be cut behind `front`: what stands there has its tokens without the rest and leaves no
comment open, and what stands behind has its tokens by itself. -/
structure Cut (lex : Lexicon) (position : Nat) (front back : List Char) : Prop where
  whole : (lex.tokensFrom position front).2 = none
  closed : lex.openComment? front = none
  tokens : lex.tokensFrom position (front ++ back) =
    ((lex.tokensFrom position front).1 ++ (lex.tokensFrom (position + front.length) back).1,
      (lex.tokensFrom (position + front.length) back).2)

theorem Cut.nil (lex : Lexicon) (position : Nat) (back : List Char) : lex.Cut position [] back where
  whole := congrArg Prod.snd (tokensFrom_nil lex position)
  closed := openComment?_of_nil rfl
  tokens := by rw [tokensFrom_nil]; rfl

theorem Cut.atEnd (whole : (lex.tokensFrom position front).2 = none)
    (closed : lex.openComment? front = none) : lex.Cut position front [] where
  whole := whole
  closed := closed
  tokens := by rw [tokensFrom_nil, List.append_nil, List.append_nil, ← whole]

/-- A token in front of a cut. -/
theorem Cut.cons {rest' : List Char} (h : lex.Cut t.stop rest' back)
    (hscan : lex.scan position front = .token t rest')
    (hscan' : lex.scan position (front ++ back) = .token t (rest' ++ back))
    (hclosed : lex.openComment? front = lex.openComment? rest') : lex.Cut position front back where
  whole := by
    rw [tokensFrom_of_token hscan]
    exact h.whole
  closed := hclosed.trans h.closed
  tokens := by
    obtain ⟨-, -, hplace⟩ := bounds_of_scan hscan
    rw [tokensFrom_of_token hscan, tokensFrom_of_token hscan', h.tokens, hplace, List.cons_append]

/-- The tokens of a text start behind the place where it does. -/
theorem start_le_of_mem {cs : List Char} (ht : t ∈ (lex.tokensFrom position cs).1) :
    position ≤ t.start := by
  obtain ⟨front, back, -, hstart, -⟩ := (lex.standsIn_of_tokensFrom position cs).2 t ht
  omega

/-- **A text can be cut where a token starts or stops.** -/
theorem cut_of_mem {position : Nat} {front : List Char}
    (ht : t ∈ (lex.tokensFrom position (front ++ back)).1)
    (hplace : t.start = position + front.length ∨ t.stop = position + front.length) :
    lex.Cut position front back := by
  rw [tokensFrom_eq] at ht
  cases hscan : lex.scan position (front ++ back) with
  | finished | unreadable =>
    rw [hscan] at ht
    contradiction
  | token first rest =>
    rw [hscan] at ht
    obtain ⟨-, hlt, -⟩ := bounds_of_scan hscan
    have hfirst : first.start = position + front.length ∨ first.stop ≤ position + front.length := by
      rcases List.mem_cons.mp ht with rfl | ht
      · omega
      · obtain ⟨front', back', -, hstart, hstop⟩ := (lex.standsIn_of_tokensFrom _ rest).2 t ht
        omega
    cases cutScan_of_scan hscan hfirst with
    | behind finished closed scanned =>
      have hnone : lex.tokensFrom position front = ([], none) := by rw [tokensFrom_eq, finished]
      refine ⟨by rw [hnone], closed, ?_⟩
      rw [hnone, tokensFrom_congr (hscan.trans scanned.symm)]
      rfl
    | @within rest' scanned closed rest_eq =>
      subst rest_eq
      obtain ⟨-, -, hrest⟩ := bounds_of_scan scanned
      have hshort := length_lt_of_scan_token scanned
      refine Cut.cons ?_ scanned hscan closed
      rcases List.mem_cons.mp ht with rfl | ht
      · obtain rfl : rest' = [] := List.eq_nil_of_length_eq_zero (by omega)
        exact Cut.nil lex t.stop back
      · exact cut_of_mem ht (by omega)
termination_by front.length
decreasing_by exact hshort

/-! ## The text of some tokens -/

theorem start_lt_stop_of_mem {cs : List Char} (ht : t ∈ (lex.tokensFrom position cs).1) :
    t.start < t.stop := by
  fun_induction tokensFrom lex position cs with
  | case1 | case2 => contradiction
  | case3 position cs first rest hscan ts ending hrest ih =>
    rw [hrest] at ih
    rcases List.mem_cons.mp ht with rfl | ht
    · exact start_lt_stop_of_scan hscan
    · exact ih ht

theorem stop_le_of_mem {cs : List Char} (ht : t ∈ (lex.tokensFrom position cs).1) :
    t.stop ≤ position + cs.length := by
  obtain ⟨front, back, rfl, hstart, hstop⟩ := (lex.standsIn_of_tokensFrom position cs).2 t ht
  simp only [List.length_append]
  omega

/-- The tokens of a text stand one behind the other. -/
theorem pairwise_tokensFrom (lex : Lexicon) (position : Nat) (cs : List Char) :
    (lex.tokensFrom position cs).1.Pairwise fun s t => s.stop ≤ t.start := by
  have hordered := (lex.standsIn_of_tokensFrom position cs).1.pairwise
  rw [List.pairwise_map] at hordered
  exact hordered.imp fun h => Int.ofNat_le.mp h

/-- If the tokens of a text are in front of a cut and behind it, they are those of the two parts. -/
theorem Cut.eq_tokens {ts ts' : List Token} (h : lex.Cut position front back)
    (htokens : (lex.tokensFrom position (front ++ back)).1 = ts ++ ts')
    (hts : ∀ t ∈ ts, t.stop ≤ position + front.length)
    (hts' : ∀ t ∈ ts', position + front.length ≤ t.start) :
    ts = (lex.tokensFrom position front).1 ∧
      ts' = (lex.tokensFrom (position + front.length) back).1 := by
  have hpositive : ∀ t ∈ ts ++ ts', t.start < t.stop := fun t ht =>
    start_lt_stop_of_mem (htokens ▸ ht)
  rw [h.tokens] at htokens
  rcases List.append_eq_append_iff.mp htokens with ⟨middle, rfl, hback⟩ | ⟨middle, hfront, rfl⟩
  · obtain rfl : middle = [] := by
      refine List.eq_nil_iff_forall_not_mem.mpr fun t ht => ?_
      have hstart := start_le_of_mem (t := t) (hback ▸ List.mem_append_left _ ht)
      have hstop := hts t (List.mem_append_right _ ht)
      have hlt := hpositive t (by simp [ht])
      omega
    exact ⟨List.append_nil _, hback.symm⟩
  · obtain rfl : middle = [] := by
      refine List.eq_nil_iff_forall_not_mem.mpr fun t ht => ?_
      have hstop := stop_le_of_mem (t := t) (hfront ▸ List.mem_append_right _ ht)
      have hstart := hts' t (List.mem_append_left _ ht)
      have hlt := hpositive t (by simp [ht])
      omega
    exact ⟨(hfront.trans (List.append_nil _)).symm, rfl⟩

section

variable {cs : List Char} {ts ts' : List Token}
variable (htokens : (lex.tokensFrom position cs).1 = ts ++ t :: ts')
include htokens

theorem bounds_of_tokensFrom : position ≤ t.start ∧ t.start < t.stop ∧ t.stop ≤ position + cs.length ∧
    (∀ s ∈ ts, s.stop ≤ t.start) ∧ ∀ s ∈ ts', t.stop ≤ s.start := by
  have hmem : t ∈ (lex.tokensFrom position cs).1 := by simp [htokens]
  have hpair := lex.pairwise_tokensFrom position cs
  rw [htokens, List.pairwise_append, List.pairwise_cons] at hpair
  exact ⟨start_le_of_mem hmem, start_lt_stop_of_mem hmem, stop_le_of_mem hmem,
    fun s hs => hpair.2.2 s hs t List.mem_cons_self, hpair.2.1.1⟩

/-- The text from the start of a token on has this token and those behind it. -/
theorem tokensFrom_drop :
    (lex.tokensFrom t.start (cs.drop (t.start - position))).1 = t :: ts' := by
  obtain ⟨hposition, hlt, hlength, hts, hts'⟩ := bounds_of_tokensFrom htokens
  have hstart : position + (cs.take (t.start - position)).length = t.start := by
    rw [List.length_take]
    omega
  have hmem : t ∈ (lex.tokensFrom position cs).1 := by simp [htokens]
  rw [← List.take_append_drop (t.start - position) cs] at htokens hmem
  have hparts := (cut_of_mem hmem (Or.inl hstart.symm)).eq_tokens htokens
  rw [hstart] at hparts
  refine (hparts hts fun s hs => ?_).2.symm
  rcases List.mem_cons.mp hs with rfl | hs
  · exact Nat.le_refl _
  · exact Nat.le_trans (Nat.le_of_lt hlt) (hts' s hs)

/-- The text up to the stop of a token has this token and those in front of it. -/
theorem tokensFrom_take :
    (lex.tokensFrom position (cs.take (t.stop - position))).1 = ts ++ [t] := by
  obtain ⟨hposition, hlt, hlength, hts, hts'⟩ := bounds_of_tokensFrom htokens
  have hstop : position + (cs.take (t.stop - position)).length = t.stop := by
    rw [List.length_take]
    omega
  have hmem : t ∈ (lex.tokensFrom position cs).1 := by simp [htokens]
  rw [← List.take_append_drop (t.stop - position) cs] at htokens hmem
  rw [List.append_cons] at htokens
  have hparts := (cut_of_mem hmem (Or.inr hstop.symm)).eq_tokens htokens
  rw [hstop] at hparts
  refine (hparts (fun s hs => ?_) hts').1.symm
  rcases List.mem_append.mp hs with hs | hs
  · exact Nat.le_trans (hts s hs) (Nat.le_of_lt hlt)
  · exact Nat.le_of_eq (congrArg Token.stop (List.mem_singleton.mp hs))

end

/-- The text from the start of a token to the stop of another one has the tokens from the one to the
other, at offsets of its own. -/
theorem tokens_slice {cs : List Char} {before front rest behind : List Token} {first last : Token}
    (htokens : lex.tokens cs = before ++ first :: (rest ++ behind))
    (hlast : first :: rest = front ++ [last]) :
    (lex.tokens ((cs.take last.stop).drop first.start)).map (Token.relocate (· + first.start)) =
      first :: rest := by
  have hdrop := tokensFrom_drop htokens
  rw [← List.cons_append, hlast, List.append_assoc, List.singleton_append, Nat.sub_zero] at hdrop
  have htake := tokensFrom_take hdrop
  rw [← List.drop_take] at htake
  have hmoved := congrArg Prod.fst
    (lex.tokensFrom_add 0 first.start ((cs.take last.stop).drop first.start))
  rw [Nat.zero_add] at hmoved
  rw [hlast, ← htake, hmoved]
  rfl

/-! ## Lexemes -/

/-- What the tokens of a text are does not depend on where it stands. -/
theorem lexemes_tokensFrom (lex : Lexicon) (position : Nat) (cs : List Char) :
    (lex.tokensFrom position cs).1.map Token.lexeme = (lex.tokens cs).map Token.lexeme := by
  have hmoved := congrArg Prod.fst (lex.tokensFrom_add 0 position cs)
  rw [Nat.zero_add] at hmoved
  rw [hmoved, List.map_map]
  rfl

section

variable {cs close : List Char} {k : Nat}

theorem lexemes_of_nil (here : cs.dropWhile lex.isSkip = []) :
    (lex.tokens cs).map Token.lexeme = [] := by
  rw [tokens, tokensFrom_eq, scan_of_dropWhile here]
  rfl

variable (here : cs.dropWhile lex.isSkip = c :: rest)
include here

theorem lexemes_of_keyword (found : lex.trie.longest? (c :: rest) = some (.keyword, k)) :
    (lex.tokens cs).map Token.lexeme = .keyword (String.ofList ((c :: rest).take k)) ::
      (lex.tokens ((c :: rest).drop k)).map Token.lexeme := by
  rw [tokens, tokensFrom_eq, scan_of_dropWhile here, scanBehind_keyword found, List.map_cons,
    lexemes_tokensFrom]
  rfl

theorem lexemes_of_comment (found : lex.trie.longest? (c :: rest) = some (.comment close, k)) :
    (lex.tokens cs).map Token.lexeme = (lex.tokens (((c :: rest).drop k).drop
      (closeLength close ((c :: rest).drop k)))).map Token.lexeme := by
  rw [tokens, tokensFrom_congr ((scan_of_dropWhile here 0).trans (scanBehind_comment found)),
    lexemes_tokensFrom]

variable (found : lex.trie.longest? (c :: rest) = none)
include found

theorem lexemes_of_digits (digit : lex.isDigit c = true) : (lex.tokens cs).map Token.lexeme =
    match Text.Integer.parse? ((c :: rest).takeWhile lex.isDigit) with
    | some value => (.number value, String.ofList ((c :: rest).takeWhile lex.isDigit)) ::
        (lex.tokens ((c :: rest).dropWhile lex.isDigit)).map Token.lexeme
    | none => [] := by
  rw [tokens, tokensFrom_eq, scan_of_dropWhile here, scanBehind_digits found digit]
  cases Text.Integer.parse? ((c :: rest).takeWhile lex.isDigit) with
  | none => rfl
  | some value =>
    dsimp only
    rw [List.map_cons, lexemes_tokensFrom]
    rfl

theorem lexemes_of_word (digit : ¬lex.isDigit c = true) : (lex.tokens cs).map Token.lexeme =
    (.word, String.ofList ((c :: rest).takeWhile lex.isPlain)) ::
      (lex.tokens ((c :: rest).dropWhile lex.isPlain)).map Token.lexeme := by
  rw [tokens, tokensFrom_eq, scan_of_dropWhile here, scanBehind_word found digit, List.map_cons,
    lexemes_tokensFrom]
  rfl

end

/-- Between the two parts of a text a token of it starts or stops. -/
def AtToken (lex : Lexicon) (front back : List Char) : Prop :=
  ∃ t ∈ lex.tokens (front ++ back), t.start = front.length ∨ t.stop = front.length

instance (lex : Lexicon) (front back : List Char) : Decidable (lex.AtToken front back) :=
  List.decidableBEx (fun t : Token => t.start = front.length ∨ t.stop = front.length) _

theorem AtToken.cut (h : lex.AtToken front back) : lex.Cut 0 front back := by
  obtain ⟨t, ht, hplace⟩ := h
  exact cut_of_mem ht (by simpa using hplace)

theorem Cut.lexemes (h : lex.Cut 0 front back) : (lex.tokens (front ++ back)).map Token.lexeme =
    (lex.tokens front).map Token.lexeme ++ (lex.tokens back).map Token.lexeme := by
  rw [Lexicon.tokens, h.tokens, List.map_append, lexemes_tokensFrom, lexemes_tokensFrom]

/-! ## Separators at a boundary -/

section

variable {blanks : List Char} (hskip : ∀ c ∈ blanks, lex.isSkip c = true)
variable (habsent : ∀ c ∈ blanks, ∀ v e, lex.trie.lookup? v = some e → c ∉ v)
include hskip habsent

/-- Separators that no keyword holds, put where a token starts or stops, leave all lexemes as they
were. -/
theorem lexemes_insert_of_atToken (h : lex.AtToken front back) :
    (lex.tokens (front ++ (blanks ++ back))).map Token.lexeme =
      (lex.tokens (front ++ back)).map Token.lexeme := by
  obtain ⟨whole, closed, -⟩ := h.cut
  cases blanks with
  | nil => rfl
  | cons c blanks =>
    have hends : lex.EndsAt c (blanks ++ back) front := endsAt_of_openComment?
      (hskip c List.mem_cons_self) (habsent c List.mem_cons_self) (by simp [closed])
    have hdrop : blanks.dropWhile lex.isSkip = [] :=
      List.dropWhile_eq_nil_iff.mpr fun d hd => hskip d (List.mem_cons_of_mem c hd)
    rw [h.cut.lexemes, List.cons_append, tokens, hends 0 whole,
      tokensFrom_congr (scan_of_dropWhile_nil hdrop back), List.map_append, lexemes_tokensFrom,
      lexemes_tokensFrom]

/-- So do separators behind a text, also if a comment is open there. -/
theorem lexemes_append (hread : ∀ position cs, (lex.tokensFrom position cs).2 = none) :
    (lex.tokens (front ++ blanks)).map Token.lexeme = (lex.tokens front).map Token.lexeme := by
  induction blanks generalizing front with
  | nil => rw [List.append_nil]
  | cons c blanks ih =>
    have hends : lex.EndsAt c [] front := endsAt_of_openComment? (hskip c List.mem_cons_self)
      (habsent c List.mem_cons_self) fun _ _ => Or.inr rfl
    have hothers := @ih (front ++ [c]) (fun d hd => hskip d (List.mem_cons_of_mem c hd))
      (fun d hd => habsent d (List.mem_cons_of_mem c hd))
    rw [List.append_assoc, List.singleton_append] at hothers
    rw [hothers, tokens, hends 0 (hread 0 front), tokensFrom_nil, List.append_nil, ← tokens]

end

end CubeLang.Lexicon
