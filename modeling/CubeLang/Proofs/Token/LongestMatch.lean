import CubeLang.Proofs.Token.Setup
import CubeLang.Token.Cursor
import Mathlib.Data.List.TakeWhile

/-!
# The longest match

What a cursor reads can be said of the text and the calls that set up the lexicon, without a trie:
separators are skipped, the longest added text in front is a keyword or opens a comment, and without
one the next token is a run of digits or a run of characters without a role. `Reads` says this as a
relation between places and tokens. Each place has a token, and it is the one that is read.
-/

set_option autoImplicit false

namespace CubeLang.Lexicon.Call

variable {calls : List Call} {rest text w w' close : List Char} {role : Option Role}
variable {p q : Nat} {t : Token} {c : Char}

/-! ## What stands in front of a text -/

/-- The longest text in front of another one that was added. -/
structure Longest (calls : List Call) (rest w : List Char) : Prop where
  added : w ∈ texts calls
  isPrefix : w <+: rest
  longest : ∀ v ∈ texts calls, v <+: rest → v.length ≤ w.length

/-- No text that was added stands in front. -/
def Absent (calls : List Call) (rest : List Char) : Prop :=
  ∀ w ∈ texts calls, ¬w <+: rest

instance (calls : List Call) (rest : List Char) : Decidable (Absent calls rest) :=
  inferInstanceAs (Decidable (∀ w ∈ texts calls, ¬w <+: rest))

/-- The longest run of characters with a role in front of a text. -/
structure Run (calls : List Call) (role : Option Role) (rest run : List Char) : Prop where
  isPrefix : run <+: rest
  all : ∀ c ∈ run, role? calls c = role
  whole : ∀ c, run ++ [c] <+: rest → role? calls c ≠ role

/-- Where a text goes on behind the first closing mark from the place `p` on: at its end if there is
none. -/
inductive Behind (close text : List Char) (p : Nat) : Nat → Prop
  | closed {k : Nat} (start : p ≤ k) (inside : k ≤ text.length) (mark : close <+: text.drop k)
    (first : ∀ j, p ≤ j → j < k → ¬close <+: text.drop j) : Behind close text p (k + close.length)
  | unclosed (none : ∀ k, p ≤ k → k ≤ text.length → ¬close <+: text.drop k) :
    Behind close text p text.length

/-- The token that is to be read at a place of a text. -/
inductive Reads (calls : List Call) (text : List Char) : Nat → Token → Prop
  | finished {p : Nat} (past : text.length ≤ p) : Reads calls text p (.endOfText text.length)
  | skipped {p : Nat} {c : Char} {t : Token} (here : text[p]? = some c)
    (skip : role? calls c = some .skip) (next : Reads calls text (p + 1) t) : Reads calls text p t
  | comment {p q : Nat} {c : Char} {w close : List Char} {t : Token} (here : text[p]? = some c)
    (noSkip : role? calls c ≠ some .skip) (longest : Longest calls (text.drop p) w)
    (opening : close? calls w = some close) (behind : Behind close text (p + w.length) q)
    (next : Reads calls text q t) : Reads calls text p t
  | keyword {p : Nat} {c : Char} {w : List Char} (here : text[p]? = some c)
    (noSkip : role? calls c ≠ some .skip) (longest : Longest calls (text.drop p) w)
    (noOpening : close? calls w = none) : Reads calls text p (.ofChars .keyword p w)
  | number {p : Nat} {c : Char} {run : List Char} (here : text[p]? = some c)
    (digit : role? calls c = some .digit) (absent : Absent calls (text.drop p))
    (digits : Run calls (some .digit) (text.drop p) run) :
    Reads calls text p (.ofChars (.number (Text.Integer.valueFrom 0 run)) p run)
  | word {p : Nat} {c : Char} {run : List Char} (here : text[p]? = some c)
    (plain : role? calls c = none) (absent : Absent calls (text.drop p))
    (letters : Run calls none (text.drop p) run) : Reads calls text p (.ofChars .word p run)

/-! ## The longest added text -/

/-- Without an added text in front the trie finds nothing. -/
theorem longest?_of_absent (h : Absent calls rest) : (lexicon calls).trie.longest? rest = none := by
  refine Trie.longest?_eq_none fun k _ _ => ?_
  rw [lookup?_lexicon, if_neg fun hmem => h _ hmem (List.take_prefix k rest)]

/-- The trie finds the longest added text. -/
theorem longest?_of_longest (h : ∀ call ∈ calls, call.Filled) (hw : Longest calls rest w) :
    (lexicon calls).trie.longest? rest = some (entryOf (close? calls w), w.length) := by
  have hfront : rest.take w.length = w := (List.prefix_iff_eq_take.mp hw.isPrefix).symm
  refine Trie.longest?_eq_some (List.length_pos_of_ne_nil (ne_nil_of_mem_texts h hw.added))
    hw.isPrefix.length_le ?_ fun k hlonger hle => ?_
  · rw [hfront, lookup?_lexicon, if_pos hw.added]
  · rw [lookup?_lexicon, if_neg]
    intro hmem
    have := hw.longest _ hmem (List.take_prefix k rest)
    rw [List.length_take_of_le hle] at this
    omega

/-- Either an added text stands in front, and one of them is the longest, or there is none. -/
theorem exists_longest_or_absent (h : ∀ call ∈ calls, call.Filled) (rest : List Char) :
    (∃ w, Longest calls rest w) ∨ Absent calls rest := by
  -- No added text is longer than what the trie finds.
  have hlonger : ∀ w ∈ texts calls, w <+: rest →
      ¬∀ e j, (lexicon calls).trie.longest? rest = some (e, j) → j < w.length := by
    intro w hw hfront hshort
    have hnone := Trie.lookup?_take_eq_none (List.length_pos_of_ne_nil (ne_nil_of_mem_texts h hw))
      hfront.length_le hshort
    rw [← List.prefix_iff_eq_take.mp hfront, lookup?_lexicon, if_pos hw] at hnone
    contradiction
  cases hfound : (lexicon calls).trie.longest? rest with
  | none =>
    exact Or.inr fun w hw hfront => hlonger w hw hfront fun e j he => by simp [hfound] at he
  | some found =>
    obtain ⟨e, k⟩ := found
    have hadded : rest.take k ∈ texts calls := by
      have hlookup := Trie.lookup?_take_of_longest? hfound
      rw [lookup?_lexicon] at hlookup
      exact (Option.ite_none_right_eq_some.mp hlookup).1
    refine Or.inl ⟨rest.take k, hadded, List.take_prefix k rest, fun v hv hfront => ?_⟩
    rw [List.length_take_of_le (Trie.longest?_bounds hfound).2]
    by_contra hk
    refine hlonger v hv hfront fun e j he => ?_
    obtain ⟨-, rfl⟩ := Prod.mk.inj (Option.some.inj (hfound.symm.trans he))
    omega

/-! ## Runs -/

section

variable {same : Char → Bool} (hsame : ∀ c, same c = true ↔ role? calls c = role)
include hsame

/-- A run is what stands in front of the first other character. -/
theorem Run.eq_takeWhile (h : Run calls role rest w) : w = rest.takeWhile same := by
  obtain ⟨behind, rfl⟩ := h.isPrefix
  rw [List.takeWhile_append_of_pos fun c hc => (hsame c).mpr (h.all c hc)]
  cases behind with
  | nil => rw [List.takeWhile_nil, List.append_nil]
  | cons c behind =>
    have hstop : ¬same c = true := by
      rw [hsame]
      exact h.whole c ⟨behind, by simp⟩
    rw [List.takeWhile_cons_of_neg hstop, List.append_nil]

theorem run_takeWhile (rest : List Char) : Run calls role rest (rest.takeWhile same) := by
  refine ⟨List.takeWhile_prefix _, fun c hc => ?_, fun c hc hrole => ?_⟩
  · exact (hsame c).mp (List.mem_takeWhile_imp hc)
  · -- The first character behind the run would belong to it.
    have hnext : [c] <+: rest.dropWhile same := by
      rwa [← List.prefix_append_right_inj (rest.takeWhile same), List.takeWhile_append_dropWhile]
    obtain ⟨behind, hbehind⟩ := hnext
    have hstop := List.head?_dropWhile_not same rest
    rw [← hbehind, List.singleton_append, List.head?_cons] at hstop
    exact absurd ((hsame c).mpr hrole) (by simpa using hstop)

end

/-! ## Closing marks -/

theorem Behind.unique (h : Behind close text p q) {q' : Nat} (h' : Behind close text p q') :
    q = q' := by
  cases h with
  | @closed k hp hk hmark hfirst =>
    cases h' with
    | @closed k' hp' hk' hmark' hfirst' =>
      rcases Nat.lt_trichotomy k k' with hlt | rfl | hlt
      · exact absurd hmark (hfirst' k hp hlt)
      · rfl
      · exact absurd hmark' (hfirst k' hp' hlt)
    | unclosed hnone => exact absurd hmark (hnone k hp hk)
  | unclosed hnone =>
    cases h' with
    | @closed k' hp' hk' hmark' hfirst' => exact absurd hmark' (hnone k' hp' hk')
    | unclosed => rfl

theorem Behind.of_next (h : Behind close text (p + 1) q) (hmark : ¬close <+: text.drop p) :
    Behind close text p q := by
  have hbehind : ∀ k, p ≤ k → close <+: text.drop k → p + 1 ≤ k := by
    intro k hk hfound
    rcases Nat.lt_or_eq_of_le hk with hlt | rfl
    · exact hlt
    · contradiction
  cases h with
  | closed start inside found first =>
    exact .closed (Nat.le_of_succ_le start) inside found fun j hj hlt hfound =>
      first j (hbehind j hj hfound) hlt hfound
  | unclosed none =>
    exact .unclosed fun k hk hle hfound => none k (hbehind k hk hfound) hle hfound

/-- The first closing mark is searched from the place on. -/
theorem behind_closeLength (close : List Char) (hp : p ≤ text.length) :
    Behind close text p (p + closeLength close (text.drop p)) := by
  induction hrest : text.drop p generalizing p with
  | nil =>
    obtain rfl : p = text.length := Nat.le_antisymm hp (List.drop_eq_nil_iff.mp hrest)
    cases close with
    | nil => exact .closed (Nat.le_refl _) (Nat.le_refl _) List.nil_prefix fun j hj hlt => by omega
    | cons c close =>
      refine .unclosed fun k hk hle hmark => ?_
      rw [List.drop_eq_nil_of_le hk] at hmark
      exact absurd (List.prefix_nil.mp hmark) (List.cons_ne_nil c close)
  | cons c rest ih =>
    have hlt : p < text.length := by
      by_contra hge
      rw [List.drop_eq_nil_of_le (Nat.le_of_not_lt hge)] at hrest
      contradiction
    rw [closeLength]
    split
    · rename_i hmark
      rw [List.isPrefixOf_iff_prefix, ← hrest] at hmark
      exact .closed (Nat.le_refl p) hp hmark fun j hj hlt => by omega
    · rename_i hmark
      rw [List.isPrefixOf_iff_prefix, ← hrest] at hmark
      have hnext : text.drop (p + 1) = rest := by
        rw [← List.drop_drop, hrest, List.drop_one, List.tail_cons]
      rw [← Nat.add_assoc, Nat.add_right_comm]
      exact (ih hlt hnext).of_next hmark

end CubeLang.Lexicon.Call

namespace CubeLang.Lexicon

/-- The token that a scan finds in a text of `length` characters. -/
def Scan.token? (length : Nat) : Scan → Option Token
  | .token t _ => some t
  | .unreadable _ _ => none
  | .finished => some (.endOfText length)

theorem scan_of_noSkip {lex : Lexicon} {c : Char} (h : lex.isSkip c = false) (position : Nat)
    (cs : List Char) : lex.scan position (c :: cs) = lex.scanBehind position (c :: cs) := by
  have hskip : ¬lex.isSkip c = true := by simp [h]
  rw [scan_eq, List.takeWhile_cons_of_neg hskip, List.dropWhile_cons_of_neg hskip, List.length_nil,
    Nat.add_zero]

namespace Call

variable {calls : List Call} {text w : List Char} {p : Nat} {t : Token} {c : Char}

/-! ## What is read -/

theorem drop_of_getElem? (here : text[p]? = some c) : text.drop p = c :: text.drop (p + 1) := by
  obtain ⟨hp, rfl⟩ := List.getElem?_eq_some_iff.mp here
  exact List.drop_eq_getElem_cons hp

theorem isSkip_lexicon (calls : List Call) (c : Char) :
    (lexicon calls).isSkip c = true ↔ role? calls c = some .skip := by
  rw [isSkip, role?_lexicon, decide_eq_true_iff]

theorem isDigit_lexicon (calls : List Call) (c : Char) :
    (lexicon calls).isDigit c = true ↔ role? calls c = some .digit := by
  rw [isDigit, role?_lexicon, decide_eq_true_iff]

theorem isPlain_lexicon (calls : List Call) (c : Char) :
    (lexicon calls).isPlain c = true ↔ role? calls c = none := by
  rw [isPlain, role?_lexicon, decide_eq_true_iff]

theorem scan_of_getElem? (here : text[p]? = some c) (noSkip : role? calls c ≠ some .skip) :
    (lexicon calls).scan p (text.drop p) =
      (lexicon calls).scanBehind p (c :: text.drop (p + 1)) := by
  rw [drop_of_getElem? here, scan_of_noSkip]
  rwa [Bool.eq_false_iff, ne_eq, isSkip_lexicon]

/-- A comment is passed. -/
theorem scan_of_comment {close : List Char} {q : Nat} (h : ∀ call ∈ calls, call.Filled)
    (here : text[p]? = some c) (noSkip : role? calls c ≠ some .skip)
    (longest : Longest calls (text.drop p) w) (opening : close? calls w = some close)
    (behind : Behind close text (p + w.length) q) :
    (lexicon calls).scan p (text.drop p) = (lexicon calls).scan q (text.drop q) := by
  have hinside : p + w.length ≤ text.length := by
    have hle := longest.isPrefix.length_le
    obtain ⟨hp, -⟩ := List.getElem?_eq_some_iff.mp here
    rw [List.length_drop] at hle
    omega
  have found := longest?_of_longest h longest
  rw [opening] at found
  rw [scan_of_getElem? here noSkip]
  rw [drop_of_getElem? here] at found
  rw [scanBehind_comment found, ← drop_of_getElem? here, List.drop_drop, List.drop_drop,
    (behind_closeLength close hinside).unique behind]

/-- A keyword is found. -/
theorem scan_of_keyword (h : ∀ call ∈ calls, call.Filled) (here : text[p]? = some c)
    (noSkip : role? calls c ≠ some .skip) (longest : Longest calls (text.drop p) w)
    (noOpening : close? calls w = none) :
    ∃ rest, (lexicon calls).scan p (text.drop p) = .token (.ofChars .keyword p w) rest := by
  have found := longest?_of_longest h longest
  have hfront := List.prefix_iff_eq_take.mp longest.isPrefix
  rw [drop_of_getElem? here] at found hfront
  rw [noOpening] at found
  rw [scan_of_getElem? here noSkip, scanBehind_keyword found, ← hfront]
  exact ⟨_, rfl⟩

/-- A run of characters that make numbers is one, or is unreadable. -/
theorem scan_of_digits {run : List Char} (here : text[p]? = some c)
    (digit : role? calls c = some .digit) (absent : Absent calls (text.drop p))
    (digits : Run calls (some .digit) (text.drop p) run) :
    ∃ rest, (lexicon calls).scan p (text.drop p) =
      match Text.Integer.parse? run with
      | some value => .token (.ofChars (.number value) p run) rest
      | none => .unreadable (p + run.length) rest := by
  have found := longest?_of_absent absent
  have hrun := digits.eq_takeWhile (isDigit_lexicon calls)
  have hdigit := (isDigit_lexicon calls c).mpr digit
  rw [drop_of_getElem? here] at found hrun
  rw [scan_of_getElem? here (by simp [digit]), scanBehind_digits found hdigit, ← hrun]
  exact ⟨_, rfl⟩

/-- A run of characters without a role is found. -/
theorem scan_of_word {run : List Char} (here : text[p]? = some c) (plain : role? calls c = none)
    (absent : Absent calls (text.drop p)) (letters : Run calls none (text.drop p) run) :
    ∃ rest, (lexicon calls).scan p (text.drop p) = .token (.ofChars .word p run) rest := by
  have found := longest?_of_absent absent
  have hrun := letters.eq_takeWhile (isPlain_lexicon calls)
  have hdigit : ¬(lexicon calls).isDigit c = true := by simp [isDigit_lexicon, plain]
  rw [drop_of_getElem? here] at found hrun
  rw [scan_of_getElem? here (by simp [plain]), scanBehind_word found hdigit, ← hrun]
  exact ⟨_, rfl⟩

theorem Run.ne_nil {run : List Char} {role : Option Role} (h : Run calls role (text.drop p) run)
    (here : text[p]? = some c) (hrole : role? calls c = role) : run ≠ [] := by
  rintro rfl
  exact h.whole c ⟨text.drop (p + 1), (drop_of_getElem? here).symm⟩ hrole

/-- The scanner finds no other token than the one that is to be read. -/
theorem token?_scan_of_reads (h : ∀ call ∈ calls, call.Proper) (hreads : Reads calls text p t) :
    ((lexicon calls).scan p (text.drop p)).token? text.length = some t := by
  have hfilled : ∀ call ∈ calls, call.Filled := fun call hcall => (h call hcall).filled
  induction hreads with
  | finished past =>
    rw [List.drop_eq_nil_of_le past, scan_eq]
    rfl
  | skipped here skip next ih =>
    rwa [drop_of_getElem? here, scan_skip _ ((isSkip_lexicon calls _).mpr skip)]
  | comment here noSkip longest opening behind next ih =>
    rwa [scan_of_comment hfilled here noSkip longest opening behind]
  | keyword here noSkip longest noOpening =>
    obtain ⟨rest, hscan⟩ := scan_of_keyword hfilled here noSkip longest noOpening
    rw [hscan]
    rfl
  | number here digit absent digits =>
    have hvalue := Text.Integer.parse?_of_decimal (digits.ne_nil here digit) fun c hc =>
      decimal_of_role? h (digits.all c hc)
    obtain ⟨rest, hscan⟩ := scan_of_digits here digit absent digits
    rw [hscan, hvalue]
    rfl
  | word here plain absent letters =>
    obtain ⟨rest, hscan⟩ := scan_of_word here plain absent letters
    rw [hscan]
    rfl

/-- At each place a token is to be read. -/
theorem exists_reads (h : ∀ call ∈ calls, call.Proper) (text : List Char) (p : Nat) :
    ∃ t, Reads calls text p t := by
  have hfilled : ∀ call ∈ calls, call.Filled := fun call hcall => (h call hcall).filled
  induction hleft : text.length - p using Nat.strong_induction_on generalizing p with
  | _ left ih =>
    subst hleft
    rcases Nat.lt_or_ge p text.length with hp | past
    · have here : text[p]? = some text[p] := List.getElem?_eq_getElem hp
      by_cases skip : role? calls text[p] = some .skip
      · obtain ⟨t, next⟩ := ih _ (by omega) (p + 1) rfl
        exact ⟨t, .skipped here skip next⟩
      · rcases exists_longest_or_absent hfilled (text.drop p) with ⟨w, longest⟩ | absent
        · cases hmark : close? calls w with
          | none => exact ⟨_, .keyword here skip longest hmark⟩
          | some close =>
            have hpos := List.length_pos_of_ne_nil (ne_nil_of_mem_texts hfilled longest.added)
            have hle := longest.isPrefix.length_le
            rw [List.length_drop] at hle
            obtain ⟨t, next⟩ := ih _ (by omega)
              (p + w.length + closeLength close (text.drop (p + w.length))) rfl
            exact ⟨t, .comment here skip longest hmark (behind_closeLength close (by omega)) next⟩
        · rcases hrole : role? calls text[p] with _ | _ | _
          · exact ⟨_, .word here hrole absent (run_takeWhile (isPlain_lexicon calls) _)⟩
          · contradiction
          · exact ⟨_, .number here hrole absent (run_takeWhile (isDigit_lexicon calls) _)⟩
    · exact ⟨_, .finished past⟩

/-- A cursor moves behind the token that the scanner finds. -/
theorem next_of_token? {lex : Lexicon} {c : Cursor} (hfresh : c.pushedBack = false)
    (h : (lex.scan c.position (text.drop c.position)).token? text.length = some t) :
    Cursor.next lex text c = .ok t { position := t.stop, token := t } := by
  have hget : (get : Cursor.Step Cursor) c = .ok c c := rfl
  rw [Cursor.next, bind_of_ok hget, hfresh]
  cases hscan : lex.scan c.position (text.drop c.position) with
  | token t' rest =>
    obtain rfl : t' = t := by
      rw [hscan] at h
      exact Option.some.inj h
    rfl
  | unreadable stop rest =>
    rw [hscan] at h
    contradiction
  | finished =>
    obtain rfl : .endOfText text.length = t := by
      rw [hscan] at h
      exact Option.some.inj h
    rfl

/-- **A cursor reads the longest match.** After calls that add no empty text and make numbers of
decimal digits only, a cursor with nothing pushed back reads the one token that is to be read at its
place, whatever the text and wherever it stands. -/
theorem next_iff_reads (h : ∀ call ∈ calls, call.Proper) :
    ∃ lex, makeAll calls {} = .ok () lex ∧
      ∀ (text : List Char) (c : Cursor), c.pushedBack = false →
        ∃ t, Cursor.next lex text c =
            .ok t { position := t.stop, pushedBack := false, token := t } ∧
          ∀ t', Reads calls text c.position t' ↔ t' = t := by
  refine ⟨lexicon calls, makeAll_of_proper h, fun text c hfresh => ?_⟩
  obtain ⟨t, hreads⟩ := exists_reads h text c.position
  have hfound := token?_scan_of_reads h hreads
  refine ⟨t, next_of_token? hfresh hfound, fun t' => ⟨fun hreads' => ?_, ?_⟩⟩
  · have hfound' := token?_scan_of_reads h hreads'
    exact Option.some.inj (hfound'.symm.trans hfound)
  · rintro rfl
    exact hreads

/-- Calls with texts that begin alike, and with an opening that is added again with another mark and
then as a keyword. -/
def overlapping : List Call :=
  [.skip [' '], .digits '0' '9', .keyword ['t', 'o'], .comment ['#'] ['\n'],
    .keyword ['t', 'o', 'm', 'a'], .comment ['#'] [';'], .keyword ['#']]

theorem proper_of_mem_overlapping : ∀ call ∈ overlapping, call.Proper := by
  simp only [overlapping, List.forall_mem_cons, Proper, true_and, ne_eq, List.cons_ne_nil,
    not_false_eq_true, List.not_mem_nil, false_implies, implies_true, and_true]
  intro c hlow hhigh
  exact Text.Integer.decimal_of_isDigit (Char.isDigit_iff_toNat.mpr ⟨hlow, hhigh⟩)

/-- The comment reaches up to the mark that came last, and the longer keyword is read behind it. -/
theorem next_overlapping : (∀ call ∈ overlapping, call.Proper) ∧
    ∃ lex, makeAll overlapping {} = .ok () lex ∧
      Cursor.next lex " # to\n;tomatoes".toList {} =
        .ok ⟨.keyword, "toma", 7, 11⟩ { position := 11, token := ⟨.keyword, "toma", 7, 11⟩ } ∧
      ∀ t, Reads overlapping " # to\n;tomatoes".toList 0 t ↔ t = ⟨.keyword, "toma", 7, 11⟩ := by
  have hproper := proper_of_mem_overlapping
  obtain ⟨lex, hmake, hnext⟩ := next_iff_reads hproper
  obtain ⟨-, hlex⟩ := EStateM.Result.ok.inj ((makeAll_of_proper hproper).symm.trans hmake)
  obtain ⟨t, hread, honly⟩ := hnext " # to\n;tomatoes".toList {} rfl
  have hcomputed : Cursor.next (lexicon overlapping) " # to\n;tomatoes".toList {} =
      .ok ⟨.keyword, "toma", 7, 11⟩ { position := 11, token := ⟨.keyword, "toma", 7, 11⟩ } :=
    next_of_token? rfl (by decide +kernel)
  rw [← hlex] at hread hmake
  obtain ⟨rfl, -⟩ := EStateM.Result.ok.inj (hread.symm.trans hcomputed)
  exact ⟨hproper, _, hmake, hread, honly⟩

end Call

end CubeLang.Lexicon
