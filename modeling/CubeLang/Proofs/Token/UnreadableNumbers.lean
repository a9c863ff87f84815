import CubeLang.Proofs.Token.LongestMatch

/-!
# Numbers that cannot be read

Any range of characters can be made to make numbers, but a run of such characters is a number only
if it is written in decimal digits. Where a run that is no number would be the next token, a cursor
fails; everywhere else it reads a token. So with some calls no text makes a cursor fail, and with
others some text does: it depends on the runs that the calls allow.
-/

set_option autoImplicit false

namespace CubeLang.Lexicon.Call

variable {calls : List Call} {text : List Char} {p stop : Nat} {c : Cursor} {lex : Lexicon}

/-- From a place of a text on there is no token: behind separators and comments stands a run of
characters that make numbers, which ends at `stop` and is no number. -/
inductive Stuck (calls : List Call) (text : List Char) : Nat → Nat → Prop
  | skipped {p stop : Nat} {d : Char} (here : text[p]? = some d) (skip : role? calls d = some .skip)
    (next : Stuck calls text (p + 1) stop) : Stuck calls text p stop
  | comment {p q stop : Nat} {d : Char} {w close : List Char} (here : text[p]? = some d)
    (noSkip : role? calls d ≠ some .skip) (longest : Longest calls (text.drop p) w)
    (opening : close? calls w = some close) (behind : Behind close text (p + w.length) q)
    (next : Stuck calls text q stop) : Stuck calls text p stop
  | run {p : Nat} {d : Char} {run : List Char} (here : text[p]? = some d)
    (digit : role? calls d = some .digit) (absent : Absent calls (text.drop p))
    (digits : Run calls (some .digit) (text.drop p) run)
    (unreadable : Text.Integer.parse? run = none) : Stuck calls text p (p + run.length)

/-- Calls for which all runs of characters that make numbers are numbers, unless an added text
stands in front. -/
def Readable (calls : List Call) : Prop :=
  ∀ run ≠ [], (∀ d ∈ run, role? calls d = some .digit) → Absent calls run →
    (Text.Integer.parse? run).isSome = true

/-! ## What the scanner finds -/

/-- The scanner comes to the end of the run. -/
theorem scan_of_stuck (h : ∀ call ∈ calls, call.Filled) (hstuck : Stuck calls text p stop) :
    ∃ rest, (lexicon calls).scan p (text.drop p) = .unreadable stop rest := by
  induction hstuck with
  | skipped here skip next ih =>
    rwa [drop_of_getElem? here, scan_skip _ ((isSkip_lexicon calls _).mpr skip)]
  | comment here noSkip longest opening behind next ih =>
    rwa [scan_of_comment h here noSkip longest opening behind]
  | run here digit absent digits unreadable =>
    obtain ⟨rest, hscan⟩ := scan_of_digits here digit absent digits
    rw [unreadable] at hscan
    exact ⟨rest, hscan⟩

/-- Where there is no token, the scanner is stuck. -/
theorem stuck_or_token? (h : ∀ call ∈ calls, call.Filled) (text : List Char) (p : Nat) :
    (∃ stop, Stuck calls text p stop) ∨
      ∃ t, ((lexicon calls).scan p (text.drop p)).token? text.length = some t := by
  induction hleft : text.length - p using Nat.strong_induction_on generalizing p with
  | _ left ih =>
    subst hleft
    rcases Nat.lt_or_ge p text.length with hp | past
    · have here : text[p]? = some text[p] := List.getElem?_eq_getElem hp
      by_cases skip : role? calls text[p] = some .skip
      · rw [drop_of_getElem? here, scan_skip _ ((isSkip_lexicon calls _).mpr skip)]
        exact (ih _ (by omega) (p + 1) rfl).imp_left fun ⟨stop, next⟩ =>
          ⟨stop, .skipped here skip next⟩
      · rcases exists_longest_or_absent h (text.drop p) with ⟨w, longest⟩ | absent
        · cases hmark : close? calls w with
          | none =>
            obtain ⟨rest, hscan⟩ := scan_of_keyword h here skip longest hmark
            exact Or.inr ⟨_, by rw [hscan]; rfl⟩
          | some close =>
            have hpos := List.length_pos_of_ne_nil (ne_nil_of_mem_texts h longest.added)
            have hle := longest.isPrefix.length_le
            rw [List.length_drop] at hle
            have behind : Behind close text (p + w.length) _ := behind_closeLength close (by omega)
            rw [scan_of_comment h here skip longest hmark behind]
            exact (ih _ (by omega) _ rfl).imp_left fun ⟨stop, next⟩ =>
              ⟨stop, .comment here skip longest hmark behind next⟩
        · rcases hrole : role? calls text[p] with _ | _ | _
          · obtain ⟨rest, hscan⟩ := scan_of_word here hrole absent
              (run_takeWhile (isPlain_lexicon calls) _)
            exact Or.inr ⟨_, by rw [hscan]; rfl⟩
          · contradiction
          · have digits := run_takeWhile (isDigit_lexicon calls) (text.drop p)
            generalize (text.drop p).takeWhile (lexicon calls).isDigit = run at digits
            obtain ⟨rest, hscan⟩ := scan_of_digits here hrole absent digits
            cases hvalue : Text.Integer.parse? run with
            | none => exact Or.inl ⟨_, .run here hrole absent digits hvalue⟩
            | some value =>
              rw [hvalue] at hscan
              exact Or.inr ⟨_, by rw [hscan]; rfl⟩
    · refine Or.inr ⟨.endOfText text.length, ?_⟩
      rw [List.drop_eq_nil_of_le past, scan_eq]
      rfl

/-- A place where there is no token has a run that is no number. -/
theorem Stuck.exists_run (h : Stuck calls text p stop) :
    ∃ run ≠ [], (∀ d ∈ run, role? calls d = some .digit) ∧ Absent calls run ∧
      Text.Integer.parse? run = none := by
  induction h with
  | skipped here skip next ih => exact ih
  | comment here noSkip longest opening behind next ih => exact ih
  | run here digit absent digits unreadable =>
    exact ⟨_, digits.ne_nil here digit, digits.all,
      fun w hw hfront => absent w hw (hfront.trans digits.isPrefix), unreadable⟩

/-- A run that is no number is a text without a token. -/
theorem stuck_of_run {run : List Char} (hne : run ≠ [])
    (hall : ∀ d ∈ run, role? calls d = some .digit) (absent : Absent calls run)
    (unreadable : Text.Integer.parse? run = none) : Stuck calls run 0 run.length := by
  obtain ⟨d, ds, rfl⟩ := List.exists_cons_of_ne_nil hne
  have digits : Run calls (some .digit) (d :: ds) (d :: ds) := by
    refine ⟨List.prefix_refl _, hall, fun c hc => ?_⟩
    have hle := hc.length_le
    rw [List.length_append, List.length_singleton] at hle
    omega
  have hstuck : Stuck calls (d :: ds) 0 (0 + (d :: ds).length) :=
    .run rfl (hall d List.mem_cons_self) absent digits unreadable
  rwa [Nat.zero_add] at hstuck

/-! ## What a cursor reads -/

/-- A cursor that has nothing to read again fails where there is no token, at the end of the run. -/
theorem next_of_stuck (h : ∀ call ∈ calls, call.Filled) (hfresh : c.pushedBack = false)
    (hstuck : Stuck calls text c.position stop) :
    Cursor.next (lexicon calls) text c = .error .unreadableNumber { c with position := stop } := by
  have hget : (get : Cursor.Step Cursor) c = .ok c c := rfl
  obtain ⟨rest, hscan⟩ := scan_of_stuck h hstuck
  rw [Cursor.next, bind_of_ok hget, hfresh, hscan]
  rfl

/-- A cursor that has a token to read again reads it. -/
theorem next_of_pushedBack (lex : Lexicon) (text : List Char) (h : c.pushedBack = true) :
    Cursor.next lex text c = .ok c.token { c with pushedBack := false } := by
  have hget : (get : Cursor.Step Cursor) c = .ok c c := rfl
  rw [Cursor.next, bind_of_ok hget, h]
  rfl

/-- **A cursor fails only at runs that are no numbers.** After any calls that are accepted, a cursor
reads a token, whatever the text and wherever it stands, unless there is nothing to read again and
behind separators and comments comes a run of characters that make numbers but not this one; then it
fails at the end of the run. So it never fails if and only if all runs that can come are numbers.
This is so if only decimal digits make numbers, and then each character that makes numbers and is no
added text is a decimal digit. -/
theorem next_fails_iff_stuck (h : makeAll calls {} = .ok () lex) :
    (∀ (text : List Char) (c : Cursor), (∃ t c', Cursor.next lex text c = .ok t c') ↔
      (c.pushedBack = false → ¬∃ stop, Stuck calls text c.position stop)) ∧
    (∀ (text : List Char) (c : Cursor) (stop : Nat), c.pushedBack = false →
      Stuck calls text c.position stop →
        Cursor.next lex text c = .error .unreadableNumber { c with position := stop }) ∧
    ((∀ (text : List Char) (c : Cursor), ∃ t c', Cursor.next lex text c = .ok t c') ↔
      Readable calls) ∧
    ((∀ d, role? calls d = some .digit → Text.Integer.Decimal d) → Readable calls) ∧
    (Readable calls → ∀ d, role? calls d = some .digit → [d] ∉ texts calls →
      Text.Integer.Decimal d) := by
  obtain ⟨hfilled, rfl⟩ := makeAll_eq_ok_iff.mp h
  have hnext : ∀ (text : List Char) (c : Cursor),
      (∃ t c', Cursor.next (lexicon calls) text c = .ok t c') ↔
        (c.pushedBack = false → ¬∃ stop, Stuck calls text c.position stop) := by
    intro text c
    cases hfresh : c.pushedBack with
    | true => exact ⟨nofun, fun _ => ⟨_, _, next_of_pushedBack _ text hfresh⟩⟩
    | false =>
      constructor
      · rintro ⟨t, c', hok⟩ - ⟨stop, hstuck⟩
        rw [next_of_stuck hfilled hfresh hstuck] at hok
        contradiction
      · intro hfree
        obtain ⟨t, htoken⟩ := (stuck_or_token? hfilled text c.position).resolve_left (hfree rfl)
        exact ⟨_, _, next_of_token? hfresh htoken⟩
  refine ⟨hnext, fun text c stop => next_of_stuck hfilled, ⟨fun hall => ?_, fun hreadable => ?_⟩,
    fun hdecimal => ?_, fun hreadable d hd hfree => ?_⟩
  · intro run hne hdigits habsent
    by_contra hnone
    have hstuck := stuck_of_run hne hdigits habsent (by simpa using hnone)
    exact (hnext run {}).mp (hall run {}) rfl ⟨_, hstuck⟩
  · intro text c
    refine (hnext text c).mpr fun _ ⟨stop, hstuck⟩ => ?_
    obtain ⟨run, hne, hdigits, habsent, hnone⟩ := hstuck.exists_run
    have hsome := hreadable run hne hdigits habsent
    rw [hnone] at hsome
    contradiction
  · intro run hne hdigits _
    rw [Text.Integer.parse?_of_decimal hne fun d hd => hdecimal d (hdigits d hd)]
    rfl
  · refine Text.Integer.decimal_of_parse?_singleton
      (hreadable [d] (List.cons_ne_nil _ _) (by simpa using hd) fun w hw hfront => ?_)
    rcases List.prefix_cons_iff.mp hfront with rfl | ⟨rest, rfl, hrest⟩
    · exact ne_nil_of_mem_texts hfilled hw rfl
    · obtain rfl := List.prefix_nil.mp hrest
      exact hfree hw

/-- Calls by which the digits and some letters make numbers, and one of the letters is a keyword. -/
def hexadecimal : List Call := [.skip [' '], .digits '0' '9', .digits 'a' 'f', .keyword ['a']]

/-- Behind the digits of a text the letters are reached, of which a run is no number. -/
theorem next_fails_hexadecimal : ∃ lex, makeAll hexadecimal {} = .ok () lex ∧
    (∃ t c', Cursor.next lex "a12 b".toList {} = .ok t c') ∧
    (¬∃ stop, Stuck hexadecimal "a12 b".toList 0 stop) ∧
    Stuck hexadecimal "a12 b".toList 3 5 ∧
    Cursor.next lex "a12 b".toList { position := 3 } =
      .error .unreadableNumber { position := 5 } ∧
    ¬Readable hexadecimal := by
  have hcalls : makeAll hexadecimal {} = .ok () (lexicon hexadecimal) := rfl
  obtain ⟨hnext, hfails, hall, -, -⟩ := next_fails_iff_stuck hcalls
  have hread : ((lexicon hexadecimal).scan 0 "a12 b".toList).token? 5 =
      some ⟨.keyword, "a", 0, 1⟩ := by decide +kernel
  have hok : ∃ t c', Cursor.next (lexicon hexadecimal) "a12 b".toList {} = .ok t c' :=
    ⟨_, _, next_of_token? rfl hread⟩
  have hrun : Run hexadecimal (some .digit) ['b'] ['b'] :=
    ⟨List.prefix_refl _, List.forall_mem_singleton.mpr (by decide),
      fun c hc => absurd hc.length_le (by simp)⟩
  have hbehind : Stuck hexadecimal "a12 b".toList 4 (4 + ['b'].length) :=
    .run rfl (by decide) (by decide) hrun (by decide)
  have hstuck : Stuck hexadecimal "a12 b".toList 3 5 := .skipped rfl (by decide) hbehind
  have hfailed := hfails "a12 b".toList { position := 3 } 5 rfl hstuck
  refine ⟨_, hcalls, hok, (hnext _ {}).mp hok rfl, hstuck, hfailed, fun hreadable => ?_⟩
  obtain ⟨t, c', hok'⟩ := hall.mpr hreadable "a12 b".toList { position := 3 }
  rw [hfailed] at hok'
  contradiction

/-- Letters that make numbers are accepted, and a run of them is refused. -/
theorem letters_unreadable : ∃ lex, makeAll [.digits 'a' 'f'] {} = .ok () lex ∧
    Cursor.next lex "cab".toList {} = .error .unreadableNumber { position := 3 } := by
  have hfilled : ∀ call ∈ [Call.digits 'a' 'f'], call.Filled := by simp [Filled, text?]
  have hdigits : ∀ d ∈ ['c', 'a', 'b'], role? [.digits 'a' 'f'] d = some .digit := by
    rw [List.forall_mem_cons, List.forall_mem_cons, List.forall_mem_singleton]
    exact ⟨by decide, by decide, by decide⟩
  have hstuck : Stuck [.digits 'a' 'f'] "cab".toList 0 3 :=
    stuck_of_run (by decide) hdigits (by decide) (by decide)
  exact ⟨lexicon [.digits 'a' 'f'], rfl, next_of_stuck hfilled rfl hstuck⟩

end CubeLang.Lexicon.Call
