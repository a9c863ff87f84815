import CubeLang.Proofs.Token.Boundaries
import CubeLang.Proofs.Token.LongestMatch

/-!
# Reading a text to its end

Whatever a lexicon knows, each reading of a cursor takes at least one character for a token, or finds
nothing but separators and comments up to the end of the text. So a text has at most as many tokens as
characters, and who goes on reading gets the end of the text over and over. `Scanned` says where the
tokens stand, and what stands between them.
-/

set_option autoImplicit false

namespace CubeLang

open Text.Integer (Decimal)

namespace Lexicon

variable {lex : Lexicon} {text rest : List Char} {p q : Nat} {t : Token} {ts : List Token}

/-! ## What stands between tokens -/

/-- A comment of a text, from the place `p` up to the place `q`: the longest known text at `p` opens
it, and it ends behind the first closing mark, or with the text if there is none. -/
inductive Comment (lex : Lexicon) (text : List Char) (p q : Nat) : Prop
  | between {opening close : List Char} (nonempty : opening ≠ [])
    (known : lex.trie.lookup? opening = some (.comment close)) (here : opening <+: text.drop p)
    (longest : ∀ w e, lex.trie.lookup? w = some e → w <+: text.drop p →
      w.length ≤ opening.length)
    (behind : Call.Behind close text (p + opening.length) q)

/-- From the place `p` up to the place `q` a text has separators and comments only. -/
inductive Gap (lex : Lexicon) (text : List Char) : Nat → Nat → Prop
  | none {p : Nat} : Gap lex text p p
  | skip {p q : Nat} {c : Char} (here : text[p]? = some c) (skip : lex.isSkip c = true)
    (next : Gap lex text (p + 1) q) : Gap lex text p q
  | comment {p p' q : Nat} (comment : lex.Comment text p p') (next : Gap lex text p' q) :
    Gap lex text p q

/-- The tokens of a text from the place `p` on: they stand in it one behind the other, each with the
characters that it is made of, and with separators and comments between them and behind the last. -/
inductive Scanned (lex : Lexicon) (text : List Char) : Nat → List Token → Prop
  | finished {p : Nat} (gap : lex.Gap text p text.length) : Scanned lex text p []
  | token {p : Nat} {t : Token} {ts : List Token} (gap : lex.Gap text p t.start)
    (behind : p ≤ t.start) (nonempty : t.start < t.stop) (inside : t.stop ≤ text.length)
    (slice : t.text = String.ofList ((text.take t.stop).drop t.start))
    (next : Scanned lex text t.stop ts) : Scanned lex text p (t :: ts)

/-- Each token takes a character. -/
theorem Scanned.length_le (h : lex.Scanned text p ts) (hp : p ≤ text.length) :
    p + ts.length ≤ text.length := by
  induction h with
  | finished gap => exact hp
  | token gap behind nonempty inside slice next ih =>
    have hnext := ih inside
    rw [List.length_cons]
    omega

/-! ## What a scan passes -/

/-- The longest known text is a comment if it opens one. -/
theorem comment_of_longest? {close : List Char} {k : Nat} (hp : p ≤ text.length)
    (found : lex.trie.longest? (text.drop p) = some (.comment close, k)) :
    lex.Comment text p (p + k + closeLength close (text.drop (p + k))) := by
  obtain ⟨hk, hle⟩ := Trie.longest?_bounds found
  have hlength : ((text.drop p).take k).length = k := List.length_take_of_le hle
  rw [List.length_drop] at hle
  refine ⟨?_, Trie.lookup?_take_of_longest? found, List.take_prefix k _, ?_, ?_⟩
  · exact List.ne_nil_of_length_pos (hlength.symm ▸ hk)
  · intro w e hw hfront
    rw [hlength]
    -- A longer text would have been found.
    by_contra hlonger
    have hshort : ∀ e' j, lex.trie.longest? (text.drop p) = some (e', j) → j < w.length := by
      intro e' j hj
      obtain ⟨-, rfl⟩ := Prod.mk.inj (Option.some.inj (found.symm.trans hj))
      omega
    have hnone := Trie.lookup?_take_eq_none (by omega) hfront.length_le hshort
    rw [← List.prefix_iff_eq_take.mp hfront, hw] at hnone
    contradiction
  · rw [hlength]
    exact Call.behind_closeLength close (by omega)

theorem drop_run {cs : List Char} (hcs : text.drop p = cs) (r : Char → Bool) :
    text.drop (p + (cs.takeWhile r).length) = cs.dropWhile r := by
  have hsplit : (cs.takeWhile r ++ cs.dropWhile r).drop (cs.takeWhile r).length =
      cs.dropWhile r := List.drop_left
  rwa [List.takeWhile_append_dropWhile, ← hcs, List.drop_drop, hcs] at hsplit

/-- Separators are passed one by one. -/
theorem Gap.of_run {cs : List Char} (hcs : text.drop p = cs)
    (h : lex.Gap text (p + (cs.takeWhile lex.isSkip).length) q) : lex.Gap text p q := by
  induction cs generalizing p with
  | nil => exact h
  | cons c cs ih =>
    by_cases hskip : lex.isSkip c = true
    · have here : text[p]? = some c := by
        rw [← Nat.add_zero p, ← List.getElem?_drop, hcs]
        rfl
      have hnext : text.drop (p + 1) = cs := by
        rw [← List.drop_drop, hcs]
        rfl
      rw [List.takeWhile_cons_of_pos hskip, List.length_cons, Nat.add_comm _ 1,
        ← Nat.add_assoc] at h
      exact .skip here hskip (ih hnext h)
    · rwa [List.takeWhile_cons_of_neg hskip] at h

/-- In front of a token, and of the end of a text, a scan passes separators and comments. -/
theorem gap_of_token? {cs : List Char} (hcs : text.drop p = cs) (hp : p ≤ text.length)
    (h : (lex.scan p cs).token? text.length = some t) : lex.Gap text p t.start := by
  have hlength : cs.length = text.length - p := by rw [← hcs, List.length_drop]
  fun_induction lex.scan p cs with
  | case1 p cs here =>
    obtain rfl := Option.some.inj h
    have hrun := length_run lex.isSkip cs
    rw [here, List.length_nil] at hrun
    refine .of_run hcs ?_
    rw [show p + (cs.takeWhile lex.isSkip).length = text.length by omega]
    exact .none
  | case2 | case4 | case6 =>
    obtain rfl := Option.some.inj h
    exact .of_run hcs .none
  | case3 p cs start c tail here close k found behind k' ih =>
    have hstart : text.drop start = c :: tail := (drop_run hcs lex.isSkip).trans here
    have hbehind : text.drop (start + k) = behind := by rw [← List.drop_drop, hstart]
    have hrun := length_run lex.isSkip cs
    rw [here] at hrun
    have hk := (Trie.longest?_bounds found).2
    have hk' : k' ≤ behind.length := closeLength_le close behind
    have hlength' : behind.length = (c :: tail).length - k := List.length_drop
    have hcomment : lex.Comment text start (start + k + k') := by
      have hcomment := comment_of_longest? (by omega) (hstart.symm ▸ found)
      rwa [hbehind] at hcomment
    refine .of_run hcs (.comment hcomment (ih ?_ (by omega) h ?_))
    · rw [← List.drop_drop, hbehind]
    · rw [List.length_drop]
      omega
  | case5 => contradiction

/-- A token has the characters at its place, and what is left of the text stands behind it. -/
theorem slice_of_scan (h : lex.scan p (text.drop p) = .token t rest) :
    t.text = String.ofList ((text.take t.stop).drop t.start) ∧ rest = text.drop t.stop := by
  obtain ⟨front, hdrop, hstart, hstop⟩ := standsIn_of_scan h
  have hplace : text.drop t.start = t.text.toList ++ rest := by
    rw [hstart, ← List.drop_drop, hdrop, List.drop_left]
  constructor
  · rw [List.drop_take, hplace, hstop, Nat.add_sub_cancel_left, List.take_left,
      String.ofList_toList]
  · rw [hstop, ← List.drop_drop, hplace, List.drop_left]

theorem isEnd_of_scan {cs : List Char} (h : lex.scan p cs = .token t rest) : t.isEnd = false := by
  fun_induction lex.scan p cs with
  | case1 | case5 => contradiction
  | case2 | case4 | case6 =>
    obtain ⟨rfl, -⟩ := Scan.token.inj h
    rfl
  | case3 => rename_i ih; exact ih h

theorem scanned_tokensFrom {cs : List Char} (hcs : text.drop p = cs) (hp : p ≤ text.length)
    (hread : (lex.tokensFrom p cs).2 = none) :
    lex.Scanned text p (lex.tokensFrom p cs).1 ∧ ∀ t ∈ (lex.tokensFrom p cs).1, t.isEnd = false := by
  fun_induction lex.tokensFrom p cs with
  | case1 p cs hscan =>
    have hend : (lex.scan p cs).token? text.length = some (.endOfText text.length) := by rw [hscan]; rfl
    exact ⟨.finished (gap_of_token? hcs hp hend), by simp⟩
  | case2 => contradiction
  | case3 p cs t rest hscan ts ending hrest ih =>
    rw [hrest] at ih
    have htoken : (lex.scan p cs).token? text.length = some t := by rw [hscan]; rfl
    have hgap := gap_of_token? hcs hp htoken
    obtain ⟨hstart, hlt, hstop⟩ := bounds_of_scan hscan
    subst hcs
    obtain ⟨hslice, hbehind⟩ := slice_of_scan hscan
    rw [List.length_drop] at hstop
    obtain ⟨hnext, hall⟩ := ih hbehind.symm (by omega) hread
    exact ⟨.token hgap hstart hlt (by omega) hslice hnext,
      List.forall_mem_cons.mpr ⟨isEnd_of_scan hscan, hall⟩⟩

end Lexicon

/-! ## Reading over and over -/

namespace Cursor

open Lexicon

variable {lex : Lexicon} {text : List Char} {c : Cursor} {ts : List Token}

/-- Reads so many tokens, one after the other. -/
def nextTimes (lex : Lexicon) (text : List Char) : Nat → Step (List Token)
  | 0 => return []
  | k + 1 => do
    let t ← next lex text
    return t :: (← nextTimes lex text k)

/-- A cursor in front of some tokens reads the first of them, or the end of the text if there is
none, and stands in front of the others. -/
theorem next_of_tokensFrom {first : Token} (hfresh : c.pushedBack = false)
    (h : lex.tokensFrom c.position (text.drop c.position) = (ts, none))
    (hfirst : ts.headD (.endOfText text.length) = first) :
    next lex text c = .ok first { position := first.stop, token := first } ∧
      lex.tokensFrom first.stop (text.drop first.stop) = (ts.tail, none) := by
  rw [tokensFrom_eq] at h
  cases hscan : lex.scan c.position (text.drop c.position) with
  | finished =>
    rw [hscan] at h
    obtain ⟨rfl, -⟩ := Prod.mk.inj h
    subst hfirst
    refine ⟨Call.next_of_token? hfresh (by rw [hscan]; rfl), ?_⟩
    rw [List.headD_nil, Token.endOfText, List.drop_length, tokensFrom_nil]
    rfl
  | unreadable => simp [hscan] at h
  | token t rest =>
    rw [hscan] at h
    obtain ⟨rfl, hnone⟩ := Prod.mk.inj h
    obtain rfl : t = first := hfirst
    refine ⟨Call.next_of_token? hfresh (by rw [hscan]; rfl), ?_⟩
    rw [← (slice_of_scan hscan).2]
    exact Prod.ext rfl hnone

theorem take_headD_cons {α : Type} (ts : List α) (e : α) (k : Nat) :
    (ts ++ List.replicate (k + 1) e).take (k + 1) =
      ts.headD e :: (ts.tail ++ List.replicate k e).take k := by
  cases ts with
  | nil => simp [List.replicate_succ]
  | cons t ts =>
    simp [List.take_append, List.take_replicate]
    omega

/-- A cursor reads the tokens in front of which it stands, and the end of the text behind them. -/
theorem nextTimes_of_tokensFrom (hfresh : c.pushedBack = false)
    (h : lex.tokensFrom c.position (text.drop c.position) = (ts, none)) (k : Nat) :
    ∃ c', nextTimes lex text k c =
      .ok ((ts ++ List.replicate k (Token.endOfText text.length)).take k) c' := by
  induction k generalizing c ts with
  | zero => exact ⟨c, by simp [nextTimes]; rfl⟩
  | succ k ih =>
    obtain ⟨hnext, hrest⟩ := next_of_tokensFrom hfresh h rfl
    obtain ⟨c', hothers⟩ := ih (c := { position := _, token := _ }) rfl hrest
    refine ⟨c', ?_⟩
    rw [nextTimes, bind_of_ok hnext, bind_of_ok hothers, take_headD_cons]
    rfl

/-- **Reading always comes to the end of a text.** If only decimal digits make numbers, a cursor at the
start of a text reads at most as many tokens as the text has characters, and behind them the end of the
text, however often it is asked. The tokens stand in the text one behind the other, with their
characters, and between them there are separators and comments only. -/
theorem nextTimes_start (hdigit : ∀ c, lex.isDigit c = true → Decimal c) (text : List Char) :
    ∃ ts, ts.length ≤ text.length ∧ (∀ t ∈ ts, t.isEnd = false) ∧ lex.Scanned text 0 ts ∧
      ∀ k, ∃ c, nextTimes lex text k {} =
        .ok ((ts ++ List.replicate k (Token.endOfText text.length)).take k) c := by
  have hread : (lex.tokensFrom 0 text).2 = none := ending_eq_none hdigit
  obtain ⟨hscanned, hall⟩ := scanned_tokensFrom List.drop_zero (Nat.zero_le _) hread
  refine ⟨lex.tokens text, ?_, hall, hscanned, nextTimes_of_tokensFrom rfl ?_⟩
  · exact Nat.zero_add (lex.tokens text).length ▸ hscanned.length_le (Nat.zero_le _)
  · exact Prod.ext rfl hread

/-- Calls with a separator that is part of a keyword, a keyword that begins with a digit, and an
opening of comments whose closing mark is empty. -/
def crossing : List Call :=
  Call.overlapping ++ [.skip ['a'], .keyword ['7', 't'], .comment ['+'] []]

theorem decimal_of_isDigit_crossing (c : Char) (h : (Call.lexicon crossing).isDigit c = true) :
    Decimal c := by
  have hproper : ∀ call ∈ crossing, call.Proper := by
    refine List.forall_mem_append.mpr ⟨Call.proper_of_mem_overlapping, ?_⟩
    simp [Call.Proper]
  exact Call.decimal_of_role? hproper ((Call.isDigit_lexicon _ _).mp h)

/-- A text that ends in a comment without a closing mark: three tokens are read, then its end. -/
theorem nextTimes_crossing :
    (∀ c, (Call.lexicon crossing).isDigit c = true → Decimal c) ∧
      ∃ ts, ts.length ≤ 15 ∧ (∀ t ∈ ts, t.isEnd = false) ∧
        (Call.lexicon crossing).Scanned "a7t+ 12+toma# x".toList 0 ts ∧
        (ts ++ List.replicate 5 (Token.endOfText 15)).take 5 =
          [⟨.keyword, "7t", 1, 3⟩, ⟨.number 12, "12", 5, 7⟩, ⟨.keyword, "toma", 8, 12⟩,
            .endOfText 15, .endOfText 15] := by
  obtain ⟨ts, hlength, hall, hscanned, hrun⟩ :=
    nextTimes_start decimal_of_isDigit_crossing "a7t+ 12+toma# x".toList
  have hread : (Call.lexicon crossing).tokensFrom 0 "a7t+ 12+toma# x".toList =
      ([⟨.keyword, "7t", 1, 3⟩, ⟨.number 12, "12", 5, 7⟩, ⟨.keyword, "toma", 8, 12⟩], none) := by
    decide +kernel
  obtain ⟨c, hc⟩ := hrun 5
  obtain ⟨c', hc'⟩ := nextTimes_of_tokensFrom (c := {}) rfl hread 5
  obtain ⟨hsame, -⟩ := EStateM.Result.ok.inj (hc.symm.trans hc')
  exact ⟨decimal_of_isDigit_crossing, ts, hlength, hall, hscanned, hsame⟩

end Cursor

end CubeLang
