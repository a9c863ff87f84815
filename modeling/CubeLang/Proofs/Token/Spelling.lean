import CubeLang.Proofs.Text.Integer
import CubeLang.Proofs.Token.Trie
import CubeLang.Token.Lexicon
import Mathlib.Data.List.Forall2

/-!
# Spelling

A lexeme is a token without its place. A text spells lexemes in front of another text if the tokens
read from the two together are these and then those of the other text, whatever the offset. A
keyword that no longer keyword hides, the digits of a number and the characters between tokens spell
what they should, and a text is spelled piece by piece.
-/

set_option autoImplicit false

namespace CubeLang

/-- What a token is and its text. -/
abbrev Lexeme := Token.Kind × String

/-- The lexeme of a token. -/
def Token.lexeme (t : Token) : Lexeme := (t.kind, t.text)

/-- The lexeme of a keyword. -/
def Lexeme.keyword (text : String) : Lexeme := (.keyword, text)

/-- The lexeme of a number in decimal digits. -/
def Lexeme.number (k : Nat) : Lexeme := (.number k, toString k)

namespace Lexicon

variable {lex : Lexicon} {cs cs' tail : List Char} {ls ls' : List Lexeme} {c : Char}

/-- The characters `cs` are read as the tokens of some lexemes if `tail` stands behind them. -/
def Spells (lex : Lexicon) (cs : List Char) (ls : List Lexeme) (tail : List Char) : Prop :=
  ∀ position, ∃ ts : List Token, ts.map Token.lexeme = ls ∧
    lex.tokensFrom position (cs ++ tail) =
      (ts ++ (lex.tokensFrom (position + cs.length) tail).1,
        (lex.tokensFrom (position + cs.length) tail).2)

theorem Spells.nil (lex : Lexicon) (tail : List Char) : lex.Spells [] [] tail :=
  fun _ => ⟨[], rfl, rfl⟩

theorem Spells.append (h : lex.Spells cs ls (cs' ++ tail)) (h' : lex.Spells cs' ls' tail) :
    lex.Spells (cs ++ cs') (ls ++ ls') tail := by
  intro position
  obtain ⟨ts, hts, hread⟩ := h position
  obtain ⟨ts', hts', hread'⟩ := h' (position + cs.length)
  refine ⟨ts ++ ts', by rw [List.map_append, hts, hts'], ?_⟩
  rw [List.append_assoc, hread, hread', List.append_assoc, List.length_append, Nat.add_assoc]

/-- The tokens from an offset on, without the proof that they end. -/
theorem tokensFrom_eq (lex : Lexicon) (position : Nat) (cs : List Char) :
    lex.tokensFrom position cs =
      match lex.scan position cs with
      | .finished => ([], none)
      | .unreadable stop _ => ([], some stop)
      | .token t rest => (t :: (lex.tokensFrom t.stop rest).1, (lex.tokensFrom t.stop rest).2) := by
  rw [tokensFrom]
  split
  all_goals
    rename_i heq
    rw [heq]

theorem tokensFrom_nil (lex : Lexicon) (position : Nat) :
    lex.tokensFrom position [] = ([], none) := by
  have hscan : lex.scan position [] = .finished := by
    rw [scan]
    rfl
  rw [tokensFrom_eq, hscan]

/-- What is spelled in front of the end of the text are all its tokens. -/
theorem Spells.tokens_eq (h : lex.Spells cs ls []) : (lex.tokens cs).map Token.lexeme = ls := by
  obtain ⟨ts, hts, hread⟩ := h 0
  rw [List.append_nil, tokensFrom_nil, List.append_nil] at hread
  rw [tokens, hread, hts]

/-! ## What stands at a place -/

/-- What stands behind the separators, at the offset `start`. -/
def scanBehind (lex : Lexicon) (start : Nat) : List Char → Scan
  | [] => .finished
  | c :: rest =>
    match lex.trie.longest? (c :: rest) with
    | some (.keyword, k) =>
      .token (.ofChars .keyword start ((c :: rest).take k)) ((c :: rest).drop k)
    | some (.comment close, k) =>
      let behind := (c :: rest).drop k
      let k' := closeLength close behind
      lex.scan (start + k + k') (behind.drop k')
    | none =>
      if lex.isDigit c then
        let digits := (c :: rest).takeWhile lex.isDigit
        let behind := (c :: rest).dropWhile lex.isDigit
        match Text.Integer.parse? digits with
        | some value => .token (.ofChars (.number value) start digits) behind
        | none => .unreadable (start + digits.length) behind
      else
        let word := (c :: rest).takeWhile lex.isPlain
        .token (.ofChars .word start word) ((c :: rest).dropWhile lex.isPlain)

theorem scan_eq (lex : Lexicon) (position : Nat) (cs : List Char) :
    lex.scan position cs = lex.scanBehind (position + (cs.takeWhile lex.isSkip).length)
      (cs.dropWhile lex.isSkip) := by
  rw [scan]
  split
  · rename_i hnil
    rw [hnil]
    rfl
  · rename_i c rest hcons
    rw [hcons, scanBehind]
    cases lex.trie.longest? (c :: rest) with
    | none => rfl
    | some e =>
      obtain ⟨entry, k⟩ := e
      cases entry <;> rfl

section

variable {start k : Nat} {close : List Char} {value : Int}

theorem scanBehind_keyword (found : lex.trie.longest? (c :: cs) = some (.keyword, k)) :
    lex.scanBehind start (c :: cs) =
      .token (.ofChars .keyword start ((c :: cs).take k)) ((c :: cs).drop k) := by
  rw [scanBehind, found]

theorem scanBehind_comment (found : lex.trie.longest? (c :: cs) = some (.comment close, k)) :
    lex.scanBehind start (c :: cs) =
      lex.scan (start + k + closeLength close ((c :: cs).drop k))
        (((c :: cs).drop k).drop (closeLength close ((c :: cs).drop k))) := by
  rw [scanBehind, found]

theorem scanBehind_digits (found : lex.trie.longest? (c :: cs) = none)
    (digit : lex.isDigit c = true) : lex.scanBehind start (c :: cs) =
      match Text.Integer.parse? ((c :: cs).takeWhile lex.isDigit) with
      | some value => .token (.ofChars (.number value) start ((c :: cs).takeWhile lex.isDigit))
        ((c :: cs).dropWhile lex.isDigit)
      | none => .unreadable (start + ((c :: cs).takeWhile lex.isDigit).length)
        ((c :: cs).dropWhile lex.isDigit) := by
  rw [scanBehind, found]
  exact if_pos digit

theorem scanBehind_word (found : lex.trie.longest? (c :: cs) = none)
    (digit : ¬lex.isDigit c = true) : lex.scanBehind start (c :: cs) =
      .token (.ofChars .word start ((c :: cs).takeWhile lex.isPlain))
        ((c :: cs).dropWhile lex.isPlain) := by
  rw [scanBehind, found]
  exact if_neg digit

end

theorem scan_of_dropWhile {behind : List Char} (here : cs.dropWhile lex.isSkip = behind)
    (position : Nat) :
    lex.scan position cs = lex.scanBehind (position + (cs.takeWhile lex.isSkip).length) behind := by
  rw [scan_eq, here]

theorem scan_skip (position : Nat) (hskip : lex.isSkip c = true) :
    lex.scan position (c :: cs) = lex.scan (position + 1) cs := by
  rw [scan_eq, scan_eq, List.takeWhile_cons_of_pos hskip, List.dropWhile_cons_of_pos hskip,
    List.length_cons, Nat.add_right_comm, Nat.add_assoc]

theorem scan_keyword {k : Nat} (position : Nat) (hskip : lex.isSkip c = false)
    (hlongest : lex.trie.longest? (c :: cs) = some (.keyword, k)) :
    lex.scan position (c :: cs) =
      .token (.ofChars .keyword position ((c :: cs).take k)) ((c :: cs).drop k) := by
  rw [scan_eq, List.takeWhile_cons_of_neg (by simp [hskip]),
    List.dropWhile_cons_of_neg (by simp [hskip]), scanBehind, hlongest]
  rfl

theorem scan_number {value : Int} (position : Nat) (hskip : lex.isSkip c = false)
    (hdigit : lex.isDigit c = true) (hlongest : lex.trie.longest? (c :: cs) = none)
    (hvalue : Text.Integer.parse? ((c :: cs).takeWhile lex.isDigit) = some value) :
    lex.scan position (c :: cs) =
      .token (.ofChars (.number value) position ((c :: cs).takeWhile lex.isDigit))
        ((c :: cs).dropWhile lex.isDigit) := by
  rw [scan_eq, List.takeWhile_cons_of_neg (by simp [hskip]),
    List.dropWhile_cons_of_neg (by simp [hskip]), scanBehind, hlongest]
  simp only [hdigit, if_true, hvalue]
  rfl

/-- A keyword is the next token if no longer one begins like it. -/
theorem scan_keyword_append (hskip : lex.isSkip c = false)
    (hfound : lex.trie.lookup? (c :: cs) = some .keyword)
    (hlonger : ∀ u, u ≠ [] → u <+: tail → lex.trie.lookup? (c :: cs ++ u) = none) (position : Nat) :
    lex.scan position (c :: cs ++ tail) = .token (.ofChars .keyword position (c :: cs)) tail := by
  have hlongest : lex.trie.longest? (c :: cs ++ tail) = some (.keyword, (c :: cs).length) := by
    apply Trie.longest?_eq_some
    · simp
    · simp
    · rwa [List.take_left]
    · intro j hj hle
      have htake : (c :: cs ++ tail).take j = c :: cs ++ tail.take (j - (c :: cs).length) := by
        rw [List.take_append, List.take_of_length_le (Nat.le_of_lt hj)]
      have hne : tail.take (j - (c :: cs).length) ≠ [] := by
        rw [List.length_append] at hle
        rw [ne_eq, List.take_eq_nil_iff, ← List.length_eq_zero_iff]
        omega
      rw [htake]
      exact hlonger _ hne (List.take_prefix ..)
  have hscan : lex.scan position (c :: cs ++ tail) =
      .token (.ofChars .keyword position ((c :: cs ++ tail).take (c :: cs).length))
        ((c :: cs ++ tail).drop (c :: cs).length) := scan_keyword position hskip hlongest
  rwa [List.take_left, List.drop_left] at hscan

theorem isSkip_of_isDigit (hdigit : lex.isDigit c = true) : lex.isSkip c = false := by
  rw [isDigit, decide_eq_true_eq] at hdigit
  simp [isSkip, hdigit]

/-- The digits of a number are the next token if no digit follows. -/
theorem scan_digits_append {value : Int} (hdigits : ∀ c ∈ cs, lex.isDigit c = true)
    (hlongest : ∀ c cs, lex.isDigit c = true → lex.trie.longest? (c :: cs) = none)
    (hnext : ∀ c ∈ tail.head?, lex.isDigit c = false)
    (hvalue : Text.Integer.parse? cs = some value) (position : Nat) :
    lex.scan position (cs ++ tail) = .token (.ofChars (.number value) position cs) tail := by
  have hstop : tail.takeWhile lex.isDigit = [] ∧ tail.dropWhile lex.isDigit = tail := by
    cases tail with
    | nil => exact ⟨rfl, rfl⟩
    | cons c cs => simp [hnext c rfl]
  have htake : (cs ++ tail).takeWhile lex.isDigit = cs := by
    rw [List.takeWhile_append_of_pos hdigits, hstop.1, List.append_nil]
  have hdrop : (cs ++ tail).dropWhile lex.isDigit = tail := by
    rw [List.dropWhile_append_of_pos hdigits, hstop.2]
  cases cs with
  | nil => contradiction
  | cons c cs =>
    have hc := hdigits c List.mem_cons_self
    rw [List.cons_append] at htake hdrop ⊢
    rw [scan_number position (isSkip_of_isDigit hc) hc (hlongest c _ hc) (by rwa [htake]), htake,
      hdrop]

/-! ## Pieces -/

/-- A text is spelled if it is the text of the next token. -/
theorem spells_of_scan {kind : Token.Kind} (h : ∀ position,
    lex.scan position (cs ++ tail) = .token (.ofChars kind position cs) tail) :
    lex.Spells cs [(kind, String.ofList cs)] tail := by
  intro position
  refine ⟨[.ofChars kind position cs], rfl, ?_⟩
  rw [tokensFrom_eq, h]
  rfl

/-- A character between tokens spells nothing. -/
theorem spells_skip (hskip : lex.isSkip c = true) (tail : List Char) :
    lex.Spells [c] [] tail := by
  intro position
  refine ⟨[], rfl, ?_⟩
  rw [List.singleton_append, List.length_singleton, List.nil_append, tokensFrom_eq,
    scan_skip position hskip, ← tokensFrom_eq]

/-- A keyword spells itself if no longer one begins like it. -/
theorem spells_keyword (hskip : lex.isSkip c = false)
    (hfound : lex.trie.lookup? (c :: cs) = some .keyword)
    (hlonger : ∀ u, u ≠ [] → u <+: tail → lex.trie.lookup? (c :: cs ++ u) = none) :
    lex.Spells (c :: cs) [.keyword (String.ofList (c :: cs))] tail :=
  spells_of_scan (scan_keyword_append hskip hfound hlonger)

/-- The digits of a number spell the number if no digit follows. -/
theorem spells_number (k : Nat) (hdigit : ∀ c, lex.isDigit c = c.isDigit)
    (hlongest : ∀ c cs, c.isDigit = true → lex.trie.longest? (c :: cs) = none)
    (hnext : ∀ c ∈ tail.head?, c.isDigit = false) :
    lex.Spells (toString k).toList [.number k] tail := by
  have hdigits : ∀ c ∈ (toString k).toList, lex.isDigit c = true := by
    intro c hc
    rw [hdigit]
    exact Text.Integer.isDigit_of_mem_toString hc
  have hspells := spells_of_scan (scan_digits_append hdigits (fun c cs hc => hlongest c cs (hdigit c ▸ hc))
    (fun c hc => (hdigit c).trans (hnext c hc)) (Text.Integer.parse?_toString k))
  rwa [String.ofList_toList] at hspells

/-! ## Pieces with a character between them -/

/-- A text spells some lexemes in front of some characters, and at the end of a text. -/
def SpellsBefore (lex : Lexicon) (p : Char → Prop) (text : String) (ls : List Lexeme) : Prop :=
  ∀ tail : List Char, (∀ c ∈ tail.head?, p c) → lex.Spells text.toList ls tail

/-- Texts with a character between them that spells nothing spell all their lexemes. -/
theorem SpellsBefore.intercalate {p : Char → Prop} {texts : List String}
    {lss : List (List Lexeme)} {separator : String} {blank : Char}
    (hseparator : separator.toList = [blank]) (hblank : p blank) (hskip : lex.isSkip blank = true)
    (h : List.Forall₂ (lex.SpellsBefore p) texts lss) :
    lex.SpellsBefore p (separator.intercalate texts) lss.flatten := by
  induction h with
  | nil => exact fun tail _ => Spells.nil lex tail
  | @cons text ls texts lss htext hrest ih =>
    cases hrest with
    | nil =>
      rw [String.intercalate_singleton, List.flatten_singleton]
      exact htext
    | @cons other ls' texts lss hother hrest =>
      intro tail htail
      have hnext : ∀ c ∈ ([blank] ++ (separator.intercalate (other :: texts)).toList ++
          tail).head?, p c := by
        intro c hc
        obtain rfl := Option.some.inj hc
        exact hblank
      rw [String.intercalate_cons_cons, String.toList_append, String.toList_append,
        List.append_assoc, hseparator, List.flatten_cons]
      exact (htext _ hnext).append ((spells_skip hskip _).append (ih tail htail))

end Lexicon

end CubeLang
