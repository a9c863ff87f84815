import CubeLang.Proofs.Grammar.MoveSpelling
import CubeLang.Proofs.Grammar.Opening
import CubeLang.Proofs.Grammar.TextReading
import CubeLang.Proofs.Script.Flattening

/-!
# Reading moves

A token of a move is read as the move, and with the mark of an inversion behind it as the opposite
move. So the texts of moves with blanks between them are read as a script that makes these moves.
-/

set_option autoImplicit false

namespace CubeLang

open Notation

/-! ## Scripts that make moves -/

namespace Script

/-- A script that makes a move: the move itself or the inversion of the opposite one. -/
inductive Makes (m : Move) : Script → Prop
  | move (span : Span) : Makes m (.move span m)
  | inversion (span span' : Span) : Makes m (.inversion span (.move span' m.inverse))

theorem Makes.records {m : Move} {s : Script} (hs : s.Makes m) :
    ∃ span, Records (s.walk record false false) [(span, m)] := by
  cases hs with
  | move span =>
    refine ⟨span, ?_⟩
    rw [walk_move rfl]
    exact .turn span m
  | inversion _ span =>
    have hseen : m.inverse.seen? false true = some m := congrArg some m.inverse_inverse
    refine ⟨span, ?_⟩
    unfold walk
    rw [Bool.not_false, walk_move hseen]
    exact .turn span m

/-- A sequence of scripts that make moves makes all the moves. -/
theorem resolvedMoves_of_makes (span : Span) {moves : List Move} {scripts : List Script}
    (hscripts : List.Forall₂ Makes moves scripts) : ∃ listed,
      (sequence span scripts).resolvedMoves false = .ok listed ∧ listed.map Prod.snd = moves := by
  obtain ⟨listed, hrecords, hmoves⟩ : ∃ listed,
      Records (walkAll record false false scripts) listed ∧ listed.map Prod.snd = moves := by
    induction hscripts with
    | nil =>
      unfold walkAll
      exact ⟨[], .skip, rfl⟩
    | cons hfirst _ ih =>
      obtain ⟨span, hrecords⟩ := hfirst.records
      obtain ⟨listed, hrest, rfl⟩ := ih
      unfold walkAll
      exact ⟨_, hrecords.andThen hrest, rfl⟩
  have hwalk : (sequence span scripts).walk record false false =
      walkAll record false false scripts := by
    rw [walk]
  exact ⟨listed, Records.resolvedMoves (hwalk ▸ hrecords), hmoves⟩

end Script

namespace Reading

variable {r : Reading} {t : Token} {ts : List Token} {memory : Memory}
variable {n : Nat} {h : 2 ≤ n} {f : Fixity} {token : String} {m : Move}

/-- Whether a token names a move. -/
def NamesMove (n : Nat) (t : Token) : Prop := ∃ e ∈ defaultMoves n, t.lexeme = .keyword e.1

section Signed

variable (hr : r.grammar = Grammar.signed n h f)
include hr

/-! ## Tokens -/

/-- A token that names a move is nothing else. -/
theorem isA_of_namesMove {s : Symbol} (ht : NamesMove n t) (hs : s ≠ .move) :
    r.grammar.isA s t = false := by
  obtain ⟨e, he, ht⟩ := ht
  have hr' : r.grammar = Grammar.builtIn n h f ∅ := hr
  have hsigned : ∀ b ∈ defaultTokens, ¬Capital b.2 := by decide
  rw [Bool.eq_false_iff, ne_eq, isA_iff hr' hs]
  rintro ⟨-, hmem⟩
  rw [(Prod.mk.inj ht).2] at hmem
  exact hsigned _ (List.mem_filter.mp hmem).1 (capital_of_mem_defaultMoves he)

theorem readAffix?_of_namesMove {place : Fixity} (inner : Inner (t :: ts).length)
    (ht : NamesMove n t) : r.readAffix? place (t :: ts) inner memory = .ok none memory := by
  have hkind : t.kind = .keyword := by
    obtain ⟨e, -, ht⟩ := ht
    exact (Prod.mk.inj ht).1
  have hopening : ∀ k : BinaryKind, r.grammar.isA k.opening t = false := by
    intro k
    apply isA_of_namesMove hr ht
    cases k <;> decide
  exact readAffix?_eq_none hkind hopening (isA_of_namesMove hr ht (by decide))
    (isA_of_namesMove hr ht (by decide)) (isA_of_namesMove hr ht (by decide))

theorem readStatement_move (hmem : (token, m) ∈ defaultMoves n) (ht : t.lexeme = .keyword token)
    (ts : List Token) (memory : Memory) (inner : Inner (t :: ts).length) : ∃ hlt,
      r.readStatement (t :: ts) inner memory = .ok ⟨.move t.span m, ts, hlt⟩ memory := by
  obtain ⟨hkind, htext⟩ := Prod.mk.inj ht
  have hkeyword : t.isKeyword = true := decide_eq_true hkind
  have hmove : r.grammar.isA .move t = true := by
    have hsymbols := move_mem_symbolsFor_signed (f := f) h hmem
    rw [Grammar.isA, List.contains_iff_mem, Grammar.symbols, if_pos hkeyword, hr, htext]
    exact hsymbols
  have hname : r.grammar.terms.move? t.text = some m := by
    rw [hr, htext]
    exact (move?_signed h token).trans (move?_of_mem hmem)
  have hstart : r.statementStart? t = some (.move m) := by
    simp [statementStart?, hkeyword, hmove, hname]
  refine ⟨Nat.lt_succ_self _, ?_⟩
  rw [readStatement_cons, hstart]
  rfl

/-- The mark of an inversion is an affix behind a statement. -/
theorem readAffix?_of_inversionMark (ht : t.lexeme = .keyword "'") (ts : List Token)
    (memory : Memory) (inner : Inner (t :: ts).length) : ∃ hlt,
      r.readAffix? .suffixed (t :: ts) inner memory =
        .ok (some ⟨⟨.inversion, t.span⟩, ts, hlt⟩) memory := by
  have hr' : r.grammar = Grammar.builtIn n h f ∅ := hr
  obtain ⟨hkind, htext⟩ := Prod.mk.inj ht
  have hopening : ∀ k : BinaryKind, r.grammar.isA k.opening t = false := by
    intro k
    have hother : ∀ b ∈ defaultTokens, b.2 = "'" → b.1 = .inversionOperator := by decide
    have hne : k.opening ≠ .inversionOperator ∧ k.opening ≠ .move := by cases k <;> decide
    rw [Bool.eq_false_iff, ne_eq, isA_iff hr' hne.2, htext]
    rintro ⟨-, hmem⟩
    exact hne.1 (hother _ (List.mem_filter.mp hmem).1 rfl)
  have hinversion : r.grammar.isA .inversionOperator t = true := by
    rw [isA_iff hr' (by decide), htext]
    exact ⟨hkind, by cases f <;> decide⟩
  have hfixity : r.grammar.fixity .inversion = .suffixed := fixity_eq hr' (by decide)
  refine ⟨by simp, ?_⟩
  unfold readAffix?
  simp [hkind, hopening, hinversion, hfixity]
  rfl

/-! ## Moves -/

/-- The tokens of a move are read as a script that makes it, if no affix stands behind them. -/
theorem readExpression_of_lexemes {first behind : List Token} {ls : List Lexeme}
    (hls : m.Lexemes n ls) (hfirst : first.map Token.lexeme = ls)
    (hbehind : ∀ inner, r.readAffix? .suffixed behind inner memory = .ok none memory) :
    ∃ t ts hlt script, first ++ behind = t :: ts ∧ NamesMove n t ∧
      r.readExpression (t :: ts) memory = .ok ⟨script, behind, hlt⟩ memory ∧ script.Makes m := by
  have hr' : r.grammar = Grammar.builtIn n h f ∅ := hr
  cases hls with
  | token hmem =>
    obtain ⟨t, rfl, ht⟩ := List.map_eq_singleton_iff.mp hfirst
    have hnames : NamesMove n t := ⟨_, hmem, ht⟩
    obtain ⟨hlt, hstatement⟩ := readStatement_move hr hmem ht behind memory
      fun ts' _ => r.readExpression ts'
    exact ⟨t, behind, hlt, _, rfl, hnames, readExpression_of_readStatement
      (fun inner => readAffix?_of_namesMove hr inner hnames) hstatement hbehind
      (infixOf?_of_builtIn hr' _), .move _⟩
  | inverse hmem =>
    obtain ⟨t, marks, rfl, ht, hmarks⟩ := List.map_eq_cons_iff.mp hfirst
    obtain ⟨mark, rfl, hmark⟩ := List.map_eq_singleton_iff.mp hmarks
    have hnames : NamesMove n t := ⟨_, hmem, ht⟩
    obtain ⟨hlt, hstatement⟩ := readStatement_move hr hmem ht (mark :: behind) memory
      fun ts' _ => r.readExpression ts'
    have hsuffixes : ∃ hlt, ∀ (inner : Inner (t :: mark :: behind).length)
        (hbound : (mark :: behind).length ≤ (t :: mark :: behind).length),
        r.readSuffixes inner (.move t.span m.inverse) (mark :: behind) hbound memory =
          .ok ⟨.inversion (mark.span.join t.span) (.move t.span m.inverse), behind, hlt⟩ memory := by
      refine ⟨Nat.lt_add_of_pos_right Nat.two_pos, fun inner hbound => ?_⟩
      have hshort : behind.length ≤ (t :: mark :: behind).length := Nat.le_add_right _ 2
      obtain ⟨_, hmark⟩ := readAffix?_of_inversionMark hr hmark behind memory
        (inner.restrict hbound)
      obtain ⟨_, hread⟩ := readSuffixes_of_some hmark
        (readSuffixes_of_none _ (hbehind (inner.restrict hshort)))
      exact hread
    obtain ⟨_, hsuffixes⟩ := hsuffixes
    obtain ⟨_, hread⟩ := readExpression_of_readSuffixes
      (fun inner => readAffix?_of_namesMove hr inner hnames) hstatement hsuffixes
      (infixOf?_of_builtIn hr' _)
    exact ⟨t, _, _, _, rfl, hnames, hread, .inversion _ _⟩

/-- The tokens of moves side by side are read as scripts that make them. -/
theorem readAll_moves {moves : List Move} {lss : List (List Lexeme)}
    (hlss : List.Forall₂ (Move.Lexemes n) moves lss) (hts : ts.map Token.lexeme = lss.flatten)
    (memory : Memory) :
    ∃ scripts, r.readAll ts memory = .ok scripts memory ∧
      List.Forall₂ Script.Makes moves scripts ∧ ∀ t ∈ ts.head?, NamesMove n t := by
  induction hlss generalizing ts with
  | nil =>
    obtain rfl := List.map_eq_nil_iff.mp hts
    exact ⟨[], readAll_nil, .nil, by simp⟩
  | cons hls _ ih =>
    obtain ⟨first, behind, rfl, hfirst, hbehind⟩ := List.map_eq_append_iff.mp hts
    obtain ⟨scripts, hscripts, hmakes, hhead⟩ := ih hbehind
    have hsuffix : ∀ inner, r.readAffix? .suffixed behind inner memory = .ok none memory := by
      intro inner
      cases behind with
      | nil => rfl
      | cons t behind => exact readAffix?_of_namesMove hr inner (hhead t rfl)
    obtain ⟨t, ts, hlt, script, hcons, hnames, hread, hscript⟩ :=
      readExpression_of_lexemes hr hls hfirst hsuffix
    rw [hcons]
    refine ⟨script :: scripts, readAll_of_readExpression hread hscripts, .cons hscript hmakes, ?_⟩
    intro t' ht'
    obtain rfl := Option.some.inj ht'
    exact hnames

end Signed

end Reading

end CubeLang
