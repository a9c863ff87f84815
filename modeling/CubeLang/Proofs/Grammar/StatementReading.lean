import CubeLang.Proofs.Grammar.CycleReading
import CubeLang.Proofs.Grammar.Opening

/-!
# Reading cycles as statements

The tokens of a cycle of parts are read as a statement that is the cycle. No token with which a
cycle begins stands for an affix, so that cycles side by side are statements of their own.
-/

set_option autoImplicit false

namespace CubeLang

/-- The tokens with which the text of a cycle may begin. -/
def Fixity.starters (f : Fixity) : List String :=
  if f = .prefixed then ["(", "+", "-", "++"] else ["("]

namespace PartCycle

open Reading

/-- The lexemes of a cycle begin with one of these tokens. -/
theorem head_lexemes (n : Nat) (f : Fixity) (kind : PartKind) (p : PartCycle) :
    ∃ text ∈ f.starters, (p.lexemes n f kind).head? = some (.keyword text) := by
  unfold lexemes
  cases hmark : p.markAt .prefixed f kind with
  | none =>
    refine ⟨"(", ?_, rfl⟩
    cases f <;> decide
  | some s =>
    have hf : f = .prefixed := by
      by_contra hne
      rw [markAt, if_neg hne] at hmark
      contradiction
    obtain ⟨text, htext, htoken⟩ := markLexemes_of_mem (mem_signs_of_markAt s hmark)
    have hstarter : ∀ b ∈ cycleTokens, b.1 ∈ Symbol.signs → b.2 ∈ Fixity.starters .prefixed := by
      decide
    refine ⟨text, ?_, by rw [htext]; rfl⟩
    rw [hf]
    exact hstarter _ htoken (mem_signs_of_markAt s hmark)

end PartCycle

namespace Reading

variable {r : Reading} {ts ts' rest : List Token} {t : Token} {s : Symbol}
variable {f : Fixity} {n : Nat} {kind : PartKind} {memory : Memory}

/-- Whether a token is one with which the text of a cycle may begin. -/
def Starts (f : Fixity) (t : Token) : Prop := ∃ text ∈ f.starters, t.lexeme = .keyword text

theorem starts_head {p : PartCycle} (hts : ts.map Token.lexeme = p.lexemes n f kind) :
    ∃ t ts', ts = t :: ts' ∧ Starts f t := by
  obtain ⟨text, htext, hhead⟩ := p.head_lexemes n f kind
  rw [← hts, List.head?_map, Option.map_eq_some_iff] at hhead
  obtain ⟨t, ht, hlexeme⟩ := hhead
  obtain ⟨ts', rfl⟩ := List.head?_eq_some_iff.mp ht
  exact ⟨t, ts', rfl, text, htext, hlexeme⟩

section Signed

variable {h : 2 ≤ n} (hr : r.grammar = Grammar.signed n h f)
include hr

/-- A token with which a cycle begins stands for a sign or an opening bracket and nothing else. -/
theorem isA_of_starts (ht : Starts f t)
    (hs : s ∉ Symbol.signs ++ [.permutationBegin, .groupingBegin]) :
    r.grammar.isA s t = false := by
  obtain ⟨text, htext, ht⟩ := ht
  have hcapital : ∀ f : Fixity, ∀ text ∈ f.starters, ¬Notation.Capital text := by
    intro f
    cases f <;> decide
  have hsymbols : ∀ f : Fixity, ∀ text ∈ f.starters,
      ∀ s ∈ ((Notation.signedTokens f).filter fun b => b.2 = text).map Prod.fst,
        s ∈ Symbol.signs ++ [.permutationBegin, .groupingBegin] := by
    intro f
    cases f <;> decide
  rw [Grammar.isA, symbols_of_lexeme hr ht (hcapital f text htext)]
  rw [Bool.eq_false_iff, ne_eq, List.contains_iff_mem]
  exact fun hmem => hs (hsymbols f text htext s hmem)

theorem readAffix?_of_starts {place : Fixity} (inner : Inner (t :: ts).length) (ht : Starts f t) :
    r.readAffix? place (t :: ts) inner memory = .ok none memory := by
  have hkind : t.kind = .keyword := by
    obtain ⟨text, -, ht⟩ := ht
    exact (Prod.mk.inj ht).1
  have hopening : ∀ k : BinaryKind, r.grammar.isA k.opening t = false := by
    intro k
    apply isA_of_starts hr ht
    cases k <;> decide
  have hinversion : r.grammar.isA .inversionOperator t = false := isA_of_starts hr ht (by decide)
  have hrepetition : r.grammar.isA .repetitionBegin t = false := isA_of_starts hr ht (by decide)
  have hreflection : r.grammar.isA .reflectionOperator t = false := isA_of_starts hr ht (by decide)
  exact readAffix?_eq_none hkind hopening hinversion hrepetition hreflection

/-- Where signs stand behind the brackets, no cycle begins with one. -/
theorem signOf?_of_starts (hf : f ≠ .prefixed) (ht : Starts f t) : r.signOf? t = none := by
  obtain ⟨text, htext, ht⟩ := ht
  rw [Fixity.starters, if_neg hf, List.mem_singleton] at htext
  subst htext
  exact (means_of_lexeme (s := .permutationBegin) hr ht (by decide)).signOf?_eq

/-! ## Statements -/

theorem readStatement_of_opening {script : Script} (ht : t.lexeme = .keyword "(")
    (hnext : ((r.grammar.symbols (r.peek ts)).any fun s => s.isPartOf .permutation) = true)
    (hread : r.ReadsPermutation t.start none ts script rest)
    (inner : Inner (t :: ts).length) :
    ∃ hlt, r.readStatement (t :: ts) inner memory = .ok ⟨script, rest, hlt⟩ memory := by
  have hr' : r.grammar = Grammar.builtIn n h f ∅ := hr
  obtain ⟨hkind, htext⟩ := Prod.mk.inj ht
  obtain ⟨hlt, hread⟩ := gives_readPermutation_iff.mpr hread
  refine ⟨Nat.lt_succ_of_lt hlt, ?_⟩
  rw [readStatement_of_bracket hr' hkind htext (by rintro name ⟨⟩), if_pos hnext]
  exact bind_of_ok (lift_of_ok hread)

theorem readStatement_of_sign {m : Token} {script : Script} (hf : f = .prefixed)
    (hstarts : Starts f m) (hm : r.Means m s) (hs : s ∈ Symbol.signs) (ht : t.lexeme = .keyword "(")
    (hread : r.ReadsPermutation m.start (some m) ts script rest)
    (inner : Inner (m :: t :: ts).length) :
    ∃ hlt, r.readStatement (m :: t :: ts) inner memory = .ok ⟨script, rest, hlt⟩ memory := by
  have hkeyword := hm.isKeyword_eq
  have hmove : r.grammar.isA .move m = false := isA_of_starts hr hstarts (by decide)
  have hnop : r.grammar.isA .nop m = false := isA_of_starts hr hstarts (by decide)
  have hmacro : r.grammar.macros.contains m.text = false := by
    rw [hr]
    rfl
  have hsign := hm.signOf?_of_mem hs
  have hfixity : r.grammar.fixity .permutation = .prefixed := (fixity_permutation hr).trans hf
  have hmeans : r.Means t .permutationBegin := means_of_lexeme hr ht (by decide)
  have hbegin : r.grammar.isA .permutationBegin t = true := hmeans.isA_eq rfl
  obtain ⟨hlt, hread⟩ := gives_readPermutation_iff.mpr hread
  have hstart : r.statementStart? m = some .sign := by
    simp [statementStart?, hkeyword, hmove, hnop, hmacro, hsign, hfixity]
  refine ⟨Nat.lt_succ_of_lt (Nat.lt_succ_of_lt hlt), ?_⟩
  rw [readStatement_cons, hstart]
  dsimp only
  rw [if_neg (by simp [hbegin])]
  exact bind_of_ok (lift_of_ok hread)

/-- The tokens of a cycle are read as a statement that is the cycle. -/
theorem readStatement_cycle (hf : f.HasPlace) (hn : n ≤ 7) {p : PartCycle} (hp : p.Plain n kind)
    (hreadable : ∀ i ∈ p.items, Readable n f kind i)
    (hts : ts.map Token.lexeme = p.lexemes n f kind)
    (hrest : f = .suffixed → r.signOf? (r.peek rest) = none) (inner : Inner (ts ++ rest).length) :
    ∃ hlt span, r.readStatement (ts ++ rest) inner memory =
      .ok ⟨.permutation span p, rest, hlt⟩ memory := by
  obtain ⟨first, others, hfirst, hstarts⟩ := starts_head hts
  obtain ⟨marks, behind, rfl, hmarks, hbehind⟩ := List.map_eq_append_iff.mp hts
  obtain ⟨t, ts, rfl, ht, hinner⟩ := List.map_eq_cons_iff.mp hbehind
  have hnext : ((r.grammar.symbols (r.peek (ts ++ rest))).any fun s => s.isPartOf .permutation) =
      true := by
    obtain ⟨s, hmeans⟩ := @means_inner r ts rest f n kind h hr p hp hinner
    exact hmeans.any_isPartOf
  cases hmark : p.markAt .prefixed f kind with
  | none =>
    rw [hmark] at hmarks
    obtain rfl := List.map_eq_nil_iff.mp hmarks
    have hleading : (none : Option Token).map r.signOf? = (p.markAt .prefixed f kind).map some := by
      rw [hmark]
      rfl
    obtain ⟨span, hread⟩ := @readsPermutation_cycle r ts rest f n kind h hr hf hn p hp hreadable
      t.start none hleading hinner hrest
    obtain ⟨hlt', hstatement⟩ := readStatement_of_opening hr ht hnext hread inner
    exact ⟨hlt', span, hstatement⟩
  | some s =>
    have hprefixed : f = .prefixed := by
      by_contra hne
      rw [PartCycle.markAt, if_neg hne] at hmark
      contradiction
    have hs := PartCycle.mem_signs_of_markAt s hmark
    rw [hmark] at hmarks
    obtain ⟨m, rfl, hmeans⟩ := means_mark hr hs hmarks
    obtain rfl : m = first := (List.cons.inj hfirst).1
    have hleading : (some m).map r.signOf? = (p.markAt .prefixed f kind).map some := by
      rw [hmark, Option.map_some, hmeans.signOf?_of_mem hs]
      rfl
    obtain ⟨span, hread⟩ := @readsPermutation_cycle r ts rest f n kind h hr hf hn p hp hreadable
      m.start (some m) hleading hinner hrest
    obtain ⟨hlt', hstatement⟩ := readStatement_of_sign hr hprefixed hstarts hmeans hs ht hread inner
    exact ⟨hlt', span, hstatement⟩

/-- An empty pair of brackets is read as the cycle without parts. -/
theorem readStatement_empty (hts : ts.map Token.lexeme = [.keyword "(", .keyword ")"])
    (hrest : f = .suffixed → r.signOf? (r.peek rest) = none) (inner : Inner (ts ++ rest).length) :
    ∃ hlt span, r.readStatement (ts ++ rest) inner memory =
      .ok ⟨.permutation span {}, rest, hlt⟩ memory := by
  obtain ⟨t, ts, rfl, ht, hts⟩ := List.map_eq_cons_iff.mp hts
  obtain ⟨t', rfl, ht'⟩ := List.map_eq_singleton_iff.mp hts
  have hclosing : r.Means t' .permutationEnd := means_of_lexeme hr ht' (by decide)
  have hunsigned : ∀ place, ({} : PartCycle).markAt place f .corner = none := by
    intro place
    rw [PartCycle.markAt]
    split <;> rfl
  have hnone : ∀ place, ([] : List Token).map Token.lexeme =
      PartCycle.markLexemes (({} : PartCycle).markAt place f .corner) := by
    intro place
    rw [hunsigned]
    rfl
  obtain ⟨opened, hopened, -⟩ := @takeSignIf_markAt r [] (t' :: rest) f n .corner h hr {}
    .precircumfixed (hnone _) fun _ => hclosing.signOf?_eq
  obtain ⟨trailing, htrailing, -⟩ := @takeSignIf_markAt r [] rest f n .corner h hr {} .suffixed
    (hnone _) hrest
  have hparts : r.ReadsParts {} (t' :: rest) ⟨{}, none, t'.stop⟩ rest := .closed (hclosing.isA_eq rfl)
  have hscript : r.withSign ⟨t.start, t'.stop⟩ {} (trailing.or (none.or (opened.or none))) =
      .ok (.permutation ⟨t.start, t'.stop⟩ {}) := by
    cases trailing.or (none.or (opened.or none)) <;> rfl
  have hread := ReadsPermutation.intro hopened hparts htrailing hscript
  have hnext : ((r.grammar.symbols (r.peek (t' :: rest))).any fun s => s.isPartOf .permutation) =
      true := hclosing.any_isPartOf
  obtain ⟨hlt'', hstatement⟩ := readStatement_of_opening hr ht hnext hread inner
  exact ⟨hlt'', _, hstatement⟩

end Signed

end Reading

end CubeLang
