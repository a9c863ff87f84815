import CubeLang.Proofs.Grammar.StatementReading
import CubeLang.Proofs.Grammar.TextReading

/-!
# Reading states

The text of a state is read as the cycles that were written for it, one after the other.
-/

set_option autoImplicit false

namespace CubeLang

/-- A script that carries out a cycle of parts. -/
def Script.Performs (s : Script) (p : PartCycle) : Prop := ∃ span, s = .permutation span p

namespace Reading

variable {r : Reading} {ts rest : List Token} {t : Token} {memory : Memory}

section Signed

variable {f : Fixity} {n : Nat} {h : 2 ≤ n} (hr : r.grammar = Grammar.signed n h f)
include hr

/-- A cycle of parts among others is read as an expression. -/
theorem readExpression_of_statement {p : PartCycle} (ht : Starts f t)
    (hrest : ∀ t ∈ rest.head?, Starts f t)
    (hread : ∀ inner : Inner (t :: ts).length, ∃ hlt span,
      r.readStatement (t :: ts) inner memory = .ok ⟨.permutation span p, rest, hlt⟩ memory) :
    ∃ hlt span,
      r.readExpression (t :: ts) memory = .ok ⟨.permutation span p, rest, hlt⟩ memory := by
  obtain ⟨hlt, span, hstatement⟩ := hread fun ts' _ => r.readExpression ts'
  have hsuffix : ∀ inner, r.readAffix? .suffixed rest inner memory = .ok none memory := by
    intro inner
    cases rest with
    | nil => rfl
    | cons t rest => exact readAffix?_of_starts hr inner (hrest t rfl)
  have hr' : r.grammar = Grammar.builtIn n h f ∅ := hr
  exact ⟨hlt, span, readExpression_of_readStatement (fun inner => readAffix?_of_starts hr inner ht)
    hstatement hsuffix (infixOf?_of_builtIn hr' _)⟩

/-- Of cycles side by side the first one is read as an expression. -/
theorem readExpression_first (hf : f.HasPlace) (hn : n ≤ 7) {first behind : List Token}
    {e : PartKind × PartCycle} {es : List (PartKind × PartCycle)} (he : e.2.Plain n e.1)
    (hreadable : ∀ i ∈ e.2.items, Readable n f e.1 i)
    (hfirst : first.map Token.lexeme = e.2.lexemes n f e.1)
    (hbehind : behind.map Token.lexeme = es.flatMap fun e => e.2.lexemes n f e.1) :
    ∃ t ts hlt span, first ++ behind = t :: ts ∧
      r.readExpression (t :: ts) memory = .ok ⟨.permutation span e.2, behind, hlt⟩ memory := by
  -- Behind a cycle the text ends or the next cycle begins, and with it no affix of this one.
  have hrest : ∀ t ∈ behind.head?, Starts f t := by
    intro t ht
    cases es with
    | nil =>
      obtain rfl := List.map_eq_nil_iff.mp hbehind
      contradiction
    | cons e' es =>
      obtain ⟨next, behind, rfl, hnext, -⟩ := List.map_eq_append_iff.mp hbehind
      obtain ⟨t', next, rfl, hstarts⟩ := starts_head hnext
      obtain rfl := Option.some.inj ht
      exact hstarts
  have hsign : f = .suffixed → r.signOf? (r.peek behind) = none := by
    rintro rfl
    cases behind with
    | nil => rfl
    | cons t behind => exact signOf?_of_starts hr (by decide) (hrest t rfl)
  have hread : ∀ inner : Inner (first ++ behind).length, ∃ hlt span,
      r.readStatement (first ++ behind) inner memory =
        .ok ⟨.permutation span e.2, behind, hlt⟩ memory := by
    intro inner
    exact readStatement_cycle hr hf hn he hreadable hfirst hsign inner
  obtain ⟨t, first, rfl, hstarts⟩ := starts_head hfirst
  obtain ⟨hlt, span, hexpression⟩ := readExpression_of_statement hr hstarts hrest hread
  exact ⟨t, first ++ behind, hlt, span, rfl, hexpression⟩

/-- The tokens of cycles side by side are read as scripts that carry them out. -/
theorem readAll_cycles (hf : f.HasPlace) (hn : n ≤ 7) {es : List (PartKind × PartCycle)}
    (hes : ∀ e ∈ es, e.2.Plain n e.1) (hreadable : ∀ e ∈ es, ∀ i ∈ e.2.items, Readable n f e.1 i)
    (hts : ts.map Token.lexeme = es.flatMap fun e => e.2.lexemes n f e.1) :
    ∃ scripts, r.readAll ts memory = .ok scripts memory ∧
      List.Forall₂ Script.Performs scripts (es.map Prod.snd) := by
  induction es generalizing ts with
  | nil =>
    obtain rfl := List.map_eq_nil_iff.mp hts
    exact ⟨[], readAll_nil, .nil⟩
  | cons e es ih =>
    obtain ⟨first, behind, rfl, hfirst, hbehind⟩ := List.map_eq_append_iff.mp hts
    obtain ⟨scripts, hscripts, hperforms⟩ :=
      ih (fun e he => hes e (List.mem_cons_of_mem _ he))
        (fun e he => hreadable e (List.mem_cons_of_mem _ he)) hbehind
    obtain ⟨t, ts, hlt, span, hcons, hexpression⟩ :=
      @readExpression_first r memory f n h hr hf hn first behind e es (hes e List.mem_cons_self)
        (hreadable e List.mem_cons_self) hfirst hbehind
    refine ⟨.permutation span e.2 :: scripts, ?_, .cons ⟨span, rfl⟩ hperforms⟩
    rw [hcons]
    exact readAll_of_readExpression hexpression hscripts

theorem readAll_empty (hts : ts.map Token.lexeme = [.keyword "(", .keyword ")"]) :
    ∃ script, r.readAll ts memory = .ok [script] memory ∧ script.Performs {} := by
  have hread : ∀ inner : Inner (ts ++ []).length, ∃ hlt span,
      r.readStatement (ts ++ []) inner memory = .ok ⟨.permutation span {}, [], hlt⟩ memory :=
    fun inner => readStatement_empty hr hts (fun _ => rfl) inner
  obtain ⟨t, ts, rfl, ht, -⟩ := List.map_eq_cons_iff.mp hts
  rw [List.append_nil] at hread
  have hstarts : Starts f t := ⟨"(", by cases f <;> decide, ht⟩
  have hnone : ∀ t ∈ ([] : List Token).head?, Starts f t := by
    intro t ht
    contradiction
  obtain ⟨hlt, span, hexpression⟩ := readExpression_of_statement hr hstarts hnone hread
  exact ⟨_, readAll_of_readExpression hexpression readAll_nil, span, rfl⟩

end Signed

end Reading

variable {n : Nat} {f : Fixity} {c : Cube} {memory : Memory}

/-- The tokens of the text of a state are read as scripts that carry out cycles of parts, and these
make the state out of the solved cube. -/
theorem Cube.Valid.readAll_lexemes {r : Reading} {h : 2 ≤ n}
    (hr : r.grammar = Grammar.signed n h f) (hn : n ≤ 7) (hf : f.HasPlace) (hc : c.Valid n)
    (hreadable : ∀ e ∈ c.written, ∀ i ∈ e.2.items, Reading.Readable n f e.1 i)
    {ts : List Token} (hts : ts.map Token.lexeme = c.lexemes n f) :
    ∃ scripts cycles, r.readAll ts memory = .ok scripts memory ∧
      List.Forall₂ Script.Performs scripts cycles ∧ (Cube.solved n).actAll? cycles = some c := by
  have hall := hc.actAll?_written_eq
  have hplain : ∀ e ∈ c.written, e.2.Plain n e.1 := fun e he => hc.plain_of_mem_written he
  unfold Cube.lexemes at hts
  cases hwritten : c.written with
  | nil =>
    rw [hwritten] at hts hall
    obtain ⟨script, hread, hperforms⟩ := @Reading.readAll_empty r ts memory f n h hr hts
    refine ⟨[script], [{}], hread, .cons hperforms .nil, ?_⟩
    -- Without a cycle to write the state is the solved one.
    rw [← hall]
    rfl
  | cons e es =>
    rw [hwritten] at hts hall hplain hreadable
    obtain ⟨scripts, hread, hperforms⟩ :=
      @Reading.readAll_cycles r ts memory f n h hr hf hn _ hplain hreadable hts
    exact ⟨scripts, _, hread, hperforms, hall⟩

/-- The text of a state whose parts can be read is parsed as a sequence of such scripts. -/
theorem Cube.Valid.parse_readable (h : 2 ≤ n) (hn : n ≤ 7) (hf : f.HasPlace) (hc : c.Valid n)
    (hreadable : ∀ e ∈ c.written, ∀ i ∈ e.2.items, Reading.Readable n f e.1 i) :
    ∃ span scripts cycles,
      (Grammar.signed n h f).parse (c.text { fixity := f }) memory =
        .ok (.sequence span scripts) memory ∧
      List.Forall₂ Script.Performs scripts cycles ∧ (Cube.solved n).actAll? cycles = some c := by
  have hlexemes := (@Cube.Valid.spells_text n h f c hc hf).tokens_eq
  obtain ⟨scripts, cycles, hscripts, hperforms, hall⟩ :=
    @Cube.Valid.readAll_lexemes n f c memory
      ((Grammar.signed n h f).reading [] (c.text { fixity := f }).toList.length) h rfl hn hf hc
      hreadable _ hlexemes
  exact ⟨_, scripts, cycles, Grammar.parse_of_readAll hscripts, hperforms, hall⟩

/-- Where signs stand in front of the parts or inside the brackets, every state can be read. -/
theorem Cube.Valid.parse_text (h : 2 ≤ n) (hn : n ≤ 7) (hf : f.Leads) (hc : c.Valid n) :
    ∃ span scripts cycles,
      (Grammar.signed n h f).parse (c.text { fixity := f }) memory =
        .ok (.sequence span scripts) memory ∧
      List.Forall₂ Script.Performs scripts cycles ∧ (Cube.solved n).actAll? cycles = some c :=
  hc.parse_readable h hn (Or.inl hf) fun _ _ _ _ hsuffixed => absurd hsuffixed hf.ne_suffixed

end CubeLang
