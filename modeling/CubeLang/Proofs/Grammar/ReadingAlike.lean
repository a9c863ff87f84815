import CubeLang.Proofs.Grammar.Lockstep

/-!
# Grammars that read alike
-/

set_option autoImplicit false

namespace CubeLang

/-- A grammar reads like another one if both take texts apart into the same tokens and say the same
of a token, except for whether it stands for macros: nobody asks for that. The brackets of a repeat
count are asked for what else they stand for. -/
structure Grammar.ReadsLike (g' g : Grammar) : Prop where
  tokens : ∀ text, g'.lexicon.tokens text = g.lexicon.tokens text
  macros : g'.macros = g.macros
  symbols : ∀ t, (g'.symbols t).filter (· ≠ .macroName) = (g.symbols t).filter (· ≠ .macroName)
  isOnly_begin : ∀ t, g'.isOnly .repetitionBegin t = g.isOnly .repetitionBegin t
  isOnly_end : ∀ t, g'.isOnly .repetitionEnd t = g.isOnly .repetitionEnd t
  move? : ∀ token, g'.terms.move? token = g.terms.move? token
  fixity : ∀ s, g'.fixity s = g.fixity s
  supports : g'.terms.supports .permutation = g.terms.supports .permutation
  layerCount : g'.terms.layerCount = g.terms.layerCount

namespace Grammar.ReadsLike

variable {g g' : Grammar}

theorem isA (h : g'.ReadsLike g) {s : Symbol} (hs : s ≠ .macroName) (t : Token) :
    g'.isA s t = g.isA s t := by
  have hmem : ∀ l : List Symbol, s ∈ l ↔ s ∈ l.filter (· ≠ .macroName) := by
    intro l
    simp [hs]
  unfold Grammar.isA
  rw [Bool.eq_iff_iff, List.contains_iff_mem, List.contains_iff_mem, hmem, h.symbols, ← hmem]

/-- What is looked for among the symbols of a token is found alike. -/
theorem find?_symbols (h : g'.ReadsLike g) {p : Symbol → Bool} (hp : p .macroName = false)
    (t : Token) : (g'.symbols t).find? p = (g.symbols t).find? p := by
  have hfind : ∀ l : List Symbol, l.find? p = (l.filter (· ≠ .macroName)).find? p := by
    intro l
    rw [List.find?_filter]
    congr 1
    funext s
    by_cases hs : s = .macroName <;> simp [hs, hp]
  rw [hfind, h.symbols, ← hfind]

theorem any_symbols (h : g'.ReadsLike g) {p : Symbol → Bool} (hp : p .macroName = false)
    (t : Token) : (g'.symbols t).any p = (g.symbols t).any p := by
  rw [← List.isSome_find?, ← List.isSome_find?, h.find?_symbols hp]

end Grammar.ReadsLike

namespace Reading

/-- The reading with another grammar. -/
def under (r : Reading) (g : Grammar) : Reading := { r with grammar := g }

variable {r : Reading} {g' : Grammar}

@[simp] theorem grammar_under (r : Reading) (g : Grammar) : (r.under g).grammar = g := rfl

@[simp] theorem peek_under (r : Reading) (g : Grammar) : (r.under g).peek = r.peek := rfl

@[simp] theorem expand_under (r : Reading) (g : Grammar) : (r.under g).expand = r.expand := rfl

section

variable (h : g'.ReadsLike r.grammar)
include h

/-! ## Cycles -/

theorem signOf?_under : (r.under g').signOf? = r.signOf? :=
  funext fun t => h.find?_symbols (by decide) t

theorem faceOf?_under : (r.under g').faceOf? = r.faceOf? :=
  funext fun t => h.find?_symbols (by decide) t

theorem takeSign_under (ts : List Token) : (r.under g').takeSign ts = r.takeSign ts := by
  cases ts with
  | nil => rfl
  | cons t rest => simp only [takeSign, signOf?_under h]

theorem takeSignIf_under (wanted : Bool) (ts : List Token) :
    (r.under g').takeSignIf wanted ts = r.takeSignIf wanted ts := by
  simp only [takeSignIf, takeSign_under h]

theorem takeFaces_under (k : Nat) (ts : List Token) :
    (r.under g').takeFaces k ts = r.takeFaces k ts := by
  induction k generalizing ts with
  | zero => rw [takeFaces, takeFaces]
  | succ k ih =>
    cases ts with
    | nil => rw [takeFaces, takeFaces]
    | cons t rest => simp only [takeFaces, ih, faceOf?_under h]

omit h in
theorem takeNumber_under (ts : List Token) : (r.under g').takeNumber ts = r.takeNumber ts := rfl

theorem readPart_under (cycle : PartCycle) (ts : List Token) :
    (r.under g').readPart cycle ts = r.readPart cycle ts := by
  simp only [readPart, grammar_under, peek_under, h.fixity, h.layerCount, takeSignIf_under h,
    takeFaces_under h, takeNumber_under, signOf?_under h]

theorem readParts_under (cycle : PartCycle) (ts : List Token) :
    (r.under g').readParts cycle ts = r.readParts cycle ts := by
  cases ts with
  | nil =>
    rw [readParts, readParts]
    rfl
  | cons t rest =>
    rw [readParts, readParts, readPart_under h]
    cases r.readPart cycle (t :: rest) with
    | error e => simp only [grammar_under, h.isA (s := .permutationEnd) (by decide)]
    | ok p =>
      obtain ⟨cycle', rest', hlt⟩ := p
      dsimp only
      rw [readParts_under cycle' rest', readParts_under cycle' rest'.tail]
      simp only [grammar_under, peek_under, h.isA (s := .permutationEnd) (by decide),
        h.isA (s := .permutationDelimiter) (by decide), h.fixity, signOf?_under h]
termination_by ts.length
decreasing_by all_goals (simp only [List.length_cons, List.length_tail] at *; omega)

theorem withSign_under (span : Span) (cycle : PartCycle) (signToken : Option Token) :
    (r.under g').withSign span cycle signToken = r.withSign span cycle signToken := by
  simp only [withSign, signOf?_under h]

theorem readPermutation_under (start : Nat) (leading : Option Token) (ts : List Token) :
    (r.under g').readPermutation start leading ts = r.readPermutation start leading ts := by
  have hopened : (r.under g').takeSignIf
      ((r.under g').grammar.fixity .permutation = .precircumfixed) ts =
        r.takeSignIf (r.grammar.fixity .permutation = .precircumfixed) ts := by
    rw [takeSignIf_under h, grammar_under, h.fixity]
  unfold readPermutation
  cases hparts : r.readParts {}
      (r.takeSignIf (r.grammar.fixity .permutation = .precircumfixed) ts).2 with
  | error e =>
    have hparts' : (r.under g').readParts {} ((r.under g').takeSignIf
        ((r.under g').grammar.fixity .permutation = .precircumfixed) ts).2 = .error e := by
      rw [hopened, readParts_under h, hparts]
    simp only [hparts, hparts']
  | ok p =>
    obtain ⟨closed, rest, hlt⟩ := p
    obtain ⟨hlt', hparts'⟩ : ∃ hlt, (r.under g').readParts {} ((r.under g').takeSignIf
        ((r.under g').grammar.fixity .permutation = .precircumfixed) ts).2 =
          .ok ⟨closed, rest, hlt⟩ := by
      rw [hopened, readParts_under h]
      exact ⟨hlt, hparts⟩
    simp only [hparts, hparts', hopened]
    simp only [grammar_under, h.fixity, takeSignIf_under h, withSign_under h]

/-! ## Affixes -/

theorem readCount_under (ts : List Token) : (r.under g').readCount ts = r.readCount ts := by
  have hinside : (r.under g').countInside ts = r.countInside ts := by
    simp only [countInside, grammar_under, peek_under, h.isOnly_begin]
  have hend : ∀ number rest, (r.under g').countEnd number rest = r.countEnd number rest := by
    intro number rest
    simp only [countEnd, grammar_under, peek_under, h.isOnly_end]
  cases hnumber : r.countInside ts with
  | nil =>
    rw [readCount_of_inside_nil hnumber, readCount_of_inside_nil (hinside.trans hnumber)]
    rfl
  | cons number rest =>
    obtain ⟨_, hread⟩ := readCount_of_inside hnumber
    obtain ⟨_, hread'⟩ := readCount_of_inside (hinside.trans hnumber)
    rw [hread, hread']
    simp only [hend, peek_under]

section

variable {bound : Nat} (inner : Inner bound)

theorem readOperator_under (opening : Token) (kinds : List BinaryKind) (before : List Script)
    (ts : List Token) (hts : ts.length < bound) :
    (r.under g').readOperator inner opening kinds before ts hts =
      r.readOperator inner opening kinds before ts hts := by
  have hclosing : ∀ k : BinaryKind, g'.isA k.closing = r.grammar.isA k.closing := fun k =>
    funext fun t => h.isA (by cases k <;> decide) t
  rw [readOperator, readOperator]
  simp only [grammar_under, peek_under, hclosing]
  congr 1
  funext p
  split
  · rfl
  · split
    · rfl
    · have hshort := p.shorter
      rw [readOperator_under _ _ _ p.rest]
termination_by ts.length

theorem readAffix?_under (place : Fixity) (ts : List Token) (inner : Inner ts.length) :
    (r.under g').readAffix? place ts inner = r.readAffix? place ts inner := by
  have hopening : ∀ k : BinaryKind, g'.isA k.opening = r.grammar.isA k.opening := fun k =>
    funext fun t => h.isA (by cases k <;> decide) t
  cases ts with
  | nil => rfl
  | cons t rest =>
    simp only [readAffix?, grammar_under, h.fixity, hopening, readCount_under h,
      readOperator_under h, h.isA (s := .inversionOperator) (by decide),
      h.isA (s := .repetitionBegin) (by decide), h.isA (s := .reflectionOperator) (by decide)]

theorem readPrefixes_under (ts : List Token) (hts : ts.length ≤ bound) :
    (r.under g').readPrefixes inner ts hts = r.readPrefixes inner ts hts := by
  rw [readPrefixes, readPrefixes, readAffix?_under h]
  congr 1
  funext p
  cases p with
  | none => rfl
  | some p =>
    have hshort := p.shorter
    simp only [readPrefixes_under p.rest]
termination_by ts.length

theorem readSuffixes_under (s : Script) (ts : List Token) (hts : ts.length ≤ bound) :
    (r.under g').readSuffixes inner s ts hts = r.readSuffixes inner s ts hts := by
  rw [readSuffixes, readSuffixes, readAffix?_under h]
  congr 1
  funext p
  cases p with
  | none => rfl
  | some p =>
    have hshort := p.shorter
    simp only [readSuffixes_under _ p.rest]
termination_by ts.length

/-! ## Statements -/

theorem bracketed_under : (r.under g').bracketed = r.bracketed := by
  funext k
  unfold bracketed
  simp only [grammar_under, h.fixity]

theorem openedBy_under : (r.under g').openedBy = r.openedBy := by
  have hopening : ∀ k ∈ CompoundKind.all, k.opening ≠ .macroName := by decide
  funext t
  refine List.filter_congr fun k hk => ?_
  rw [bracketed_under h, grammar_under, h.isA (hopening k hk)]

theorem closedBy_under : (r.under g').closedBy = r.closedBy := by
  have hclosing : ∀ k ∈ CompoundKind.all, k.closing ≠ .macroName := by decide
  funext t
  refine List.filter_congr fun k hk => ?_
  rw [bracketed_under h, grammar_under, h.isA (hclosing k hk)]

theorem dividedBy_under : (r.under g').dividedBy = r.dividedBy := by
  have hdelimiter : ∀ k : BinaryKind, g'.isA k.delimiter = r.grammar.isA k.delimiter := fun k =>
    funext fun t => h.isA (by cases k <;> decide) t
  funext t
  simp only [dividedBy, bracketed_under h, grammar_under, hdelimiter]

theorem readCompound_under (start : Nat) (c : Compound) (ts : List Token)
    (hts : ts.length < bound) :
    (r.under g').readCompound inner start c ts hts = r.readCompound inner start c ts hts := by
  match ts, hts with
  | [], hts =>
    rw [readCompound, readCompound]
    rfl
  | t :: rest, hts =>
    rw [readCompound, readCompound]
    simp only [closedBy_under h, dividedBy_under h]
    split
    · rfl
    · split
      · simp only [readCompound_under _ _ rest]
      · congr 1
        funext p
        have hshort := p.shorter
        rw [readCompound_under _ _ p.rest]
termination_by ts.length
decreasing_by all_goals (simp only [List.length_cons] at *; omega)

theorem readStatement_under (ts : List Token) (inner : Inner ts.length) :
    (r.under g').readStatement ts inner = r.readStatement ts inner := by
  cases ts with
  | nil => rfl
  | cons t rest =>
    simp only [readStatement, grammar_under, peek_under, expand_under,
      h.isA (s := .move) (by decide), h.isA (s := .nop) (by decide),
      h.isA (s := .permutationBegin) (by decide), h.move?, h.macros, h.fixity, h.supports,
      h.any_symbols (p := fun s => s.isPartOf .permutation) (by decide), signOf?_under h,
      readPermutation_under h, openedBy_under h, readCompound_under h]

end

/-! ## Expressions -/

theorem readConstruct_under (ts : List Token) (inner : Inner ts.length) :
    (r.under g').readConstruct ts inner = r.readConstruct ts inner := by
  simp only [readConstruct, readPrefixes_under h, readStatement_under h, readSuffixes_under h]

theorem infixOf?_under : (r.under g').infixOf? = r.infixOf? := by
  have hdelimiter : ∀ k : BinaryKind, g'.isA k.delimiter = r.grammar.isA k.delimiter := fun k =>
    funext fun t => h.isA (by cases k <;> decide) t
  funext t
  simp only [infixOf?, grammar_under, h.fixity, hdelimiter]

theorem readExpression_under (ts : List Token) :
    (r.under g').readExpression ts = r.readExpression ts := by
  have hinner : ∀ ts' : List Token, ts'.length < ts.length →
      (r.under g').readExpression ts' = r.readExpression ts' :=
    fun ts' hlt => readExpression_under ts'
  have hinner' : (fun (ts' : List Token) (_ : ts'.length < ts.length) =>
      (r.under g').readExpression ts') = fun ts' _ => r.readExpression ts' :=
    funext fun ts' => funext fun hlt => hinner ts' hlt
  rw [readExpression, readExpression, readConstruct_under h, hinner']
  congr 1
  funext p
  obtain ⟨s, rest, hrest⟩ := p
  have htail := length_tail_le_self rest
  simp only [peek_under, hinner rest.tail (Nat.lt_of_le_of_lt htail hrest)]
  rw [infixOf?_under h]
termination_by ts.length

theorem readAll_under (ts : List Token) : (r.under g').readAll ts = r.readAll ts := by
  cases ts with
  | nil =>
    rw [readAll, readAll]
  | cons t rest =>
    rw [readAll, readAll, readExpression_under h]
    congr 1
    funext p
    obtain ⟨s, rest', hlt⟩ := p
    simp only [readAll_under rest']
termination_by ts.length
decreasing_by exact hlt

end

end Reading

/-! ## Texts -/

namespace Grammar.ReadsLike

variable {g g' : Grammar}

/-- Grammars that read alike parse alike, whatever macros may be used: a use of a macro is parsed
with less of them. -/
theorem parseWith (h : g'.ReadsLike g) (available : List String) (text : String) :
    g'.parseWith available text = g.parseWith available text := by
  have hexpand : g'.expansion available = g.expansion available := by
    funext t memory
    unfold expansion
    split
    · rename_i husable
      have hshort : (available.erase t.text).length < available.length := by
        have hpos := List.length_pos_of_mem husable.1
        rw [List.length_erase_of_mem husable.1]
        omega
      rw [h.macros, parseWith h (available.erase t.text)]
    · rfl
  have hreading : g'.reading available text.toList.length =
      (g.reading available text.toList.length).under g' := by
    unfold reading Reading.under
    rw [hexpand]
  funext memory
  rw [parseWith_eq, parseWith_eq, h.tokens, hreading, Reading.readAll_under h]
termination_by available.length

/-- **Grammars that read alike parse alike**: each text, with each memory. -/
theorem parse (h : g'.ReadsLike g) (text : String) : g'.parse text = g.parse text := by
  rw [Grammar.parse, Grammar.parse, h.macros]
  exact h.parseWith _ text

end Grammar.ReadsLike

end CubeLang
