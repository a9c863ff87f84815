import CubeLang.Proofs.Grammar.StateReading

/-!
# Numbers behind signs

Where signs stand behind, a part is written with its sign in front of its number but looked for its
number in front of its sign. A part that has both is never read: the number is missed, and nothing
begins with the number that is left. So a text with such a part is refused.
-/

set_option autoImplicit false

namespace CubeLang

namespace Reading

variable {r : Reading} {ts rest : List Token} {t : Token} {memory : Memory}
variable {n : Nat} {h : 2 ≤ n} {kind : PartKind} {cycle : PartCycle} {i : PartCycle.Item}

/-- A part that cannot be read has a face, a sign and a number. -/
theorem exists_lexemes_of_not_readable (hreadable : ¬Readable n .suffixed kind i) :
    ∃ s ∈ Symbol.signs, ∃ k : Nat, PartCycle.itemLexemes n .suffixed kind i =
      PartCycle.faceLexeme (.ofIndex i.location) ::
        (PartCycle.markLexemes (some s) ++ [.number k]) := by
  unfold Readable at hreadable
  obtain ⟨hmark, hround⟩ : PartCycle.ownMark kind i ≠ none ∧
      PartCycle.roundLexemes n kind (PartCycle.round kind i) ≠ [] := by
    simpa using hreadable
  cases kind with
  | corner => contradiction
  | edge => contradiction
  | side =>
    obtain ⟨s, hs⟩ := Option.ne_none_iff_exists'.mp hmark
    obtain ⟨k, hk⟩ : ∃ k, PartCycle.roundLexemes n .side (PartCycle.round .side i) =
        [.number k] := by
      simp only [PartCycle.roundLexemes] at hround ⊢
      split
      · exact ⟨_, rfl⟩
      · rename_i hodd
        rw [if_neg hodd] at hround
        split
        · rename_i hzero
          exact absurd (if_pos hzero) hround
        · exact ⟨_, rfl⟩
    refine ⟨s, PartCycle.mem_signs_of_ownMark s hs, k, ?_⟩
    have hfront : PartCycle.frontMark .suffixed .side i = none := rfl
    have hback : PartCycle.backMark .suffixed .side i = some s := hs
    rw [PartCycle.itemLexemes, hfront, hback, hk]
    rfl

/-- A number begins neither a part nor the end of a cycle. -/
theorem readParts_of_number {k : Nat} (ht : t.kind = .number k) :
    r.readParts cycle (t :: rest) = .error (.ofToken .faceMissing t) := by
  have hmeaningless : r.Meaningless t := by
    apply meaningless_of_kind
    rw [ht]
    exact Token.Kind.noConfusion
  exact readParts_of_no_face (hmeaningless.isA_eq rfl) hmeaningless.signOf?_eq
    hmeaningless.faceOf?_eq

section Signed

variable (hr : r.grammar = Grammar.signed n h .suffixed)
include hr

/-- Behind a part with a sign and a number the number is left. -/
theorem rest_of_marked {face m number : Token} {s sign : Symbol} (hface : r.faceOf? face = some s)
    (hsign : r.Means m sign) (hmem : sign ∈ Symbol.signs)
    {cycle' : PartCycle} {left : List Token}
    (hread : Gives (r.readPart cycle (face :: m :: number :: rest)) cycle' left) :
    left = number :: rest := by
  have hfixity := fixity_permutation hr
  have hother : ∀ s ∈ Symbol.signs, ¬Symbol.faces.contains s = true := by decide
  have hnext : r.faceOf? m = none := hsign.faceOf?_eq.trans (if_neg (hother sign hmem))
  have hfront : r.signInFront (face :: m :: number :: rest) =
      (none, face :: m :: number :: rest) := by
    rw [signInFront, hfixity]
    rfl
  have hfaces : r.facesOfPart (face :: m :: number :: rest) =
      ([(face, s)], m :: number :: rest) := by
    rw [facesOfPart, hfront]
    simp [takeFaces, hface, hnext]
  -- The sign stands where a number is looked for, so that the part is taken to have none.
  have hnumber : r.numberOfPart (face :: m :: number :: rest) = (0, m :: number :: rest) := by
    have hvalue : (r.peek (m :: number :: rest)).value? = none := hsign.value?_eq
    rw [numberOfPart, hfaces, takeNumber, hvalue]
  have hbehind : r.signBehind (face :: m :: number :: rest) = (some m, number :: rest) := by
    have hkind : r.kindOfPart (face :: m :: number :: rest) = .side := by
      rw [kindOfPart, hfaces]
      rfl
    rw [signBehind, hkind, hnumber, hfixity]
    simp [takeSignIf, takeSign, hsign.signOf?_of_mem hmem]
  obtain ⟨-, -, part, -, -, hrest⟩ := gives_readPart_iff.mp hread
  rw [hrest, hbehind]

/-- A cycle is refused at a part that cannot be read. -/
theorem readParts_of_not_readable (hreadable : ¬Readable n .suffixed kind i)
    (hts : ts.map Token.lexeme = PartCycle.itemLexemes n .suffixed kind i) :
    ∃ e, r.readParts cycle (ts ++ rest) = .error e := by
  obtain ⟨s, hs, k, hlexemes⟩ := exists_lexemes_of_not_readable hreadable
  rw [hlexemes] at hts
  obtain ⟨face, ts, rfl, hface, hts⟩ := List.map_eq_cons_iff.mp hts
  obtain ⟨marks, numbers, rfl, hmarks, hnumbers⟩ := List.map_eq_append_iff.mp hts
  obtain ⟨m, rfl, hsign⟩ := means_mark hr hs hmarks
  obtain ⟨number, rfl, hnumber⟩ := List.map_eq_singleton_iff.mp hnumbers
  have hkind : number.kind = .number k := (Prod.mk.inj hnumber).1
  have hmeans := means_face hr hface
  have hopen : r.grammar.isA .permutationEnd face = false := by
    rw [hmeans.isA_eq rfl]
    cases Face.ofIndex i.location <;> rfl
  have hfaceOf : r.faceOf? face = some (Face.symbol (.ofIndex i.location)) := by
    rw [hmeans.faceOf?_eq, if_pos]
    cases Face.ofIndex i.location <;> rfl
  have hmeaningless : r.Meaningless number := by
    apply meaningless_of_kind
    rw [hkind]
    exact Token.Kind.noConfusion
  have hdelimiter : r.grammar.isA .permutationDelimiter number = false := hmeaningless.isA_eq rfl
  show ∃ e, r.readParts cycle (face :: m :: number :: rest) = .error e
  rw [readParts]
  cases hpart : r.readPart cycle (face :: m :: number :: rest) with
  | error e =>
    refine ⟨e, ?_⟩
    simp [hopen]
  | ok p =>
    obtain ⟨cycle', rest', hlt⟩ := p
    -- Even a part that is taken without its number leaves the number to be the next part.
    obtain rfl : rest' = number :: rest := rest_of_marked hr hfaceOf hsign hs ⟨hlt, hpart⟩
    have hrest := @readParts_of_number r rest number cycle' k hkind
    have hfixity := fixity_permutation hr
    refine ⟨.ofToken .faceMissing number, ?_⟩
    simp [hopen, peek, hdelimiter, hfixity, hrest]

/-- The parts of a cycle are refused if one of them cannot be read. -/
theorem readParts_of_exists_not_readable (hn : n ≤ 7) {p : PartCycle} (hp : p.Plain n kind)
    {items : List PartCycle.Item} (hitems : cycle.items ++ items = p.items)
    (hkind : cycle.kind = none ∨ cycle.kind = some kind) (hsign : cycle.sign = 0)
    (hts : ts.map Token.lexeme = PartCycle.bodyLexemes n .suffixed kind items)
    (hunreadable : ∃ i ∈ items, ¬Readable n .suffixed kind i) :
    ∃ e, r.readParts cycle (ts ++ rest) = .error e := by
  induction items generalizing cycle ts with
  | nil =>
    obtain ⟨i, hmem, -⟩ := hunreadable
    contradiction
  | cons i items ih =>
    by_cases hreadable : Readable n .suffixed kind i
    · -- The part that cannot be read is one of those behind the first delimiter.
      obtain ⟨k, hk, hbad⟩ : ∃ k ∈ items, ¬Readable n .suffixed kind k := by
        obtain ⟨k, hk, hbad⟩ := hunreadable
        rcases List.mem_cons.mp hk with rfl | hk
        · contradiction
        · exact ⟨k, hk, hbad⟩
      cases items with
      | nil => contradiction
      | cons j items =>
        have hi := hp.fits hkind hsign hitems
        obtain ⟨t, ts', comma, behind, hcons, hopen, hread, hdelimiter, hbody⟩ :=
          @readPart_first r ts rest .suffixed n kind cycle h hr (Or.inr rfl) hn i j items hi
            hreadable hts
        have hsplit : (cycle.items ++ [i]) ++ j :: items = p.items := by
          rw [List.append_assoc]
          exact hitems
        obtain ⟨e, hrest⟩ := @ih behind { kind := some kind, items := cycle.items ++ [i] } hsplit
          (Or.inr rfl) rfl hbody ⟨k, hk, hbad⟩
        refine ⟨e, ?_⟩
        rw [hcons]
        exact readParts_of_delimiter_of_error hopen hread hdelimiter hrest
    · obtain ⟨more, hmore⟩ := PartCycle.bodyLexemes_cons n .suffixed kind i items
      rw [hmore] at hts
      obtain ⟨first, behind, rfl, hfirst, -⟩ := List.map_eq_append_iff.mp hts
      rw [List.append_assoc]
      exact readParts_of_not_readable hr hreadable hfirst

/-! ## Cycles and states -/

/-- A cycle with a part that cannot be read is refused. -/
theorem readStatement_of_not_readable (hn : n ≤ 7) {p : PartCycle} (hp : p.Plain n kind)
    (hunreadable : ∃ i ∈ p.items, ¬Readable n .suffixed kind i)
    (hts : ts.map Token.lexeme = p.lexemes n .suffixed kind) :
    ∃ e, ∀ inner : Inner (ts ++ rest).length,
      r.readStatement (ts ++ rest) inner memory = .error e memory := by
  have hts : ts.map Token.lexeme = .keyword "(" :: p.innerLexemes n .suffixed kind := hts
  obtain ⟨t, ts, rfl, ht, hinner⟩ := List.map_eq_cons_iff.mp hts
  have hnext : ((r.grammar.symbols (r.peek (ts ++ rest))).any fun s => s.isPartOf .permutation) =
      true := by
    obtain ⟨s, hmeans⟩ := @means_inner r ts rest .suffixed n kind h hr p hp hinner
    exact hmeans.any_isPartOf
  have hsign : r.takeSignIf (r.grammar.fixity .permutation = .precircumfixed) (ts ++ rest) =
      (none, ts ++ rest) := by
    rw [fixity_permutation hr]
    rfl
  obtain ⟨marks, behind, hsplit, hmarks, hbehind⟩ := List.map_eq_append_iff.mp hinner
  obtain rfl := List.map_eq_nil_iff.mp hmarks
  obtain rfl : ts = behind := hsplit
  obtain ⟨body, closings, rfl, hbody, -⟩ := List.map_eq_append_iff.mp hbehind
  obtain ⟨e, hparts⟩ := @readParts_of_exists_not_readable r body (closings ++ rest) n h kind {} hr
    hn p hp _ (List.nil_append _) (Or.inl rfl) rfl hbody hunreadable
  rw [← List.append_assoc] at hparts
  have hread : r.readPermutation t.start none (body ++ closings ++ rest) = .error e := by
    apply readPermutation_of_error
    rw [hsign]
    exact hparts
  have hr' : r.grammar = Grammar.builtIn n h .suffixed ∅ := hr
  obtain ⟨hkind, htext⟩ := Prod.mk.inj ht
  have hstatement : ∀ inner : Inner (t :: (body ++ closings ++ rest)).length,
      r.readStatement (t :: (body ++ closings ++ rest)) inner memory = .error e memory := by
    intro inner
    rw [readStatement_of_bracket hr' hkind htext (by rintro name ⟨⟩), if_pos hnext]
    exact bind_of_error (lift_of_error hread)
  exact ⟨e, hstatement⟩

/-- Cycles side by side are refused if one of them has a part that cannot be read. -/
theorem readAll_of_exists_not_readable (hn : n ≤ 7) {es : List (PartKind × PartCycle)}
    (hes : ∀ e ∈ es, e.2.Plain n e.1)
    (hunreadable : ∃ e ∈ es, ∃ i ∈ e.2.items, ¬Readable n .suffixed e.1 i)
    (hts : ts.map Token.lexeme = es.flatMap fun e => e.2.lexemes n .suffixed e.1) :
    ∃ e, r.readAll ts memory = .error e memory := by
  induction es generalizing ts with
  | nil =>
    obtain ⟨e, hmem, -⟩ := hunreadable
    contradiction
  | cons e es ih =>
    obtain ⟨first, behind, rfl, hfirst, hbehind⟩ := List.map_eq_append_iff.mp hts
    -- Cycles in front of the first one that is refused are read, so that reading comes to it.
    by_cases hreadable : ∀ i ∈ e.2.items, Readable n .suffixed e.1 i
    · have hothers : ∃ e ∈ es, ∃ i ∈ e.2.items, ¬Readable n .suffixed e.1 i := by
        obtain ⟨e', he', i, hi, hbad⟩ := hunreadable
        rcases List.mem_cons.mp he' with rfl | he'
        · exact absurd (hreadable i hi) hbad
        · exact ⟨e', he', i, hi, hbad⟩
      obtain ⟨error, hrest⟩ := ih (fun e he => hes e (List.mem_cons_of_mem _ he)) hothers hbehind
      obtain ⟨t, ts, hlt, span, hcons, hexpression⟩ :=
        @readExpression_first r memory .suffixed n h hr (Or.inr rfl) hn first behind e es
          (hes e List.mem_cons_self) hreadable hfirst hbehind
      refine ⟨error, ?_⟩
      rw [hcons]
      exact readAll_of_rest_error hexpression hrest
    · have hbad : ∃ i ∈ e.2.items, ¬Readable n .suffixed e.1 i := by
        simpa only [not_forall, exists_prop] using hreadable
      obtain ⟨error, hread⟩ := @readStatement_of_not_readable r first behind memory n h e.1 hr hn
        e.2 (hes e List.mem_cons_self) hbad hfirst
      obtain ⟨t, first, rfl, hstarts⟩ := starts_head hfirst
      exact ⟨error, readAll_of_first_error
        (readExpression_of_error (fun inner => readAffix?_of_starts hr inner hstarts) (hread _))⟩

end Signed

end Reading

variable {n : Nat} {c : Cube}

/-- The text of a state with a part that cannot be read is refused. -/
theorem Cube.Valid.parse_unreadable (h : 2 ≤ n) (hn : n ≤ 7) (hc : c.Valid n)
    (hunreadable : ∃ e ∈ c.written, ∃ i ∈ e.2.items, ¬Reading.Readable n .suffixed e.1 i)
    (memory : Memory) :
    ∃ e, (Grammar.signed n h .suffixed).parse (c.text { fixity := .suffixed }) memory =
      .error e (memory.report (.parseFailed e)) := by
  have hlexemes := (@Cube.Valid.spells_text n h .suffixed c hc (Or.inr rfl)).tokens_eq
  have hparse :=
    (Grammar.signed n h .suffixed).parseWith_eq [] (c.text { fixity := .suffixed }) memory
  have hne : c.written ≠ [] := by
    intro hnil
    obtain ⟨e, he, -⟩ := hunreadable
    rw [hnil] at he
    contradiction
  rw [Cube.lexemes_of_ne_nil hne] at hlexemes
  obtain ⟨e, hread⟩ := @Reading.readAll_of_exists_not_readable
    ((Grammar.signed n h .suffixed).reading [] (c.text { fixity := .suffixed }).toList.length) _
    memory n h rfl hn _ (fun e he => hc.plain_of_mem_written he) hunreadable hlexemes
  rw [hread] at hparse
  exact ⟨e, hparse⟩

end CubeLang
