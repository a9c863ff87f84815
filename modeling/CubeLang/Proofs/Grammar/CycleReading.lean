import CubeLang.Proofs.Grammar.PartReading

/-!
# Reading cycles of parts

The tokens of a cycle of parts are read as the cycle: its parts one after the other, up to the
closing bracket, and its sign where the fixity has it.
-/

set_option autoImplicit false

namespace CubeLang

namespace Reading

variable {r : Reading} {ts ts' rest : List Token} {t : Token}
variable {f : Fixity} {n : Nat} {kind : PartKind} {cycle cycle' : PartCycle}

/-- Behind a part with a delimiter, what is wrong with the other parts is wrong with all of them. -/
theorem readParts_of_delimiter_of_error {t' : Token} {e : ParseError}
    (hopen : r.grammar.isA .permutationEnd t = false)
    (hpart : Gives (r.readPart cycle (t :: ts)) cycle' (t' :: rest))
    (hdelimiter : r.Means t' .permutationDelimiter) (hrest : r.readParts cycle' rest = .error e) :
    r.readParts cycle (t :: ts) = .error e := by
  obtain ⟨hlt, hpart⟩ := hpart
  have hdelimiter' : r.grammar.isA .permutationDelimiter t' = true := hdelimiter.isA_eq rfl
  rw [readParts]
  simp [hopen, hpart, peek, hdelimiter', hrest]

/-- How a cycle ends: with the closing bracket, or with a sign in front of it. -/
inductive Ending (r : Reading) (rest : List Token) : List Token → Option Token → Nat → Prop where
  | closing {t : Token} (h : r.Means t .permutationEnd) : Ending r rest (t :: rest) none t.stop
  | signed {m t : Token} {s : Symbol} (hm : r.Means m s) (hs : s ∈ Symbol.signs)
      (hfixity : r.grammar.fixity .permutation = .postcircumfixed)
      (h : r.Means t .permutationEnd) : Ending r rest (m :: t :: rest) (some m) t.stop

theorem readsParts_of_ending {ending : List Token} {sign : Option Token} {stop : Nat}
    (hopen : r.grammar.isA .permutationEnd t = false)
    (hpart : Gives (r.readPart cycle (t :: ts)) cycle' ending)
    (hending : r.Ending rest ending sign stop) :
    r.ReadsParts cycle (t :: ts) ⟨cycle', sign, stop⟩ rest := by
  cases hending with
  | closing h =>
    exact .part hopen hpart (h.isA_eq rfl) (fun _ => h.signOf?_eq) (.closed (h.isA_eq rfl))
  | @signed m _ _ hm hs hfixity h =>
    have hother : ∀ s ∈ Symbol.signs, .permutationDelimiter ≠ s := by decide
    have hdelimiter : r.grammar.isA .permutationDelimiter m = false := by
      rw [hm.isA_eq rfl, decide_eq_false (hother _ hs)]
    have hsign : (r.signOf? m).isSome = true := by
      rw [hm.signOf?_of_mem hs]
      rfl
    exact .signed hopen hpart hdelimiter hfixity hsign (h.isA_eq rfl)

theorem Ending.head {ending : List Token} {sign : Option Token} {stop : Nat}
    (h : r.Ending rest ending sign stop) :
    r.faceOf? (r.peek ending) = none ∧ (r.peek ending).value? = none ∧
      (r.grammar.fixity .permutation = .suffixed → r.signOf? (r.peek ending) = none) := by
  cases h with
  | closing h => exact ⟨h.faceOf?_eq, h.value?_eq, fun _ => h.signOf?_eq⟩
  | @signed m t s hm hs hfixity =>
    have hother : ∀ s ∈ Symbol.signs, ¬Symbol.faces.contains s = true := by decide
    refine ⟨hm.faceOf?_eq.trans (if_neg (hother s hs)), hm.value?_eq, fun hsuffixed => ?_⟩
    rw [hfixity] at hsuffixed
    contradiction

theorem head_itemLexemes {i : PartCycle.Item} (hne : PartCycle.faces kind i ≠ []) :
    ∃ s text, (PartCycle.itemLexemes n f kind i).head? = some (.keyword text) ∧
      (s, text) ∈ cycleTokens ∧ s ∈ Symbol.signs ++ Symbol.faces := by
  unfold PartCycle.itemLexemes
  cases hmark : PartCycle.frontMark f kind i with
  | none =>
    cases hfaces : PartCycle.faces kind i with
    | nil => contradiction
    | cons face faces =>
      refine ⟨face.symbol, face.letter, rfl, ?_, ?_⟩
      · cases face <;> decide
      · cases face <;> decide
  | some s =>
    have hs := mem_signs_of_frontMark s hmark
    obtain ⟨text, htext, htoken⟩ := markLexemes_of_mem hs
    refine ⟨s, text, ?_, htoken, List.mem_append_left _ hs⟩
    rw [htext]
    rfl

section Signed

variable {h : 2 ≤ n} (hr : r.grammar = Grammar.signed n h f)
include hr

theorem head_item {i : PartCycle.Item} (hne : PartCycle.faces kind i ≠ [])
    (hts : ts.map Token.lexeme = PartCycle.itemLexemes n f kind i) :
    ∃ t ts' s, ts = t :: ts' ∧ r.Means t s ∧ s ∈ Symbol.signs ++ Symbol.faces := by
  obtain ⟨s, text, hhead, htoken, hs⟩ := @head_itemLexemes f n kind i hne
  rw [← hts, List.head?_map, Option.map_eq_some_iff] at hhead
  obtain ⟨t, ht, hlexeme⟩ := hhead
  obtain ⟨ts', rfl⟩ := List.head?_eq_some_iff.mp ht
  exact ⟨t, ts', s, rfl, means_of_lexeme hr hlexeme htoken, hs⟩

theorem open_item {i : PartCycle.Item} (hne : PartCycle.faces kind i ≠ [])
    (hts : ts.map Token.lexeme = PartCycle.itemLexemes n f kind i) :
    ∃ t ts', ts = t :: ts' ∧ r.grammar.isA .permutationEnd t = false := by
  obtain ⟨t, ts', s, rfl, hmeans, hs⟩ := head_item hr hne hts
  have hother : ∀ s ∈ Symbol.signs ++ Symbol.faces, .permutationEnd ≠ s := by decide
  exact ⟨t, ts', rfl, by rw [hmeans.isA_eq rfl, decide_eq_false (hother s hs)]⟩

/-- Of several parts the first one is read up to the delimiter behind it. -/
theorem readPart_first (hf : f.HasPlace) (hn : n ≤ 7) {i j : PartCycle.Item}
    {items : List PartCycle.Item} (hi : PartCycle.Fits n kind cycle i)
    (hreadable : Readable n f kind i)
    (hts : ts.map Token.lexeme = PartCycle.bodyLexemes n f kind (i :: j :: items)) :
    ∃ t ts' comma behind, ts ++ rest = t :: ts' ∧ r.grammar.isA .permutationEnd t = false ∧
      Gives (r.readPart cycle (t :: ts')) { kind := some kind, items := cycle.items ++ [i] }
        (comma :: (behind ++ rest)) ∧
      r.Means comma .permutationDelimiter ∧
      behind.map Token.lexeme = PartCycle.bodyLexemes n f kind (j :: items) := by
  obtain ⟨first, behind, rfl, hfirst, hbehind⟩ := List.map_eq_append_iff.mp hts
  obtain ⟨comma, behind, rfl, hcomma, hbody⟩ := List.map_eq_cons_iff.mp hbehind
  have hdelimiter := means_of_lexeme (s := .permutationDelimiter) hr hcomma (by decide)
  have hread := @readPart_item r first (comma :: (behind ++ rest)) f n kind cycle h hr hf hn i hi
    hreadable hfirst hdelimiter.faceOf?_eq hdelimiter.value?_eq fun _ => hdelimiter.signOf?_eq
  obtain ⟨t, ts', rfl, hopen⟩ := open_item hr (PartCycle.faces_ne_nil hi.location_lt) hfirst
  exact ⟨t, _, comma, behind, List.append_assoc _ _ _, hopen, hread, hdelimiter, hbody⟩

/-- The tokens of the parts of a cycle are read as these parts. -/
theorem readsParts_body (hf : f.HasPlace) (hn : n ≤ 7) {p : PartCycle} (hp : p.Plain n kind)
    {items : List PartCycle.Item} (hitems : cycle.items ++ items = p.items) (hne : items ≠ [])
    (hreadable : ∀ i ∈ items, Readable n f kind i)
    (hkind : cycle.kind = none ∨ cycle.kind = some kind) (hsign : cycle.sign = 0)
    (hts : ts.map Token.lexeme = PartCycle.bodyLexemes n f kind items)
    {ending : List Token} {sign : Option Token} {stop : Nat}
    (hending : r.Ending rest ending sign stop) :
    r.ReadsParts cycle (ts ++ ending) ⟨{ kind := some kind, items := p.items }, sign, stop⟩ rest := by
  -- The cycle holds the parts that were read, and `items` are those still to come.
  induction items generalizing cycle ts with
  | nil => contradiction
  | cons i items ih =>
    have hi := hp.fits hkind hsign hitems
    have hreadable' := hreadable i List.mem_cons_self
    cases items with
    | nil =>
      obtain ⟨hface, hvalue, hnoSign⟩ := hending.head
      rw [fixity_permutation hr] at hnoSign
      have hread := readPart_item hr hf hn hi hreadable' hts hface hvalue hnoSign
      obtain ⟨t, ts', rfl, hopen⟩ := open_item hr (PartCycle.faces_ne_nil hi.location_lt) hts
      rw [← hitems]
      exact readsParts_of_ending hopen hread hending
    | cons j items =>
      obtain ⟨t, ts', comma, behind, hcons, hopen, hread, hdelimiter, hbody⟩ :=
        @readPart_first r ts ending f n kind cycle h hr hf hn i j items hi hreadable' hts
      have hsplit : (cycle.items ++ [i]) ++ j :: items = p.items := by
        rw [List.append_assoc]
        exact hitems
      have hrest := @ih behind { kind := some kind, items := cycle.items ++ [i] } hsplit
        (List.cons_ne_nil _ _) (fun i hmem => hreadable i (List.mem_cons_of_mem _ hmem))
        (Or.inr rfl) rfl hbody
      rw [hcons]
      exact .delimited hopen hread (hdelimiter.isA_eq rfl) hrest

end Signed

/-! ## Signs -/

theorem withSign_eq {p : PartCycle} (hp : p.Plain n kind) {sign : Option Token} (span : Span)
    (hsign : sign.map r.signOf? = (PartCycle.mark kind p.sign).map some) :
    ∃ span', r.withSign span { kind := some kind, items := p.items } sign =
      .ok (.permutation span' p) := by
  have hsign := bind_signOf?_of_map hsign
  have htwist := PartCycle.signTwist_mark hp.sign_lt
  have hwhole : ({ kind := some kind, sign := p.sign, items := p.items } : PartCycle) = p := by
    rw [← hp.kind_eq]
  rw [← hsign] at htwist
  cases sign with
  | none =>
    have hzero : p.sign = 0 := (Except.ok.inj htwist).symm
    rw [hzero] at hwhole
    exact ⟨span, congrArg (fun p => Except.ok (Script.permutation span p)) hwhole⟩
  | some t =>
    rw [Option.bind_some] at htwist hsign
    refine ⟨⟨span.start, max span.stop t.stop⟩, ?_⟩
    unfold withSign
    cases kind with
    | corner =>
      have hlegal : ∀ k < 3, PartCycle.mark .corner k ≠ some .permutationPlusPlus := by decide
      have hlegal := hlegal _ hp.sign_lt
      rw [← hsign] at hlegal
      simp [htwist, hlegal, hwhole]
    | edge =>
      have hlegal : ∀ k < 2, PartCycle.mark .edge k ≠ some .permutationPlusPlus ∧
          PartCycle.mark .edge k ≠ some .permutationMinus := by decide
      have hlegal := hlegal _ hp.sign_lt
      rw [← hsign] at hlegal
      simp [htwist, hlegal, hwhole]
    | side => simp [htwist, hwhole]

/-- What stands behind the parts of a cycle ends it. -/
theorem ending_of_mark {h : 2 ≤ n} (hr : r.grammar = Grammar.signed n h f)
    {mark : Option Symbol} (hmark : ∀ s ∈ mark, s ∈ Symbol.signs)
    (hplace : mark = none ∨ f = .postcircumfixed)
    (hts : ts.map Token.lexeme = PartCycle.markLexemes mark ++ [.keyword ")"]) :
    ∃ sign stop, r.Ending rest (ts ++ rest) sign stop ∧ sign.map r.signOf? = mark.map some := by
  obtain ⟨marks, closings, rfl, hmarks, hclosings⟩ := List.map_eq_append_iff.mp hts
  obtain ⟨t, rfl, ht⟩ := List.map_eq_singleton_iff.mp hclosings
  have hclosing : r.Means t .permutationEnd := means_of_lexeme hr ht (by decide)
  cases mark with
  | none =>
    obtain rfl := List.map_eq_nil_iff.mp hmarks
    exact ⟨none, t.stop, .closing hclosing, rfl⟩
  | some s =>
    have hfixity : r.grammar.fixity .permutation = .postcircumfixed := by
      rcases hplace with hplace | rfl
      · contradiction
      · exact fixity_permutation hr
    have hs := hmark s rfl
    obtain ⟨m, rfl, hmeans⟩ := means_mark hr hs hmarks
    refine ⟨some m, t.stop, .signed hmeans hs hfixity hclosing, ?_⟩
    rw [Option.map_some, hmeans.signOf?_of_mem hs]
    rfl

/-! ## Cycles -/

section Signed

variable {h : 2 ≤ n} (hr : r.grammar = Grammar.signed n h f)
include hr

/-- The tokens of the parts of a cycle begin with a face, since the first part has no sign. -/
theorem head_body {p : PartCycle} (hp : p.Plain n kind)
    (hts : ts.map Token.lexeme = PartCycle.bodyLexemes n f kind p.items) :
    ∃ t ts' face, ts = t :: ts' ∧ r.Means t (Face.symbol face) := by
  have hne := hp.ne_nil
  have hlt := hp.location_lt
  have hmark := hp.ownMark_head
  cases hitems : p.items with
  | nil => exact absurd hitems hne
  | cons i items =>
    rw [hitems] at hlt hmark hts
    obtain ⟨more, hmore⟩ := PartCycle.bodyLexemes_cons n f kind i items
    have hfront : PartCycle.frontMark f kind i = none := by
      rw [PartCycle.frontMark, hmark i rfl, ite_self]
    have hnone : PartCycle.markLexemes none = [] := rfl
    rw [hmore, PartCycle.itemLexemes, hfront, hnone, List.nil_append, List.append_assoc] at hts
    obtain ⟨named, behind, rfl, hnamed, -⟩ := List.map_eq_append_iff.mp hts
    obtain ⟨t, named, face, rfl, hmeans⟩ :=
      head_faces hr (PartCycle.faces_ne_nil (hlt i List.mem_cons_self)) hnamed
    exact ⟨t, _, face, rfl, hmeans⟩

/-- The token behind the opening bracket of a cycle is a part of cycles. -/
theorem means_inner {p : PartCycle} (hp : p.Plain n kind)
    (hts : ts.map Token.lexeme = p.innerLexemes n f kind) :
    ∃ s, r.Means (r.peek (ts ++ rest)) s := by
  obtain ⟨marks, behind, rfl, hmarks, hbehind⟩ := List.map_eq_append_iff.mp hts
  cases hmark : p.markAt .precircumfixed f kind with
  | none =>
    rw [hmark] at hmarks
    obtain rfl := List.map_eq_nil_iff.mp hmarks
    obtain ⟨body, closings, rfl, hbody, -⟩ := List.map_eq_append_iff.mp hbehind
    obtain ⟨t, body, face, rfl, hmeans⟩ := head_body hr hp hbody
    exact ⟨_, hmeans⟩
  | some s =>
    rw [hmark] at hmarks
    obtain ⟨t, rfl, hmeans⟩ := means_mark hr (PartCycle.mem_signs_of_markAt s hmark) hmarks
    exact ⟨s, hmeans⟩

/-- A sign is taken at a place if it stands there. -/
theorem takeSignIf_markAt {p : PartCycle} {place : Fixity}
    (hts : ts.map Token.lexeme = PartCycle.markLexemes (p.markAt place f kind))
    (hrest : f = place → r.signOf? (r.peek rest) = none) :
    ∃ sign, r.takeSignIf (r.grammar.fixity .permutation = place) (ts ++ rest) = (sign, rest) ∧
      sign.map r.signOf? = (p.markAt place f kind).map some := by
  rw [fixity_permutation hr]
  by_cases hplace : f = place
  · rw [takeSignIf, if_pos (decide_eq_true hplace)]
    exact takeSign_mark hr PartCycle.mem_signs_of_markAt hts (hrest hplace)
  · rw [PartCycle.markAt, if_neg hplace] at hts ⊢
    obtain rfl := List.map_eq_nil_iff.mp hts
    exact ⟨none, by rw [takeSignIf, if_neg (by simpa using hplace)]; rfl, rfl⟩

/-- The tokens of a cycle behind its opening bracket, or all of them if the sign was read before, are
read as the cycle. -/
theorem readsPermutation_cycle (hf : f.HasPlace) (hn : n ≤ 7) {p : PartCycle} (hp : p.Plain n kind)
    (hreadable : ∀ i ∈ p.items, Readable n f kind i) {start : Nat} {leading : Option Token}
    (hleading : leading.map r.signOf? = (p.markAt .prefixed f kind).map some)
    (hts : ts.map Token.lexeme = p.innerLexemes n f kind)
    (hrest : f = .suffixed → r.signOf? (r.peek rest) = none) :
    ∃ span, r.ReadsPermutation start leading (ts ++ rest) (.permutation span p) rest := by
  obtain ⟨marks, behind, rfl, hmarks, hbehind⟩ := List.map_eq_append_iff.mp hts
  obtain ⟨body, closings, rfl, hbody, hclosings⟩ := List.map_eq_append_iff.mp hbehind
  rw [← List.append_assoc] at hclosings
  obtain ⟨closings, trailing, rfl, hclosings, htrailing⟩ := List.map_eq_append_iff.mp hclosings
  have hplace : p.markAt .postcircumfixed f kind = none ∨ f = .postcircumfixed := by
    unfold PartCycle.markAt
    split
    · exact Or.inr ‹_›
    · exact Or.inl rfl
  obtain ⟨sign, stop, hending, hsign⟩ := @ending_of_mark r closings (trailing ++ rest) f n h hr _
    PartCycle.mem_signs_of_markAt hplace hclosings
  have hparts := @readsParts_body r body (trailing ++ rest) f n kind {} h hr hf hn p hp _
    (List.nil_append _) hp.ne_nil hreadable (Or.inl rfl) rfl hbody _ _ _ hending
  have hnext : r.signOf? (r.peek (body ++ (closings ++ (trailing ++ rest)))) = none := by
    obtain ⟨t, body, face, rfl, hmeans⟩ := head_body hr hp hbody
    exact signOf?_of_face hmeans
  obtain ⟨opened, hopened, hfront⟩ := takeSignIf_markAt hr hmarks fun _ => hnext
  obtain ⟨last, hlast, hback⟩ := takeSignIf_markAt hr htrailing hrest
  -- The sign is found in the one place that the fixity has for it, and nowhere else.
  have hsigns : (last.or (sign.or (opened.or leading))).map r.signOf? =
      (PartCycle.mark kind p.sign).map some := by
    rw [Option.map_or, Option.map_or, Option.map_or, hback, hsign, hfront, hleading,
      ← Option.map_or, ← Option.map_or, ← Option.map_or, PartCycle.markAt_or hf]
  obtain ⟨span, hscript⟩ := withSign_eq hp ⟨start, stop⟩ hsigns
  rw [List.append_assoc, List.append_assoc, List.append_assoc]
  exact ⟨span, .intro hopened hparts hlast hscript⟩

end Signed

end Reading

end CubeLang
