import CubeLang.Proofs.Grammar.MacroBodies
import CubeLang.Proofs.Token.Places

/-!
# Where scripts and errors stand

If tokens stand one behind the other in a text, the scripts that are made of them stand there in the
same order, and at each node the parts lie inside the node and apart from each other. There is one case
for each production of the grammar: what a production encloses lies between its brackets, and an affix
lies in front of its operand or behind it. An error reaches from one token to the same or a later one,
and so lies in the text too, also if the fault is in the body of a macro.
-/

set_option autoImplicit false

namespace CubeLang

variable {first last : Int} {t t' : Token} {ts ts' : List Token}

/-! ## Tokens in order -/

/-- Whether tokens stand one behind the other between two places of a text. -/
def TokensOrdered (first last : Int) (ts : List Token) : Prop :=
  Span.Ordered first last (ts.map Token.span)

theorem tokensOrdered_append : TokensOrdered first last (ts ++ ts') ↔
    ∃ middle, TokensOrdered first middle ts ∧ TokensOrdered middle last ts' := by
  unfold TokensOrdered
  rw [List.map_append]
  exact Span.ordered_append

theorem tokensOrdered_singleton : TokensOrdered first last [t] ↔ t.span.Between first last :=
  Span.ordered_singleton

/-- What stands between two brackets. -/
theorem TokensOrdered.inside (h : TokensOrdered first last (t :: ts ++ [t'])) :
    TokensOrdered t.stop t'.start ts ∧ (⟨t.start, t'.stop⟩ : Span).Between first last ∧
      (t.start : Int) ≤ t.stop ∧ (t'.start : Int) ≤ t'.stop := by
  unfold TokensOrdered at h
  rw [List.map_append, List.map_cons] at h
  exact Span.Ordered.inside h

/-- What stands on both sides of a token. -/
theorem TokensOrdered.around (h : TokensOrdered first last (ts ++ t :: ts')) :
    TokensOrdered first t.start ts ∧ (t.start : Int) ≤ t.stop ∧ TokensOrdered t.stop last ts' := by
  obtain ⟨middle, hfront, hmiddle, ht, hback⟩ := tokensOrdered_append.mp h
  exact ⟨hfront.widen (Int.le_refl _) hmiddle, ht, hback⟩

theorem TokensOrdered.fromFirst (h : TokensOrdered first last (t :: ts)) :
    TokensOrdered t.start last (t :: ts) := ⟨Int.le_refl _, h.2⟩

theorem TokensOrdered.toLast (h : TokensOrdered first last (ts ++ [t])) :
    TokensOrdered first t.stop (ts ++ [t]) := by
  obtain ⟨middle, hfront, hmiddle, ht, -⟩ := tokensOrdered_append.mp h
  exact tokensOrdered_append.mpr ⟨middle, hfront, hmiddle, ht, Int.le_refl _⟩

/-- A stretch from the first of the tokens, which may be an optional one, to any of them. -/
theorem TokensOrdered.reach {o : Option Token} (h : TokensOrdered first last (o.toList ++ t :: ts))
    (ht' : t' ∈ o.toList ++ t :: ts) :
    (⟨(o.getD t).start, t'.stop⟩ : Span).Between first last := by
  have ht' := List.mem_map_of_mem (f := Token.span) ht'
  cases o with
  | none => exact Span.Ordered.reach h ht'
  | some t₀ => exact Span.Ordered.reach h ht'

/-- A span from one of the tokens to a later one. -/
theorem TokensOrdered.between_of_reaches {s : Span} (h : TokensOrdered first last ts)
    (hs : s.Reaches ts) : s.Between first last := by
  obtain ⟨t, rest, ⟨front, rfl⟩, t', ht', rfl⟩ := hs
  obtain ⟨middle, hfront, hback⟩ := tokensOrdered_append.mp h
  have hspan := TokensOrdered.reach (o := none) hback ht'
  exact hspan.widen (Span.Ordered.le hfront) (Int.le_refl _)

namespace Reading

variable {r : Reading} {s : Script} {scripts : List Script} {k : BinaryKind} {a : Affix}

/-! ## Affixes -/

theorem placed_of_affixTokens {place : Fixity} (h : r.AffixTokens place ts a)
    (hts : TokensOrdered first last ts) : a.Placed first last := by
  cases h with
  | repetition hplace hcount =>
    obtain @⟨opening, closing, number⟩ := hcount
    have hlast : closing.getD number ∈ opening.toList ++ number :: closing.toList := by
      cases closing <;> simp
    exact ⟨hts.reach hlast, by simp⟩
  | inversion => exact ⟨tokensOrdered_singleton.mp hts, by simp⟩
  | reflection => exact ⟨tokensOrdered_singleton.mp hts, by simp⟩

/-- The span of an operator ends where the last of its scripts does. -/
theorem operatorSpan_eq (opening : Token) (scripts : List Script) : operatorSpan opening scripts =
    ⟨opening.stop, Span.endOf opening.stop (scripts.map Script.span)⟩ := by
  unfold operatorSpan Span.endOf
  rw [List.getLast?_map, Option.map_map]
  rfl

theorem placed_operatorAffix (hts : TokensOrdered first last (t :: ts ++ [t']))
    (h : Script.Placed t.stop t'.start scripts) :
    (operatorAffix k t t' scripts).Placed first last := by
  obtain ⟨-, hspan, hopening, hclosing⟩ := hts.inside
  obtain ⟨hordered, hend⟩ := h.ordered.upTo_endOf
  have hscripts : Script.Placed (operatorSpan t scripts).start (operatorSpan t scripts).stop
      scripts := by
    rw [operatorSpan_eq]
    exact ⟨hordered, h.nested⟩
  refine ⟨hspan, fun k' operator hoperator => ?_⟩
  obtain ⟨rfl, rfl⟩ := Affix.Operation.binary.inj hoperator
  refine ⟨hscripts.sequence, ?_⟩
  show (operatorSpan t scripts).Between t.start t'.stop
  rw [operatorSpan_eq]
  exact ⟨hopening, hordered.le, Int.le_trans hend hclosing⟩

/-! ## Cycles of parts -/

/-- The span of a cycle reaches up to its bracket, or to its sign if that stands behind it. -/
theorem span_of_withSign {span : Span} {cycle : PartCycle} {o : Option Token}
    (h : r.withSign span cycle o = .ok s) : s.parts = [] ∧ s.PartsApart ∧
      (s.span = span ∨ ∃ t ∈ o, s.span = ⟨span.start, max span.stop t.stop⟩) := by
  cases o with
  | none =>
    obtain rfl := Except.ok.inj h
    exact ⟨rfl, trivial, Or.inl rfl⟩
  | some t =>
    cases hkind : cycle.kind with
    | none =>
      simp only [withSign, hkind] at h
      obtain rfl := Except.ok.inj h
      exact ⟨rfl, trivial, Or.inl rfl⟩
    | some kind =>
      rw [withSign_of_kind hkind] at h
      split at h
      · contradiction
      · split at h
        · contradiction
        · obtain rfl := Except.ok.inj h
          exact ⟨rfl, trivial, Or.inr ⟨t, rfl, rfl⟩⟩

theorem placed_of_permutationTokens (h : r.PermutationTokens ts s)
    (hts : TokensOrdered first last ts) : Script.Placed first last [s] := by
  obtain @⟨leading, opened, trailing, opening, us, closed, s, hleading, hopening, hopened, hparts,
    htrailing, hsign⟩ := h
  obtain ⟨⟨t, ht, hstop⟩, hinner⟩ := mem_of_partsTokens hparts
  have hmem : ∀ {t}, t ∈ us → t ∈ leading.toList ++ opening :: (opened.toList ++ us ++ trailing.toList) :=
    fun ht => by simp [ht]
  have hclosed : (⟨(leading.getD opening).start, closed.stop⟩ : Span).Between first last := by
    rw [hstop]
    exact hts.reach (hmem ht)
  obtain ⟨hleaf, hapart, hspan⟩ := span_of_withSign hsign
  refine Script.placed_singleton ?_ (.of_leaf hleaf hapart)
  rcases hspan with hspan | ⟨t', ht', hspan⟩
  · rw [hspan]
    exact hclosed
  · have hmem' : t' ∈ leading.toList ++ opening :: (opened.toList ++ us ++ trailing.toList) := by
      simp only [Option.mem_def, Option.or_eq_some_iff] at ht'
      rcases ht' with ht' | ⟨-, ht' | ⟨-, ht' | ⟨-, ht'⟩⟩⟩
      · simp [ht']
      · exact hmem (hinner t' ht')
      · simp [ht']
      · simp [ht']
    have hsigned := hts.reach hmem'
    rw [hspan]
    unfold Span.Between at hclosed hsigned ⊢
    dsimp only at hclosed hsigned ⊢
    omega

/-! ## Scripts -/

/-- A sequence of what stands behind a bracket, up to the next bracket or delimiter. -/
theorem nested_enclosed (h : Script.Placed t.stop t'.start scripts) (ht : (t.start : Int) ≤ t.stop) :
    (Script.sequence ⟨t.start, t'.start⟩ scripts).Nested :=
  (h.widen ht (Int.le_refl _)).sequence

/-- Two scripts and an operator between them, which may take the second one first. -/
theorem placed_infixed {s' : Script} {f : Fixity} (hs : Script.Placed first t.start [s])
    (ht : (t.start : Int) ≤ t.stop) (hs' : Script.Placed t.stop last [s']) :
    Script.Placed first last [
      if f = .infixedFirst then k.combine ⟨s.span.start, s'.span.stop⟩ s s'
      else k.combine ⟨s.span.start, s'.span.stop⟩ s' s] := by
  have hspan := hs.between (List.mem_singleton_self s)
  have hspan' := hs'.between (List.mem_singleton_self s')
  have hnested := hs.nested s (List.mem_singleton_self s)
  have hnested' := hs'.nested s' (List.mem_singleton_self s')
  have hin : s.span.Between s.span.start s'.span.stop := by
    unfold Span.Between at *
    omega
  have hin' : s'.span.Between s.span.start s'.span.stop := by
    unfold Span.Between at *
    omega
  have hapart : s.span.stop ≤ s'.span.start := by
    unfold Span.Between at *
    omega
  have hboth : (⟨s.span.start, s'.span.stop⟩ : Span).Between first last :=
    ⟨hspan.1, hin.le, hspan'.2.2⟩
  split
  · exact Script.placed_singleton (by simpa using hboth)
      (Script.nested_combine k hnested hnested' hin hin' (Or.inl hapart))
  · exact Script.placed_singleton (by simpa using hboth)
      (Script.nested_combine k hnested' hnested hin' hin (Or.inr hapart))

/-- The scripts that are made of tokens stand where the tokens do. -/
theorem Derives.placed (h : r.Derives ts scripts) (hts : TokensOrdered first last ts) :
    Script.Placed first last scripts := by
  induction h generalizing first last with
  | nil => exact Script.placed_nil hts
  | append _ _ ih ih' =>
    obtain ⟨middle, hfront, hback⟩ := tokensOrdered_append.mp hts
    exact (ih hfront).append (ih' hback)
  | move | macroUse | nop =>
    exact Script.placed_singleton (tokensOrdered_singleton.mp hts) (.of_leaf rfl trivial)
  | permutation h => exact placed_of_permutationTokens h hts
  | grouping hopening _ hclosing ih =>
    obtain ⟨hinside, hspan, hbegin, hend⟩ := hts.inside
    refine Script.placed_singleton hspan (Script.Placed.grouping ?_)
    exact (ih hinside).widen hbegin hend
  | inversion hplace hopening _ hclosing ih | reflection hplace hopening _ hclosing ih =>
    obtain ⟨hinside, hspan, hbegin, hend⟩ := hts.inside
    have hle := (ih hinside).ordered.le
    refine Script.placed_singleton hspan
      (.of_part rfl trivial ?_ (nested_enclosed (ih hinside) hbegin))
    exact ⟨Int.le_refl _, Int.le_trans hbegin hle, hend⟩
  | @divided k t delimiter t' ts ts' scripts scripts' hplace hopening _ hdelimiter _ hclosing ih ih' =>
    obtain ⟨hinside, hspan, hbegin, hend⟩ :=
      TokensOrdered.inside (show TokensOrdered _ _ (t :: (ts ++ delimiter :: ts') ++ [t']) from hts)
    obtain ⟨hfront, hmiddle, hback⟩ := hinside.around
    have hle := (ih hfront).ordered.le
    have hle' := (ih' hback).ordered.le
    refine Script.placed_singleton (by simpa using hspan) (Script.nested_combine k
      (nested_enclosed (ih hfront) hbegin) (ih' hback).sequence ?_ ?_ (Or.inl hmiddle))
    · exact ⟨Int.le_refl _, Int.le_trans hbegin hle, Int.le_trans hmiddle (Int.le_trans hle' hend)⟩
    · exact ⟨Int.le_trans hbegin (Int.le_trans hle hmiddle), hle', hend⟩
  | prefixed ha _ ih =>
    obtain ⟨middle, hfront, hback⟩ := tokensOrdered_append.mp hts
    exact (placed_of_affixTokens ha hfront).wrap_behind (ih hback)
  | suffixed _ ha ih =>
    obtain ⟨middle, hfront, hback⟩ := tokensOrdered_append.mp hts
    exact Affix.Placed.wrap_front (ih hfront) (placed_of_affixTokens ha hback)
  | @operatorInFront k t t' ts ts' scripts s hopening hne _ hclosing _ ih ih' =>
    rw [List.append_cons] at hts
    obtain ⟨middle, hfront, hback⟩ := tokensOrdered_append.mp hts
    exact (placed_operatorAffix hfront (ih hfront.inside.1)).wrap_behind (ih' hback)
  | operatorBehind _ hopening hne _ hclosing ih ih' =>
    obtain ⟨middle, hfront, hback⟩ := tokensOrdered_append.mp hts
    exact Affix.Placed.wrap_front (ih hfront) (placed_operatorAffix hback (ih' hback.inside.1))
  | infixed _ hoperator _ ih ih' =>
    obtain ⟨hfront, hmiddle, hback⟩ := hts.around
    exact placed_infixed (ih hfront) hmiddle (ih' hback)

end Reading

namespace Grammar

variable {g : Grammar}

/-! ## Texts -/

theorem tokensOrdered_tokens (g : Grammar) (text : String) :
    TokensOrdered 0 text.toList.length (g.lexicon.tokens text.toList) := by
  have hordered := (g.lexicon.standsIn_of_tokensFrom 0 text.toList).1
  rw [Nat.zero_add] at hordered
  exact hordered

/-- **The places of scripts and errors can be used.** Whatever the macros are and whatever was parsed
before, a text that is parsed gives a script in which every node outside the bodies of macros lies in the
text, holds its parts, and has them apart from each other, those of a list in order. A text that is
refused is so at its tokens, or at its end, and at the use of a macro if the fault is in the macro. -/
theorem parse_places {n : Notation} {macros : Table String String} (hn : n.Built)
    (hnames : ∀ name ∈ macros.keys, name ≠ "") (texts : List String) (text : String) :
    ∃ g, Grammar.ofNotation n macros = .ok g ∧
      (∀ t ∈ g.lexicon.tokens text.toList, t.StandsIn 0 text.toList) ∧
      match g.parse text (g.memoryAfter texts) with
      | .ok root _ => ∀ node, root.Node node →
          node.span.Between 0 text.toList.length ∧
          (∀ part ∈ node.parts, part.span.Between node.span.start node.span.stop) ∧
          node.PartsApart
      | .error e _ =>
          e.span.Between 0 text.toList.length ∧
          e.span.Reaches (g.lexicon.tokens text.toList ++ [.endOfText text.toList.length]) ∧
          ∀ X, e.cause.identifier? = some X →
            ∃ t ∈ g.lexicon.tokens text.toList, t.text = X ∧ e.span = t.span := by
  obtain ⟨g, hg⟩ : ∃ g, Grammar.ofNotation n macros = .ok g :=
    ⟨_, ofNotation_of_worded hn.worded hnames⟩
  obtain ⟨hsound, hidle⟩ := g.sound_memoryAfter texts
  obtain ⟨-, -, hafresh⟩ := parse_of_sound hsound hidle text
  refine ⟨g, hg, (g.lexicon.standsIn_of_tokensFrom 0 text.toList).2, ?_⟩
  cases hparse : g.parse text (g.memoryAfter texts) with
  | ok root m =>
    rw [hparse] at hafresh
    obtain ⟨scripts, rfl, hderives⟩ := derives_of_parseAfresh hafresh.symm
    have hplaced := hderives.placed (g.tokensOrdered_tokens text)
    have hroot : (Script.sequence ⟨0, text.toList.length⟩ scripts).Nested := hplaced.sequence
    intro node hnode
    exact ⟨hroot.between hnode ⟨Int.le_refl _, hplaced.ordered.le, Int.le_refl _⟩,
      hroot node hnode⟩
  | error e m =>
    rw [hparse] at hafresh
    have hrefusal := refusal_of_parseAfresh hafresh.symm
    refine ⟨?_, hrefusal.place, hrefusal.use⟩
    refine TokensOrdered.between_of_reaches ?_ hrefusal.place
    exact tokensOrdered_append.mpr ⟨_, g.tokensOrdered_tokens text,
      Int.le_refl _, Int.le_refl _, Int.le_refl _⟩

theorem parse_places_nestedMacros : ∃ n g root m e m',
    n.Built ∧ (∀ name ∈ nestedMacros.keys, name ≠ "") ∧
    Grammar.ofNotation n nestedMacros = .ok g ∧
    g.parse "[U, Twice]' 2R" (g.memoryAfter ["Loop"]) = .ok root m ∧
    (∀ node, root.Node node → node.span.Between 0 14) ∧
    g.parse "R Loop" (g.memoryAfter ["Twice"]) = .error e m' ∧ e.span.Between 0 6 ∧
    ∃ t ∈ g.lexicon.tokens "R Loop".toList, t.text = "Loop" ∧ e.span = t.span := by
  let n := Notation.signed 2 (Nat.le_refl 2) .precircumfixed
  let g := builtIn 2 (Nat.le_refl 2) .precircumfixed nestedMacros
  have hdefault : Notation.default 2 = .ok n := rfl
  have hn : n.Built := .default hdefault
  have hnames : ∀ name ∈ nestedMacros.keys, name ≠ "" := by decide
  have hgrammar : Grammar.ofNotation n nestedMacros = .ok g := ofNotation_builtIn hnames
  obtain ⟨hscript, hloop, hcause⟩ :
      (outcome (g.parse "[U, Twice]' 2R" (g.memoryAfter ["Loop"]))).isOk = true ∧
      (outcome (g.parse "R Loop" (g.memoryAfter ["Twice"]))).isOk = false ∧
      (match outcome (g.parse "R Loop" (g.memoryAfter ["Twice"])) with
        | .ok _ => none
        | .error e => e.cause.identifier?) = some "Loop" := by
    decide +kernel
  obtain ⟨root, m, hparse⟩ := exists_eq_ok_of_isOk hscript
  obtain ⟨e, m', herror⟩ := exists_eq_error_of_isOk hloop
  obtain ⟨g₁, hg₁, -, hgiven⟩ := parse_places hn hnames ["Loop"] "[U, Twice]' 2R"
  obtain rfl : g = g₁ := Except.ok.inj (hgrammar.symm.trans hg₁)
  obtain ⟨g₂, hg₂, -, hrefused⟩ := parse_places hn hnames ["Twice"] "R Loop"
  obtain rfl : g = g₂ := Except.ok.inj (hgrammar.symm.trans hg₂)
  rw [herror] at hrefused hcause
  rw [hparse] at hgiven
  exact ⟨n, g, root, m, e, m', hn, hnames, hgrammar, hparse, fun node hnode => (hgiven node hnode).1,
    herror, hrefused.1, hrefused.2.2 "Loop" hcause⟩

end Grammar

end CubeLang
