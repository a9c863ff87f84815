import CubeLang.Proofs.Grammar.Derivation
import CubeLang.Proofs.Grammar.ErrorCauses

/-!
# What all readers have in common

Readers are made of few things: they give a result, they fail with an error that the tokens can be
refused with, they go on with what was read, and they use macros. A relation between readers that is
kept by the first three holds of every reader of the grammar, if it holds where macros are used. The
readers that are related differ in nothing but what they do there.
-/

set_option autoImplicit false

namespace CubeLang

variable {ι : Type}

/-- A relation between readers, here indexed by `ι`, that is kept when readers are composed, if they
fail with errors of some kind only. -/
structure ReaderRelation (P : ParseError → Prop) (T : ∀ {α : Type}, (ι → Reader α) → Prop) :
    Prop where
  done : ∀ {α : Type} (a : α), T fun _ => (pure a : Reader α)
  fail : ∀ {α : Type} {e : ParseError}, P e → T fun _ => (throw e : Reader α)
  /-- Only what the first readers give matters to the second ones. -/
  andThen : ∀ {α β : Type} {x : ι → Reader α} {f : ι → α → Reader β},
    T x → (∀ a, (∃ i m m', x i m = .ok a m') → T fun i => f i a) → T fun i => x i >>= f i

namespace ReaderRelation

variable {P : ParseError → Prop} {T : ∀ {α : Type}, (ι → Reader α) → Prop}

/-- Readers that branch alike are related if their branches are. -/
theorem branch {α : Type} {c : Prop} [Decidable c] {x y : ι → Reader α} (_ : ReaderRelation P @T)
    (hx : c → T x) (hy : ¬c → T y) : T fun i => if c then x i else y i := by
  by_cases hc : c
  · simpa only [if_pos hc] using hx hc
  · simpa only [if_neg hc] using hy hc

theorem lift {α : Type} {x : Except ParseError α} (hT : ReaderRelation P @T)
    (h : RefusedFor P x) : T fun _ => Reader.lift x := by
  cases x with
  | ok a => exact hT.done a
  | error e => exact hT.fail (h e rfl)

end ReaderRelation

namespace Reading

/-- The reading that does something else with the use of a macro. -/
def expanding (r : Reading) (expand : Token → Reader Script) : Reading := { r with expand }

variable {r : Reading} {expand : ι → Token → Reader Script} {ts : List Token}

@[simp] theorem grammar_expanding (r : Reading) (expand : Token → Reader Script) :
    (r.expanding expand).grammar = r.grammar := rfl

@[simp] theorem peek_expanding (r : Reading) (expand : Token → Reader Script) :
    (r.expanding expand).peek = r.peek := rfl

@[simp] theorem infixOf?_expanding (r : Reading) (expand : Token → Reader Script) :
    (r.expanding expand).infixOf? = r.infixOf? := rfl

/-! ## Without macros -/

theorem takeFaces_expanding (r : Reading) (expand : Token → Reader Script) (k : Nat)
    (ts : List Token) : (r.expanding expand).takeFaces k ts = r.takeFaces k ts := by
  have hface : (r.expanding expand).faceOf? = r.faceOf? := rfl
  induction k generalizing ts with
  | zero => rw [takeFaces, takeFaces]
  | succ k ih =>
    cases ts with
    | nil => rw [takeFaces, takeFaces]
    | cons t rest => rw [takeFaces, takeFaces, ih, hface]

theorem readPart_expanding (r : Reading) (expand : Token → Reader Script) (cycle : PartCycle)
    (ts : List Token) : (r.expanding expand).readPart cycle ts = r.readPart cycle ts := by
  simp only [readPart, takeFaces_expanding]
  rfl

/-- There are no macros in a cycle of parts. -/
theorem readParts_expanding (r : Reading) (expand : Token → Reader Script) (cycle : PartCycle)
    (ts : List Token) : (r.expanding expand).readParts cycle ts = r.readParts cycle ts := by
  cases ts with
  | nil =>
    rw [readParts, readParts]
    rfl
  | cons t rest =>
    rw [readParts, readParts, readPart_expanding]
    cases r.readPart cycle (t :: rest) with
    | error e => rfl
    | ok p =>
      obtain ⟨cycle', rest', hlt⟩ := p
      dsimp only
      rw [readParts_expanding r expand cycle' rest', readParts_expanding r expand cycle' rest'.tail]
      rfl
termination_by ts.length
decreasing_by all_goals (simp only [List.length_cons, List.length_tail] at *; omega)

theorem readPermutation_expanding (r : Reading) (expand : Token → Reader Script) (start : Nat)
    (leading : Option Token) (ts : List Token) :
    (r.expanding expand).readPermutation start leading ts = r.readPermutation start leading ts := by
  simp only [readPermutation, readParts_expanding]
  rfl

/-- What is left behind tokens that were read are tokens of the text. -/
theorem suffix_of_tokens {all rest : List Token} {Q : List Token → Prop}
    (h : ∃ us, ts = us ++ rest ∧ Q us) (hts : ts <:+ all) : rest <:+ all := by
  obtain ⟨us, htokens, -⟩ := h
  exact List.IsSuffix.trans ⟨us, htokens.symm⟩ hts

theorem suffix_of_inner {all : List Token} {bound : Nat} {inner : ι → Inner bound}
    {inside : ι → Expressions} (hreads : ∀ i, (inner i).ReadsAs (inside i))
    (hderives : ∀ i, (inside i).Derives (r.expanding (expand i))) {h : ts.length < bound}
    {p : Parsed ts.length Script} (hts : ts <:+ all) (hp : ∃ i m m', inner i ts h m = .ok p m') :
    p.rest <:+ all := by
  obtain ⟨i, m, m', hp⟩ := hp
  exact suffix_of_tokens (hderives i ((hreads i ..).mp ⟨p.shorter, hp⟩)) hts

section

variable {P : ParseError → Prop} {T : ∀ {α : Type}, (ι → Reader α) → Prop}
variable (hT : ReaderRelation P @T) {all : List Token} (hP : ∀ e, r.Refusal all e → P e)
include hT hP

/-- A failure at one of the tokens. -/
theorem related_throw {α : Type} {cause : ParseError.Cause} {t : Token} (ht : t ∈ r.toEnd all)
    (hcause : cause.Proper) (hnone : cause.identifier? = none) :
    T fun _ => (throw (.ofToken cause t) : Reader α) :=
  hT.fail (hP _ (refusal_ofToken ht hcause hnone))

theorem related_lift {α : Type} {x : Except ParseError α} (h : RefusedFor (r.Refusal all) x) :
    T fun _ => Reader.lift x :=
  hT.lift fun e he => hP e (h e he)

/-! ## Affixes -/

section

variable {bound : Nat} {inner : ι → Inner bound} {inside : ι → Expressions}
variable (hreads : ∀ i, (inner i).ReadsAs (inside i))
variable (hderives : ∀ i, (inside i).Derives (r.expanding (expand i)))
variable (hinner : ∀ ts h, ts <:+ all → T fun i => inner i ts h)
include hreads hderives hinner

theorem related_readOperator (opening : Token) (kinds : List BinaryKind) (before : List Script)
    (ts : List Token) (h : ts.length < bound) (hts : ts <:+ all) :
    T fun i => (r.expanding (expand i)).readOperator (inner i) opening kinds before ts h := by
  unfold readOperator
  refine hT.andThen (hinner _ _ hts) fun p hp => ?_
  have hrest := suffix_of_inner hreads hderives hts hp
  dsimp +instances only [grammar_expanding, peek_expanding]
  refine hT.branch (fun _ => ?_) fun _ => ?_
  · exact related_throw hT hP (mem_toEnd hrest (r.peek_mem_toEnd _)) trivial rfl
  split
  · exact hT.done _
  · have hshort := p.shorter
    exact hT.andThen (related_readOperator opening kinds _ p.rest _ hrest) fun _ _ => hT.done _
termination_by ts.length

theorem related_readAffix? (place : Fixity) (ts : List Token) (h : ts.length ≤ bound)
    (hts : ts <:+ all) :
    T fun i => (r.expanding (expand i)).readAffix? place ts ((inner i).restrict h) := by
  cases ts with
  | nil => exact hT.done none
  | cons t rest =>
    have hstart : ∀ i, (r.expanding (expand i)).affixStart? place t = r.affixStart? place t :=
      fun _ => rfl
    simp only [readAffix?_cons, hstart]
    cases r.affixStart? place t with
    | none => exact hT.done none
    | some start =>
      cases start with
      | count =>
        exact hT.andThen (related_lift hT hP (x := r.readCount (t :: rest)) fun e he =>
          (refused_of_readCount e he).mono hts) fun p _ => hT.done (some p)
      | operator kinds =>
        have hrest : rest <:+ all := (List.suffix_cons t rest).trans hts
        exact hT.andThen (related_readOperator hT hP (fun i => (hreads i).restrict _) hderives
          (fun ts _ => hinner ts _) t kinds [] rest _ hrest) fun _ _ => hT.done _
      | single operation => exact hT.done _

omit hT hP hinner in
/-- What is left behind an affix are tokens of the text. -/
theorem suffix_of_readAffix? {place : Fixity} {ts : List Token} {h : ts.length ≤ bound}
    {p : Parsed ts.length Affix} (hts : ts <:+ all)
    (hp : ∃ i m m', (r.expanding (expand i)).readAffix? place ts ((inner i).restrict h) m =
      .ok (some p) m') : p.rest <:+ all := by
  obtain ⟨i, m, m', hp⟩ := hp
  have haffix := ReadsAffix.of_read ((hreads i).restrict h) hp
  exact suffix_of_tokens (haffix.derives (hderives i)) hts

theorem related_readPrefixes (ts : List Token) (h : ts.length ≤ bound) (hts : ts <:+ all) :
    T fun i => (r.expanding (expand i)).readPrefixes (inner i) ts h := by
  unfold readPrefixes
  refine hT.andThen (related_readAffix? hT hP hreads hderives hinner .prefixed ts h hts) fun o ho => ?_
  cases o with
  | none => exact hT.done _
  | some p =>
    have hrest := suffix_of_readAffix? hreads hderives hts ho
    have hshort := p.shorter
    exact hT.andThen (related_readPrefixes p.rest _ hrest) fun _ _ => hT.done _
termination_by ts.length

theorem related_readSuffixes (s : Script) (ts : List Token) (h : ts.length ≤ bound)
    (hts : ts <:+ all) :
    T fun i => (r.expanding (expand i)).readSuffixes (inner i) s ts h := by
  unfold readSuffixes
  refine hT.andThen (related_readAffix? hT hP hreads hderives hinner .suffixed ts h hts) fun o ho => ?_
  cases o with
  | none => exact hT.done _
  | some p =>
    have hrest := suffix_of_readAffix? hreads hderives hts ho
    have hshort := p.shorter
    exact hT.andThen (related_readSuffixes _ p.rest _ hrest) fun _ _ => hT.done _
termination_by ts.length

/-! ## Statements -/

theorem related_readCompound {opening : Token} {us : List Token} (hus : opening :: us <:+ all)
    (c : Compound) (ts : List Token) (h : ts.length < bound) (hts : ts <:+ us) :
    T fun i => (r.expanding (expand i)).readCompound (inner i) opening.start c ts h := by
  have hall : ts <:+ all := hts.trans ((List.suffix_cons opening us).trans hus)
  unfold readCompound
  cases ts with
  | nil => exact related_throw hT hP (mem_toEnd hall (r.peek_mem_toEnd [])) trivial rfl
  | cons t rest =>
    have hclosed : ∀ i, (r.expanding (expand i)).closedBy t = r.closedBy t := fun _ => rfl
    have hdivided : ∀ i, (r.expanding (expand i)).dividedBy t = r.dividedBy t := fun _ => rfl
    have ht : t ∈ r.toEnd all := mem_toEnd hall (r.peek_mem_toEnd (t :: rest))
    dsimp only
    simp only [hclosed, hdivided]
    refine hT.branch (fun _ => ?_) fun _ => hT.branch (fun _ => ?_) fun _ => ?_
    · exact hT.andThen (related_lift hT hP (refused_of_close hus (hts.subset List.mem_cons_self)))
        fun _ _ => hT.done _
    · refine hT.branch (fun _ => related_throw hT hP ht trivial rfl) fun _ => ?_
      refine hT.branch (fun _ => related_throw hT hP ht trivial rfl) fun _ => ?_
      exact hT.andThen (related_readCompound hus _ rest _ ((List.suffix_cons t rest).trans hts))
        fun _ _ => hT.done _
    · refine hT.andThen (hinner _ _ hall) fun p hp => ?_
      have hshort := p.shorter
      have hrest : p.rest <:+ us := suffix_of_inner hreads hderives hts hp
      exact hT.andThen (related_readCompound hus _ p.rest _ hrest) fun _ _ => hT.done _
termination_by ts.length

variable (hexpand : ∀ t ∈ all, r.grammar.macros.contains t.text = true → T fun i => expand i t)
include hexpand

theorem related_readStatement (ts : List Token) (h : ts.length ≤ bound) (hts : ts <:+ all) :
    T fun i => (r.expanding (expand i)).readStatement ts ((inner i).restrict h) := by
  cases ts with
  | nil => exact related_throw hT hP (mem_toEnd hts (r.peek_mem_toEnd [])) trivial rfl
  | cons t rest =>
    have ht : t ∈ all := hts.subset List.mem_cons_self
    have ht' : t ∈ r.toEnd all := List.mem_append_left _ ht
    have hrest : rest <:+ all := (List.suffix_cons t rest).trans hts
    have hpermutation : ∀ (leading : Option Token) (ts : List Token) (h : ts.length ≤ rest.length),
        (∀ t' ∈ leading, t' = t) → ts <:+ all → T fun i => (do
          let p ← Reader.lift ((r.expanding (expand i)).readPermutation t.start leading ts)
          return p.widen (Nat.le_succ_of_le h) : Reader (Parsed (t :: rest).length Script)) := by
      intro leading ts h hleading hts
      simp only [readPermutation_expanding]
      exact hT.andThen (related_lift hT hP (refused_of_readPermutation
        (fun t' ht' => hleading t' ht' ▸ ht) hts)) fun p _ => hT.done _
    have hstart : ∀ i, (r.expanding (expand i)).statementStart? t = r.statementStart? t := fun _ => rfl
    have hopens : ∀ i, (r.expanding (expand i)).opensCycle t rest = r.opensCycle t rest := fun _ => rfl
    have hopened : ∀ i, (r.expanding (expand i)).openedBy t = r.openedBy t := fun _ => rfl
    simp only [readStatement_cons, hstart, hopens, hopened]
    cases hstatement : r.statementStart? t with
    | none => exact related_throw hT hP ht' trivial rfl
    | some start =>
      cases start with
      | move move => exact hT.done _
      | macroUse =>
        exact hT.andThen (hexpand t ht (known_of_statementStart? hstatement).2) fun _ _ => hT.done _
      | nop => exact hT.done _
      | sign =>
        dsimp +instances only [grammar_expanding, peek_expanding]
        refine hT.branch (fun _ => ?_) fun _ => hpermutation _ _ (length_tail_le_self rest)
          (fun t' ht' => (Option.some.inj ht').symm) ((List.tail_suffix rest).trans hrest)
        exact related_throw hT hP (mem_toEnd hrest (r.peek_mem_toEnd _)) trivial rfl
      | bracket =>
        refine hT.branch (fun _ => hpermutation _ _ (length_le_self rest)
          (fun t' ht' => by contradiction) hrest) fun _ => ?_
        refine hT.branch (fun _ => related_throw hT hP ht' trivial rfl) fun _ => ?_
        exact hT.andThen (related_readCompound hT hP (fun i => (hreads i).restrict _) hderives
          (fun ts _ => hinner ts _) hts _ rest _ (List.suffix_refl _)) fun _ _ => hT.done _

/-! ## Expressions -/

theorem related_readConstruct (ts : List Token) (h : ts.length ≤ bound) (hts : ts <:+ all) :
    T fun i => (r.expanding (expand i)).readConstruct ts ((inner i).restrict h) := by
  have hreads' : ∀ i, ((inner i).restrict h).ReadsAs (inside i) := fun i => (hreads i).restrict h
  unfold readConstruct
  refine hT.andThen (related_readPrefixes hT hP hreads' hderives (fun ts _ => hinner ts _) ts _
    hts) fun p hp => ?_
  obtain ⟨affixes, rest, hrest⟩ := p
  have hle : rest.length ≤ bound := Nat.le_trans (Nat.le_of_lt_succ hrest) h
  have hrest' : rest <:+ all := by
    obtain ⟨i, m, m', hp⟩ := hp
    have hprefixes := ReadsPrefixes.of_reads (hreads' i) ⟨hrest, hp⟩
    exact suffix_of_tokens (hprefixes.derives (hderives i)) hts
  refine hT.andThen (related_readStatement hT hP hreads hderives hinner hexpand rest hle hrest')
    fun p' hp' => ?_
  obtain ⟨s, rest', hshort⟩ := p'
  have hbehind : rest' <:+ all := by
    obtain ⟨i, m, m', hp'⟩ := hp'
    have hstatement := ReadsStatement.of_reads ((hreads i).restrict hle) ⟨hshort, hp'⟩
    exact suffix_of_tokens (hstatement.derives (hderives i)) hrest'
  exact hT.andThen (related_readSuffixes hT hP hreads' hderives (fun ts _ => hinner ts _) _ rest' _
    hbehind) fun _ _ => hT.done _

end

section

variable (hexpand : ∀ t ∈ all, r.grammar.macros.contains t.text = true → T fun i => expand i t)
include hexpand

theorem related_readExpression (ts : List Token) (hts : ts <:+ all) :
    T fun i => (r.expanding (expand i)).readExpression ts := by
  have hinner : ∀ (ts' : List Token) (_ : ts'.length < ts.length), ts' <:+ all →
      T fun i => (r.expanding (expand i)).readExpression ts' :=
    fun ts' h => related_readExpression ts'
  have hreads : ∀ i, Inner.ReadsAs (fun (ts' : List Token) (_ : ts'.length < ts.length) =>
      (r.expanding (expand i)).readExpression ts') (r.expanding (expand i)).expressions :=
    fun _ _ _ _ _ _ _ => Iff.rfl
  have hderives : ∀ i, (r.expanding (expand i)).expressions.Derives (r.expanding (expand i)) :=
    fun i => derives_expressions _
  unfold readExpression
  refine hT.andThen (related_readConstruct hT hP hreads hderives hinner hexpand ts
    (length_le_self ts) hts) fun p hp => ?_
  obtain ⟨s, rest, hrest⟩ := p
  have hrest' : rest <:+ all := by
    obtain ⟨i, m, m', hp⟩ := hp
    have hconstruct := ReadsConstruct.of_reads (hreads i) ⟨hrest, hp⟩
    exact suffix_of_tokens (hconstruct.derives (hderives i)) hts
  dsimp +instances only [peek_expanding, infixOf?_expanding]
  split
  · exact hT.done _
  · rename_i k f hoperator
    have htail := length_tail_le_self rest
    exact hT.andThen (related_readExpression rest.tail ((List.tail_suffix rest).trans hrest'))
      fun _ _ => hT.done _
termination_by ts.length

/-- Readings that do related things with the use of a macro read related scripts. -/
theorem related_readAll (ts : List Token) (hts : ts <:+ all) :
    T fun i => (r.expanding (expand i)).readAll ts := by
  unfold readAll
  cases ts with
  | nil => exact hT.done []
  | cons t rest =>
    refine hT.andThen (related_readExpression hT hP hexpand (t :: rest) hts) fun p hp => ?_
    obtain ⟨s, rest', hlt⟩ := p
    have hle : rest'.length ≤ rest.length := Nat.le_of_lt_succ hlt
    have hrest : rest' <:+ all := by
      obtain ⟨i, m, m', hp⟩ := hp
      exact suffix_of_tokens (derives_expressions _ ⟨hlt, hp⟩) hts
    exact hT.andThen (related_readAll rest' hrest) fun _ _ => hT.done _
termination_by ts.length

end

end

end Reading

end CubeLang
