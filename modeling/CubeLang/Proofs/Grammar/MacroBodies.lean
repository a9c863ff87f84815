import CubeLang.Proofs.Grammar.Leaves
import CubeLang.Proofs.Grammar.MacroMemory
import CubeLang.Proofs.Notation.Built
import Mathlib.Logic.Relation

/-!
# The bodies of macros

Every text is a script or is refused for a reason of its own. The bodies of the macros that a script
uses, and of those that these bodies use, are the scripts of the macros' own texts, as a new parser
reads them. No such macro uses itself, neither in its own text nor through others: each body was read
without the macros around it.
-/

set_option autoImplicit false

namespace CubeLang.Grammar

variable {g : Grammar} {usable usable' : List String} {text X Y : String} {body root : Script}

/-! ## Errors -/

/-- Whether all errors of a step are of some kind. -/
def FailsWith (P : ParseError → Prop) {α : Type} (f : Unit → Reader α) : Prop :=
  ∀ m e m', f () m = .error e m' → P e

theorem readerRelation_failsWith (P : ParseError → Prop) :
    ReaderRelation (ι := Unit) P (FailsWith P) where
  done _ _ _ _ h := by contradiction
  fail he _ _ _ h := (EStateM.Result.error.inj h).1 ▸ he
  andThen := by
    intro α β x f hx hf m e m' h
    have h : (x () >>= f ()) m = .error e m' := h
    cases hstep : x () m with
    | ok a m₁ =>
      rw [bind_of_ok hstep] at h
      exact hf a ⟨(), _, _, hstep⟩ _ _ _ h
    | error e₁ m₁ =>
      rw [bind_of_error hstep] at h
      obtain ⟨rfl, rfl⟩ := EStateM.Result.error.inj h
      exact hx _ _ _ hstep

theorem FailsWith.wholeText {P : ParseError → Prop} (length : Nat)
    {x : Unit → Reader (List Script)} (hx : FailsWith P x) :
    FailsWith P fun i => wholeText length (x i) := by
  intro m e m' h
  have h : Grammar.wholeText length (x ()) m = .error e m' := h
  unfold Grammar.wholeText at h
  cases hread : x () m with
  | ok scripts m₁ =>
    rw [hread] at h
    contradiction
  | error e₁ m₁ =>
    rw [hread] at h
    obtain ⟨rfl, -⟩ := EStateM.Result.error.inj h
    exact hx _ _ _ hread

/-- A text is refused with an error at its tokens. An error in the body of a macro is one at the token
that uses the macro. -/
theorem refusal_of_parseAfresh {usable : List String} {text : String} {e : ParseError}
    (h : g.parseAfresh usable text = .error e) :
    (g.reading [] text.toList.length).Refusal (g.lexicon.tokens text.toList) e := by
  have hat : ∀ t ∈ g.lexicon.tokens text.toList, ∀ cause : ParseError.Cause, cause.Proper →
      cause.identifier? = some t.text → (g.reading [] text.toList.length).Refusal
        (g.lexicon.tokens text.toList) (.ofToken cause t) := by
    intro t ht cause hcause hidentifier
    refine ⟨hcause, Reading.reaches_of_mem (List.mem_append_left _ ht), fun X hX => ⟨t, ht, ?_, rfl⟩⟩
    exact Option.some.inj (hidentifier.symm.trans hX)
  have hexpand : ∀ t ∈ g.lexicon.tokens text.toList, FailsWith
      ((g.reading [] text.toList.length).Refusal (g.lexicon.tokens text.toList)) fun _ =>
        Reader.lift (g.expandAfresh usable t) := by
    intro t ht m e m' hread
    have hexpand : g.expandAfresh usable t = .error e := by
      rw [← outcome_lift (g.expandAfresh usable t) m]
      exact congrArg outcome hread
    unfold expandAfresh at hexpand
    split at hexpand
    · rename_i husable
      split at hexpand
      · rename_i e' hbody
        obtain rfl := Except.error.inj hexpand
        have := length_without_lt husable
        exact hat t ht _ (refusal_of_parseAfresh hbody).cause rfl
      · contradiction
    · obtain rfl := Except.error.inj hexpand
      exact hat t ht _ trivial rfl
  have hread : FailsWith ((g.reading [] text.toList.length).Refusal
      (g.lexicon.tokens text.toList)) fun _ => g.readAfresh usable text :=
    related_parseBy (readerRelation_failsWith _) (fun _ he => he) (fun t ht _ => hexpand t ht)
      (fun length _ => FailsWith.wholeText length)
  rw [parseAfresh_eq] at h
  cases hafresh : g.readAfresh usable text {} with
  | ok root m =>
    rw [hafresh] at h
    contradiction
  | error e' m =>
    rw [hafresh] at h
    obtain rfl := Except.error.inj h
    exact hread _ _ _ hafresh
termination_by usable.length

/-- A text is refused for a cause that a text can give. -/
theorem proper_of_parseAfresh {e : ParseError} (h : g.parseAfresh usable text = .error e) :
    e.Proper := (refusal_of_parseAfresh h).cause

/-! ## More macros -/

/-- Two steps of which the second gives whatever the first gives. -/
def Refines {α : Type} (f : Bool → Reader α) : Prop :=
  ∀ m a m', f false m = .ok a m' → f true m = .ok a m'

theorem readerRelation_refines : ReaderRelation (ι := Bool) (fun _ => True) Refines where
  done _ _ _ _ h := h
  fail _ _ _ _ h := h
  andThen := by
    intro α β x f hx hf m b m' h
    obtain ⟨a, m₁, hstep, h⟩ := exists_of_bind_eq_ok h
    exact (bind_of_ok (hx _ _ _ hstep)).trans (hf a ⟨false, _, _, hstep⟩ _ _ _ h)

theorem Refines.wholeText (length : Nat) {x : Bool → Reader (List Script)} (hx : Refines x) :
    Refines fun b => wholeText length (x b) := by
  intro m root m' h
  have h : Grammar.wholeText length (x false) m = .ok root m' := h
  show Grammar.wholeText length (x true) m = .ok root m'
  unfold Grammar.wholeText at h ⊢
  cases hread : x false m with
  | ok scripts m₁ =>
    rw [hread] at h
    rw [hx _ _ _ hread]
    exact h
  | error e m₁ =>
    rw [hread] at h
    contradiction

theorem expandAfresh_eq_ok_iff {t : Token} : g.expandAfresh usable t = .ok body ↔
    t.text ∈ usable ∧ g.parseAfresh (without usable t.text) (g.macroText t.text) = .ok body := by
  unfold expandAfresh
  by_cases husable : t.text ∈ usable
  · rw [if_pos husable]
    cases g.parseAfresh (without usable t.text) (g.macroText t.text) <;> simp [husable]
  · simp [husable]

/-- A script stays the same if more macros may be used. -/
theorem parseAfresh_mono {usable usable' : List String} {text : String} {root : Script}
    (h : usable ⊆ usable') (hparse : g.parseAfresh usable text = .ok root) :
    g.parseAfresh usable' text = .ok root := by
  have hexpand : ∀ t : Token, Refines fun b =>
      Reader.lift (g.expandAfresh (cond b usable' usable) t) := by
    intro t m body m' hread
    obtain ⟨hexpand, rfl⟩ := Reading.eq_ok_of_lift hread
    obtain ⟨husable, hbody⟩ := expandAfresh_eq_ok_iff.mp hexpand
    have hsubset : without usable t.text ⊆ without usable' t.text := by
      intro Y hY
      rw [mem_without] at hY ⊢
      exact ⟨h hY.1, hY.2⟩
    have := length_without_lt husable
    exact Reading.lift_of_ok (expandAfresh_eq_ok_iff.mpr ⟨h husable, parseAfresh_mono hsubset hbody⟩)
  have hread : Refines fun b => g.readAfresh (cond b usable' usable) text :=
    related_parseBy readerRelation_refines (fun _ _ => trivial) (fun t _ _ => hexpand t)
      (fun length _ => Refines.wholeText length)
  rw [parseAfresh_eq] at hparse ⊢
  cases hafresh : g.readAfresh usable text {} with
  | error e m =>
    rw [hafresh] at hparse
    contradiction
  | ok root' m =>
    rw [hafresh] at hparse
    have hafresh' : g.readAfresh usable' text {} = .ok root' m := hread _ _ _ hafresh
    rw [hafresh']
    exact hparse
termination_by usable.length

/-! ## The bodies in a script -/

/-- The reading of a text of some length without a memory. -/
def readingAfresh (g : Grammar) (usable : List String) (length : Nat) : Reading where
  grammar := g
  length := length
  expand := fun t => Reader.lift (g.expandAfresh usable t)

/-- A text is parsed if all of it is read. -/
theorem parseAfresh_eq_ok_iff : g.parseAfresh usable text = .ok root ↔ ∃ scripts m,
    (g.readingAfresh usable text.toList.length).readAll (g.lexicon.tokens text.toList) {} =
      .ok scripts m ∧ root = .sequence ⟨0, text.toList.length⟩ scripts := by
  have hread : g.parseAfresh usable text = outcome (wholeText text.toList.length
      ((g.readingAfresh usable text.toList.length).readAll (g.lexicon.tokens text.toList)) {}) := by
    rw [parseAfresh_eq]
    rfl
  rw [hread, outcome_wholeText]
  cases (g.readingAfresh usable text.toList.length).readAll (g.lexicon.tokens text.toList) {} with
  | error e m => simp [outcome, Except.map]
  | ok scripts m => simp [outcome, Except.map, eq_comm]

/-- A text that is parsed consists of the tokens of its scripts. -/
theorem derives_of_parseAfresh (h : g.parseAfresh usable text = .ok root) :
    ∃ scripts, root = .sequence ⟨0, text.toList.length⟩ scripts ∧
      (g.readingAfresh usable text.toList.length).Derives (g.lexicon.tokens text.toList) scripts := by
  obtain ⟨scripts, m, hscripts, hroot⟩ := parseAfresh_eq_ok_iff.mp h
  exact ⟨scripts, hroot, Reading.derives_readAll hscripts⟩

/-- The body of a macro that is used is what its own text gives with the other macros. -/
theorem parseAfresh_of_leaf {span : Span} (h : g.parseAfresh usable text = .ok root)
    (hleaf : .macroUse span X body ∈ root.leaves) :
    X ∈ usable ∧ g.parseAfresh (without usable X) (g.macroText X) = .ok body := by
  obtain ⟨scripts, rfl, hderives⟩ := derives_of_parseAfresh h
  cases hderives.leaves _ hleaf with
  | macroUse hbody => exact expandAfresh_eq_ok_iff.mp (Reading.eq_ok_of_lift hbody).1

/-- The same of every macro that is reached. Its body was read without itself. -/
theorem parseAfresh_of_reaches (hreaches : root.Reaches X body)
    (h : g.parseAfresh usable text = .ok root) :
    X ∈ usable ∧ ∃ others, others ⊆ usable ∧ X ∉ others ∧
      g.parseAfresh others (g.macroText X) = .ok body := by
  induction hreaches generalizing usable text with
  | here hleaf =>
    obtain ⟨husable, hbody⟩ := parseAfresh_of_leaf h hleaf
    exact ⟨husable, _, without_subset .., by simp, hbody⟩
  | inside hleaf _ ih =>
    obtain ⟨-, hinner⟩ := parseAfresh_of_leaf h hleaf
    obtain ⟨husable, others, hothers, hX, hbody⟩ := ih hinner
    exact ⟨(mem_without.mp husable).1, others,
      List.Subset.trans hothers (without_subset ..), hX, hbody⟩

/-! ## What a parser gives -/

/-- Whether the script of a macro uses another macro, or the macro itself. -/
def Refers (g : Grammar) (X Y : String) : Prop :=
  ∃ body span other, outcome (g.parse (g.macroText X) {}) = .ok body ∧
    .macroUse span Y other ∈ body.leaves

theorem outcome_parse (g : Grammar) (text : String) :
    outcome (g.parse text {}) = g.parseAfresh g.macros.keys text :=
  (parse_of_sound g.sound_empty rfl text).2.2

/-- What the script of a macro refers to, directly or through other macros, is reached from it. -/
theorem reaches_of_transGen (h : outcome (g.parse (g.macroText X) {}) = .ok body)
    (hrefers : Relation.TransGen g.Refers X Y) : ∃ other, body.Reaches Y other := by
  induction hrefers using Relation.TransGen.head_induction_on generalizing body with
  | single hrefers =>
    obtain ⟨body', span, other, hbody', hleaf⟩ := hrefers
    obtain rfl := Except.ok.inj (h.symm.trans hbody')
    exact ⟨other, .here hleaf⟩
  | head hrefers _ ih =>
    obtain ⟨body', span, inner, hbody', hleaf⟩ := hrefers
    obtain rfl := Except.ok.inj (h.symm.trans hbody')
    rw [outcome_parse] at h
    obtain ⟨-, hinner⟩ := parseAfresh_of_leaf h hleaf
    have hinner' := parseAfresh_mono (without_subset ..) hinner
    rw [← outcome_parse] at hinner'
    obtain ⟨other, hother⟩ := ih hinner'
    exact ⟨other, .inside hleaf hother⟩

/-- A macro that is reached from a script has a text of its own that gives its body, and does not
refer to itself. -/
theorem macro_of_reaches (hparse : g.parseAfresh g.macros.keys text = .ok root)
    (hreaches : root.Reaches X body) :
    X ∈ g.macros.keys ∧ outcome (g.parse (g.macroText X) {}) = .ok body ∧
      ¬Relation.TransGen g.Refers X X := by
  obtain ⟨hknown, others, hothers, hX, hbody⟩ := parseAfresh_of_reaches hreaches hparse
  have hfresh : outcome (g.parse (g.macroText X) {}) = .ok body := by
    rw [outcome_parse]
    exact parseAfresh_mono hothers hbody
  refine ⟨hknown, hfresh, fun hcycle => ?_⟩
  obtain ⟨other, hother⟩ := reaches_of_transGen hfresh hcycle
  exact hX (parseAfresh_of_reaches hother hbody).1

/-- Every text is parsed or refused, whatever the macros are and whatever was parsed before. It is taken
apart into tokens to its end, an allowance of as many bodies inside one another as there are macros is
never used up, and the cause of an error is one that a text can give. If it is parsed, every macro that
is reached has the body that a new parser gives for its text, and none refers to itself. -/
theorem parse_total {n : Notation} {macros : Table String String} (hn : n.Built)
    (hnames : ∀ name ∈ macros.keys, name ≠ "") (texts : List String) (text : String) :
    ∃ g, Grammar.ofNotation n macros = .ok g ∧
      (∀ text' : String, (g.lexicon.tokensFrom 0 text'.toList).2 = none) ∧
      (∀ overflow, g.parseNested overflow g.macros.keys.toFinset.card text (g.memoryAfter texts) =
        g.parse text (g.memoryAfter texts)) ∧
      match g.parse text (g.memoryAfter texts) with
      | .error e _ => e.Proper
      | .ok root _ => ∀ X body, root.Reaches X body → X ∈ g.macros.keys ∧
          outcome (g.parse (g.macroText X) {}) = .ok body ∧ ¬Relation.TransGen g.Refers X X := by
  obtain ⟨g, hg⟩ : ∃ g, Grammar.ofNotation n macros = .ok g :=
    ⟨_, ofNotation_of_worded hn.worded hnames⟩
  obtain ⟨hsound, hidle⟩ := g.sound_memoryAfter texts
  obtain ⟨-, -, hafresh⟩ := parse_of_sound hsound hidle text
  refine ⟨g, hg, fun text' => tokensFrom_ending hn.worded hnames hg 0 text'.toList,
    fun overflow => ?_, ?_⟩
  · have hsame := sameInside_parse (g := g) overflow g.macros.keys.toFinset.card g.macros.keys []
      (fun X hX _ => hX) (Finset.card_le_card Finset.sdiff_subset) text
    exact (hsame _ hidle).1
  · cases hparse : g.parse text (g.memoryAfter texts) with
    | error e m =>
      rw [hparse] at hafresh
      exact proper_of_parseAfresh hafresh.symm
    | ok root m =>
      rw [hparse] at hafresh
      intro X body hreaches
      exact macro_of_reaches hafresh.symm hreaches

/-- Macros of which one uses another one, and one uses itself. -/
def nestedMacros : Table String String :=
  ⟨[("Turn", "U R'"), ("Twice", "Turn Turn"), ("Loop", "Twice Loop")]⟩

theorem parse_total_nestedMacros : ∃ n g root m body e m',
    n.Built ∧ (∀ name ∈ nestedMacros.keys, name ≠ "") ∧
    Grammar.ofNotation n nestedMacros = .ok g ∧
    g.parse "Twice" (g.memoryAfter ["Loop"]) = .ok root m ∧ root.Reaches "Turn" body ∧
    outcome (g.parse (g.macroText "Turn") {}) = .ok body ∧
    ¬Relation.TransGen g.Refers "Turn" "Turn" ∧
    g.parse "Loop" (g.memoryAfter []) = .error e m' ∧ e.Proper := by
  let n := Notation.signed 2 (Nat.le_refl 2) .precircumfixed
  let g := builtIn 2 (Nat.le_refl 2) .precircumfixed nestedMacros
  have hdefault : Notation.default 2 = .ok n := rfl
  have hn : n.Built := .default hdefault
  have hnames : ∀ name ∈ nestedMacros.keys, name ≠ "" := by decide
  have hgrammar : Grammar.ofNotation n nestedMacros = .ok g := ofNotation_builtIn hnames
  obtain ⟨htwice, hturn, hloop⟩ :
      (outcome (g.parse "Twice" (g.memoryAfter ["Loop"]))).isOk = true ∧
      (((outcome (g.parse "Twice" (g.memoryAfter ["Loop"]))).toOption.bind
        (Script.usedBody? "Twice")).bind (Script.usedBody? "Turn")).isSome = true ∧
      (outcome (g.parse "Loop" (g.memoryAfter []))).isOk = false := by
    decide +kernel
  obtain ⟨root, m, hparse⟩ := exists_eq_ok_of_isOk htwice
  obtain ⟨e, m', herror⟩ := exists_eq_error_of_isOk hloop
  obtain ⟨g₁, hg₁, -, -, hgiven⟩ := parse_total hn hnames ["Loop"] "Twice"
  obtain rfl : g = g₁ := Except.ok.inj (hgrammar.symm.trans hg₁)
  obtain ⟨g₂, hg₂, -, -, hrefused⟩ := parse_total hn hnames [] "Loop"
  obtain rfl : g = g₂ := Except.ok.inj (hgrammar.symm.trans hg₂)
  rw [herror] at hrefused
  rw [hparse] at hgiven hturn
  obtain ⟨body, hbody⟩ := Option.isSome_iff_exists.mp hturn
  obtain ⟨inner, houter, hinner⟩ := Option.bind_eq_some_iff.mp hbody
  obtain ⟨span, hmem⟩ := Script.exists_mem_leaves_of_usedBody? houter
  obtain ⟨span', hmem'⟩ := Script.exists_mem_leaves_of_usedBody? hinner
  have hreaches : root.Reaches "Turn" body := .inside hmem (.here hmem')
  obtain ⟨-, hgives, hacyclic⟩ := hgiven _ _ hreaches
  exact ⟨n, g, root, m, body, e, m', hn, hnames, hgrammar, hparse, hreaches, hgives, hacyclic,
    herror, hrefused⟩

end CubeLang.Grammar
