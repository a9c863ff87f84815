import CubeLang.Proofs.Grammar.MacroNesting

/-!
# What a parser remembers

A parser remembers the bodies of macros, also those that it came across in a text that it refused. What
it remembers is what it would find again: the body of a macro was read with macros that are remembered
too and that are not being read, so it is the same wherever the macro is used. So a text is parsed the
same way whatever texts were parsed before.
-/

set_option autoImplicit false

namespace CubeLang

/-- Whether the body of a macro is remembered. -/
def Memory.Knows (m : Memory) (identifier : String) : Prop := m.bodies.contains identifier = true

namespace Memory

variable {m : Memory} {X Y : String}

theorem knows_keep {body : Script} : (m.keep X body).Knows Y ↔ X = Y ∨ m.Knows Y := by
  unfold Knows keep report Table.contains
  rw [Table.get?_put]
  by_cases h : X = Y <;> simp [h]

theorem exists_body (h : m.Knows X) : ∃ body, m.bodies.get? X = some body :=
  Option.isSome_iff_exists.mp h

end Memory

namespace Grammar

variable {g : Grammar} {usable available inProgress : List String} {text : String}

/-! ## Parsing without a memory -/

/-- Some names without one of them. -/
def without (names : List String) (X : String) : List String := names.filter fun Y => Y ≠ X

@[simp] theorem mem_without {names : List String} {X Y : String} :
    Y ∈ without names X ↔ Y ∈ names ∧ Y ≠ X := by simp [without]

theorem without_subset (names : List String) (X : String) : without names X ⊆ names :=
  fun _ hY => (mem_without.mp hY).1

theorem length_without_lt {names : List String} {X : String} (h : X ∈ names) :
    (without names X).length < names.length :=
  List.length_filter_lt_length_iff_exists.mpr ⟨X, h, by simp⟩

/-- Parses a text without a memory, so that the body of a macro is parsed at each use. Only some macros
are usable, in a body all of these but its own. -/
def parseAfresh (g : Grammar) (usable : List String) (text : String) : Except ParseError Script :=
  let expand (t : Token) : Except ParseError Script :=
    if _usable : t.text ∈ usable then
      match g.parseAfresh (without usable t.text) (g.macroText t.text) with
      | .error e => .error (.ofToken (.inMacro t.text e.cause) t)
      | .ok body => .ok body
    else .error (.ofToken (.macroInItself t.text) t)
  outcome (g.parseBy (fun t => Reader.lift (expand t)) text {})
termination_by usable.length
decreasing_by exact length_without_lt _usable

/-- What the use of a macro stands for without a memory. -/
def expandAfresh (g : Grammar) (usable : List String) (t : Token) : Except ParseError Script :=
  if t.text ∈ usable then
    match g.parseAfresh (without usable t.text) (g.macroText t.text) with
    | .error e => .error (.ofToken (.inMacro t.text e.cause) t)
    | .ok body => .ok body
  else .error (.ofToken (.macroInItself t.text) t)

/-- The reader of texts without a memory. -/
def readAfresh (g : Grammar) (usable : List String) (text : String) : Reader Script :=
  g.parseBy (fun t => Reader.lift (g.expandAfresh usable t)) text

theorem parseAfresh_eq (g : Grammar) (usable : List String) (text : String) :
    g.parseAfresh usable text = outcome (g.readAfresh usable text {}) := by
  rw [parseAfresh]
  rfl

/-! ## Sound memories -/

/-- Whether what is remembered is what would be found again: the bodies of macros that are not being
read, each of them what is read without a memory if the other macros that are remembered are usable. -/
structure Sound (g : Grammar) (m : Memory) : Prop where
  isMacro : ∀ X, m.Knows X → X ∈ g.macros.keys
  idle : ∀ X, m.Knows X → X ∉ m.inProgress
  body : ∀ X body, m.bodies.get? X = some body → ∀ usable : List String,
    (∀ Y, m.Knows Y → Y ≠ X → Y ∈ usable) → g.parseAfresh usable (g.macroText X) = .ok body

theorem sound_empty (g : Grammar) : g.Sound {} where
  isMacro _ h := by simp [Memory.Knows, Table.contains] at h
  idle _ h := by simp [Memory.Knows, Table.contains] at h
  body _ _ h := by simp at h

section

variable {m : Memory} {X : String} (h : g.Sound m)
include h

theorem Sound.report (e : Event) : g.Sound (m.report e) := ⟨h.isMacro, h.idle, h.body⟩

theorem Sound.enter (hX : ¬m.Knows X) : g.Sound (m.enter X) where
  isMacro := h.isMacro
  idle Y hY := by
    have hne : Y ≠ X := by
      rintro rfl
      exact hX hY
    simpa [hne] using h.idle Y hY
  body := h.body

theorem Sound.leave : g.Sound (m.leave X) where
  isMacro := h.isMacro
  idle Y hY hmem := h.idle Y hY (List.mem_of_mem_erase hmem)
  body := h.body

/-- A body may be remembered if it is what is read with the macros remembered before. -/
theorem Sound.keep {body : Script} (hlisted : X ∈ g.macros.keys) (hidle : X ∉ m.inProgress)
    (hX : ¬m.Knows X)
    (hbody : ∀ usable : List String, (∀ Y, m.Knows Y → Y ∈ usable) →
      g.parseAfresh usable (g.macroText X) = .ok body) : g.Sound (m.keep X body) where
  isMacro Y hY := by
    rcases Memory.knows_keep.mp hY with rfl | hY
    · exact hlisted
    · exact h.isMacro Y hY
  idle Y hY := by
    rcases Memory.knows_keep.mp hY with rfl | hY
    · exact hidle
    · exact h.idle Y hY
  body Y other hother usable husable := by
    have hlookup : (m.keep X body).bodies.get? Y = if X = Y then some body else m.bodies.get? Y :=
      Table.get?_put ..
    rw [hlookup] at hother
    split at hother
    · rename_i heq
      subst heq
      obtain rfl := Option.some.inj hother
      refine hbody usable fun Y hY => husable Y (Memory.knows_keep.mpr (Or.inr hY)) ?_
      rintro rfl
      exact hX hY
    · exact h.body Y other hother usable fun Z hZ =>
        husable Z (Memory.knows_keep.mpr (Or.inr hZ))

end

/-! ## With and without a memory -/

theorem outcome_bind_of_ok {ε σ α β : Type} {x : EStateM ε σ α} {f : α → EStateM ε σ β} {s : σ}
    {a : α} {b : Except ε β} (h : outcome (x s) = .ok a) (hf : ∀ s', outcome (f a s') = b) :
    outcome ((x >>= f) s) = b := by
  cases hx : x s with
  | ok a' s' =>
    rw [hx] at h
    obtain rfl := Except.ok.inj h
    rw [bind_of_ok hx]
    exact hf s'
  | error e s' =>
    rw [hx] at h
    contradiction

theorem outcome_bind_of_error {ε σ α β : Type} {x : EStateM ε σ α} {f : α → EStateM ε σ β} {s : σ}
    {e : ε} (h : outcome (x s) = .error e) : outcome ((x >>= f) s) = .error e := by
  cases hx : x s with
  | ok a s' =>
    rw [hx] at h
    contradiction
  | error e' s' =>
    rw [hx] at h
    rw [bind_of_error hx]
    exact congrArg Except.error (Except.error.inj h)

section

variable {α β : Type}

/-- How a step with a memory ends beside the same step without one, while the bodies of some macros
are being read. The memory stays sound. What is given is what is given without a memory if all macros
are usable that are remembered then; and the step without a memory fails in the same way if all
macros are usable whose bodies are not being read. -/
inductive Tracks (g : Grammar) (inProgress : List String) (m : Memory)
    (afresh : List String → Reader α) : EStateM.Result ParseError Memory α → Prop
  | ok {a : α} {m' : Memory} (sound : g.Sound m') (same : m'.inProgress = inProgress)
      (grows : ∀ X, m.Knows X → m'.Knows X)
      (given : ∀ usable : List String, (∀ X, m'.Knows X → X ∈ usable) →
        ∀ m₀, outcome (afresh usable m₀) = .ok a) : Tracks g inProgress m afresh (.ok a m')
  | error {e : ParseError} {m' : Memory} (sound : g.Sound m') (same : m'.inProgress = inProgress)
      (refused : ∀ usable : List String, (∀ X ∈ g.macros.keys, X ∈ usable ↔ X ∉ inProgress) →
        ∀ m₀, outcome (afresh usable m₀) = .error e) : Tracks g inProgress m afresh (.error e m')

/-- Whether a step with a memory, the first one here, goes along with the step without one. -/
def Tracked (g : Grammar) (inProgress : List String) (f : Option (List String) → Reader α) : Prop :=
  ∀ m : Memory, g.Sound m → m.inProgress = inProgress →
    Tracks g inProgress m (fun usable => f (some usable)) (f none m)

/-- A sound memory remembers only what may be used. -/
theorem Sound.usable_of_knows {m : Memory} {usable : List String} (h : g.Sound m)
    (hm : m.inProgress = inProgress) (husable : ∀ X ∈ g.macros.keys, X ∈ usable ↔ X ∉ inProgress)
    (X : String) (hX : m.Knows X) : X ∈ usable :=
  (husable X (h.isMacro X hX)).mpr (hm ▸ h.idle X hX)

theorem Tracked.andThen {x : Option (List String) → Reader α}
    {f : Option (List String) → α → Reader β} (hx : g.Tracked inProgress x)
    (hf : ∀ a, (∃ o m m', x o m = .ok a m') → g.Tracked inProgress fun o => f o a) :
    g.Tracked inProgress fun o => x o >>= f o := by
  intro m hsound hm
  show Tracks g inProgress m _ ((x none >>= f none) m)
  have hfirst := hx m hsound hm
  generalize hstep : x none m = first at hfirst
  cases hfirst with
  | error hsound' hm' hrefused =>
    rw [bind_of_error hstep]
    exact .error hsound' hm' fun usable husable m₀ =>
      outcome_bind_of_error (hrefused usable husable m₀)
  | @ok a m' hsound' hm' hgrows hgiven =>
    have hsecond : Tracks g inProgress m' (fun usable => f (some usable) a) (f none a m') :=
      hf a ⟨none, m, m', hstep⟩ m' hsound' hm'
    rw [bind_of_ok hstep]
    generalize f none a m' = second at hsecond
    cases hsecond with
    | error hsound'' hm'' hrefused =>
      refine .error hsound'' hm'' fun usable husable m₀ => ?_
      have hknown := hsound'.usable_of_knows hm' husable
      exact outcome_bind_of_ok (hgiven usable hknown m₀) (hrefused usable husable)
    | ok hsound'' hm'' hgrows' hgiven' =>
      refine .ok hsound'' hm'' (fun X hX => hgrows' X (hgrows X hX)) fun usable husable m₀ => ?_
      have hknown : ∀ X, m'.Knows X → X ∈ usable := fun X hX => husable X (hgrows' X hX)
      exact outcome_bind_of_ok (hgiven usable hknown m₀) (hgiven' usable husable)

end

theorem readerRelation_tracked (g : Grammar) (inProgress : List String) :
    ReaderRelation (ι := Option (List String)) (fun _ => True) (g.Tracked inProgress) where
  done _ _ hsound hm := .ok hsound hm (fun _ hX => hX) fun _ _ _ => rfl
  fail _ _ hsound hm := .error hsound hm fun _ _ _ => rfl
  andThen := Tracked.andThen

theorem outcome_wholeText (length : Nat) (x : Reader (List Script)) (m : Memory) :
    outcome (wholeText length x m) = (outcome (x m)).map (.sequence ⟨0, length⟩) := by
  unfold wholeText
  cases x m <;> rfl

theorem Tracked.wholeText (length : Nat) {x : Option (List String) → Reader (List Script)}
    (hx : g.Tracked inProgress x) : g.Tracked inProgress fun o => wholeText length (x o) := by
  intro m hsound hm
  have hread := hx m hsound hm
  show Tracks g inProgress m _ (Grammar.wholeText length (x none) m)
  unfold Grammar.wholeText
  generalize x none m = read at hread
  cases hread with
  | ok hsound' hm' hgrows hgiven =>
    refine .ok hsound' hm' hgrows fun usable husable m₀ => ?_
    exact (outcome_wholeText length _ m₀).trans (hgiven usable husable m₀ ▸ rfl)
  | error hsound' hm' hrefused =>
    refine .error (hsound'.report _) hm' fun usable husable m₀ => ?_
    exact (outcome_wholeText length _ m₀).trans (hrefused usable husable m₀ ▸ rfl)

theorem outcome_lift {α : Type} (x : Except ParseError α) (m : Memory) :
    outcome (Reader.lift x m) = x := by
  cases x <;> rfl

/-- What a macro stands for with a memory is what it stands for without, if that is so of its body. -/
theorem tracked_expand {t : Token} (hlisted : t.text ∈ g.macros.keys)
    (havailable : t.text ∉ inProgress → t.text ∈ available)
    (hbody : t.text ∉ inProgress → g.Tracked (t.text :: inProgress) fun o =>
      o.elim (g.parseWith (available.erase t.text) (g.macroText t.text)) fun usable =>
        g.readAfresh usable (g.macroText t.text)) :
    g.Tracked inProgress fun o =>
      o.elim (g.expansion available t) fun usable => Reader.lift (g.expandAfresh usable t) := by
  intro m hsound hm
  simp only [Option.elim_none, Option.elim_some]
  unfold expansion
  by_cases hcyclic : t.text ∈ inProgress
  · rw [hm, if_neg fun husable => husable.2 hcyclic]
    refine .error hsound hm fun usable husable m₀ => ?_
    have hrefused : t.text ∉ usable := fun h => (husable _ hlisted).mp h hcyclic
    rw [outcome_lift, expandAfresh, if_neg hrefused]
  · rw [hm, if_pos ⟨havailable hcyclic, hcyclic⟩]
    cases hlookup : m.bodies.get? t.text with
    | some body =>
      refine .ok hsound hm (fun _ hX => hX) fun usable husable m₀ => ?_
      have husable' : t.text ∈ usable := husable _ (Option.isSome_iff_exists.mpr ⟨_, hlookup⟩)
      have hafresh : g.parseAfresh (without usable t.text) (g.macroText t.text) = .ok body :=
        hsound.body _ _ hlookup _ fun Y hY hne => mem_without.mpr ⟨husable Y hY, hne⟩
      rw [outcome_lift, expandAfresh, if_pos husable', hafresh]
    | none =>
      have hunknown : ¬m.Knows t.text := by
        intro h
        obtain ⟨body, hbody⟩ := Memory.exists_body h
        rw [hlookup] at hbody
        contradiction
      have hparse := hbody hcyclic (m.enter t.text) (hsound.enter hunknown)
        (by rw [inProgress_enter, hm])
      simp only [Option.elim_none, Option.elim_some] at hparse
      dsimp only [macroText] at hparse ⊢
      generalize g.parseWith (available.erase t.text) ((g.macros.get? t.text).getD "")
        (m.enter t.text) = parsed at hparse
      cases hparse with
      | @ok body m' hsound' hm' hgrows hgiven =>
        have hunknown' : ¬m'.Knows t.text := fun h => hsound'.idle _ h (by simp [hm'])
        have hidle : (m'.leave t.text).inProgress = inProgress := by simp [hm']
        have hafresh : ∀ usable : List String, (∀ Y, m'.Knows Y → Y ∈ usable) →
            g.parseAfresh usable (g.macroText t.text) = .ok body := by
          intro usable husable
          rw [parseAfresh_eq]
          exact hgiven usable husable {}
        refine .ok (hsound'.leave.keep hlisted (hidle ▸ hcyclic) hunknown' hafresh) hidle
          (fun X hX => Memory.knows_keep.mpr (Or.inr (hgrows X hX))) fun usable husable m₀ => ?_
        have husable' : t.text ∈ usable := husable _ (Memory.knows_keep.mpr (Or.inl rfl))
        have hknown : ∀ Y, m'.Knows Y → Y ∈ without usable t.text := by
          intro Y hY
          refine mem_without.mpr ⟨husable Y (Memory.knows_keep.mpr (Or.inr hY)), ?_⟩
          rintro rfl
          exact hunknown' hY
        rw [outcome_lift, expandAfresh, if_pos husable', hafresh _ hknown]
      | @error e m' hsound' hm' hrefused =>
        refine .error hsound'.leave (by simp [hm']) fun usable husable m₀ => ?_
        have husable' : t.text ∈ usable := (husable _ hlisted).mpr hcyclic
        have hothers : ∀ Y ∈ g.macros.keys,
            Y ∈ without usable t.text ↔ Y ∉ t.text :: inProgress := by
          intro Y hY
          rw [mem_without, husable Y hY, List.mem_cons, not_or, and_comm]
        have hafresh : g.parseAfresh (without usable t.text) (g.macroText t.text) = .error e := by
          rw [parseAfresh_eq]
          exact hrefused _ hothers {}
        rw [outcome_lift, expandAfresh, if_pos husable', hafresh]

/-- Parsing a text with a memory goes along with parsing it without one. -/
theorem tracked_parse (g : Grammar) {available : List String} (inProgress : List String)
    (havailable : ∀ X ∈ g.macros.keys, X ∉ inProgress → X ∈ available) (text : String) :
    g.Tracked inProgress fun o =>
      o.elim (g.parseWith available text) fun usable => g.readAfresh usable text := by
  have hexpand : ∀ t : Token, g.macros.contains t.text = true → g.Tracked inProgress fun o =>
      o.elim (g.expansion available t) fun usable => Reader.lift (g.expandAfresh usable t) := by
    intro t ht
    have hlisted := Table.contains_iff_mem_keys.mp ht
    refine tracked_expand hlisted (havailable _ hlisted) fun hfresh => ?_
    have hless : (available.erase t.text).length < available.length := by
      have hmem := havailable _ hlisted hfresh
      have := List.length_pos_of_mem hmem
      rw [List.length_erase_of_mem hmem]
      omega
    refine tracked_parse g (t.text :: inProgress) (fun Y hY hfresh' => ?_) _
    rw [List.mem_cons, not_or] at hfresh'
    exact (List.mem_erase_of_ne hfresh'.1).mpr (havailable Y hY hfresh'.2)
  have hparse : g.Tracked inProgress fun o => g.parseBy (fun t =>
      o.elim (g.expansion available t) fun usable => Reader.lift (g.expandAfresh usable t)) text :=
    related_parseBy (readerRelation_tracked g inProgress) (fun _ _ => trivial)
      (fun t _ => hexpand t) (fun length _ => Tracked.wholeText length)
  intro m hsound hm
  rw [parseWith_eq_parseBy]
  exact hparse m hsound hm
termination_by available.length

/-! ## Earlier texts -/

/-- The memory of a parser that was given some texts, one after the other. -/
def memoryAfter (g : Grammar) (texts : List String) : Memory :=
  texts.foldl (fun m text => stateAfter (g.parse text m)) {}

/-- With a sound memory and no body of a macro being read, a text is parsed as without a memory, and
afterwards it is the same. -/
theorem parse_of_sound {m : Memory} (hsound : g.Sound m) (hm : m.inProgress = []) (text : String) :
    g.Sound (stateAfter (g.parse text m)) ∧ (stateAfter (g.parse text m)).inProgress = [] ∧
      outcome (g.parse text m) = g.parseAfresh g.macros.keys text := by
  have havailable : ∀ X ∈ g.macros.keys, X ∉ ([] : List String) → X ∈ g.macros.keys :=
    fun X hX _ => hX
  have hparse := tracked_parse g [] havailable text m hsound hm
  have hall : ∀ X ∈ g.macros.keys, X ∈ g.macros.keys ↔ X ∉ ([] : List String) := by simp
  rw [parseAfresh_eq]
  simp only [Option.elim_none, Option.elim_some] at hparse
  show g.Sound (stateAfter (g.parseWith g.macros.keys text m)) ∧ _
  unfold parse
  generalize g.parseWith g.macros.keys text m = parsed at hparse
  cases hparse with
  | ok hsound' hm' _ hgiven =>
    have hknown := fun X (hX : Memory.Knows _ X) => hsound'.isMacro X hX
    exact ⟨hsound', hm', (hgiven _ hknown {}).symm⟩
  | error hsound' hm' hrefused => exact ⟨hsound', hm', (hrefused _ hall {}).symm⟩

theorem sound_memoryAfter (g : Grammar) (texts : List String) :
    g.Sound (g.memoryAfter texts) ∧ (g.memoryAfter texts).inProgress = [] := by
  induction texts using List.reverseRecOn with
  | nil => exact ⟨g.sound_empty, rfl⟩
  | append_singleton texts text ih =>
    obtain ⟨hsound, hm, -⟩ := parse_of_sound ih.1 ih.2 text
    rw [memoryAfter, List.foldl_append]
    exact ⟨hsound, hm⟩

/-- Whatever texts a parser was given, with or without success, no body of a macro is being read
afterwards, and the next text gives the same script or the same error as it gives to a new parser. -/
theorem parse_independent_of_history (g : Grammar) (texts : List String) (text : String) :
    (g.memoryAfter texts).inProgress = [] ∧
      outcome (g.parse text (g.memoryAfter texts)) = outcome (g.parse text {}) := by
  obtain ⟨hsound, hm⟩ := g.sound_memoryAfter texts
  obtain ⟨-, -, hafter⟩ := parse_of_sound hsound hm text
  obtain ⟨-, -, hnew⟩ := parse_of_sound g.sound_empty rfl text
  exact ⟨hm, hafter.trans hnew.symm⟩

end Grammar

end CubeLang
