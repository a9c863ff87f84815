import CubeLang.Proofs.Notation.Built
import CubeLang.Proofs.Notation.Consistency

/-!
# Calls that fail

An edit of a notation is refused before anything is written, but for one: the script of a macro is
written before its name is looked at. So a macro without a name is refused and has its script all
the same, and as no keyword is empty there is no grammar for the notation from then on.
-/

set_option autoImplicit false

namespace CubeLang

/-- What is written to a key that holds it already changes nothing. -/
theorem Table.put_of_get? {κ ν : Type} [DecidableEq κ] {t : Table κ ν} {k : κ} {v : ν}
    (h : t.get? k = some v) : t.put k v = t := by
  obtain ⟨es⟩ := t
  refine congrArg Table.mk ?_
  unfold get? at h
  dsimp only at h ⊢
  induction es with
  | nil => contradiction
  | cons e es ih =>
    by_cases he : e.1 = k
    · rw [List.find?_cons_of_pos (by simpa using he)] at h
      obtain rfl : e.2 = v := Option.some.inj h
      rw [putEntry, if_pos he, ← he]
    · rw [List.find?_cons_of_neg (by simpa using he)] at h
      rw [putEntry, if_neg he, ih h]

/-! ## Empty keywords -/

theorem Lexicon.addKeywords_of_empty {texts : List (List Char)} (h : [] ∈ texts) (lex : Lexicon) :
    ∃ lex', addKeywords texts lex = .error .emptyKeyword lex' := by
  induction texts generalizing lex with
  | nil => contradiction
  | cons text texts ih =>
    by_cases htext : text = []
    · subst htext
      exact ⟨lex, rfl⟩
    · obtain ⟨lex', hrest⟩ := ih ((List.mem_cons.mp h).resolve_left (Ne.symm htext))
        (lex.insert .keyword text)
      have hadd : addKeyword text lex = .ok () (lex.insert .keyword text) := add_run htext
      exact ⟨lex', by rw [addKeywords, bind_of_ok hadd, hrest]⟩

/-- There is no grammar for a notation that has a macro without a name. -/
theorem Grammar.ofNotation_of_unnamed {n : Notation} (h : "" ∈ n.macros.keys)
    (macros : Table String String) : Grammar.ofNotation n macros = .error .emptyKeyword := by
  have hmem : [] ∈ (macros.putAll n.macros.entries).keys.map String.toList :=
    List.mem_map.mpr ⟨"", Table.mem_keys_putAll.mpr (Or.inl h), rfl⟩
  have hrun : ∀ lex, ∃ lex', lexiconOf n (macros.putAll n.macros.entries) lex =
      .error .emptyKeyword lex' := by
    intro lex
    unfold lexiconOf
    cases htokens : Lexicon.addKeywords (n.tokens.map String.toList) lex with
    | error fault lex' => exact ⟨lex', bind_of_error htokens⟩
    | ok _ lex₁ =>
      obtain ⟨lex', hnames⟩ := Lexicon.addKeywords_of_empty hmem lex₁
      exact ⟨lex', (bind_of_ok htokens).trans (bind_of_error hnames)⟩
  obtain ⟨lex', hlex⟩ := hrun ({} : Lexicon).skipWhitespace.addNumbers
  simp only [ofNotation, EStateM.run, hlex]

namespace Notation

variable {n n' : Notation} {call : Call} {fault : Fault} {k : Nat}

/-! ## What a call leaves -/

/-- A call that fails leaves the notation, unless it is for a macro without a name. -/
theorem eq_of_make_error (h : call.make n = .error fault n') :
    (∀ script, call ≠ .addMacro "" script) ∧ n' = n ∨
      ∃ script, call = .addMacro "" script ∧ fault = .emptyToken ∧
        n' = { n with macros := n.macros.put "" script } := by
  have hadd : ∀ {n₁ : Notation} {s token}, addToken s token n₁ = .error fault n' →
      token = "" ∧ fault = .emptyToken ∧ n' = n₁ := by
    intro n₁ s token h
    rw [addToken_eq] at h
    split at h
    · obtain ⟨rfl, rfl⟩ := EStateM.Result.error.inj h
      exact ⟨‹_›, rfl, rfl⟩
    · contradiction
  cases call with
  | addToken s token => exact Or.inl ⟨nofun, (hadd h).2.2⟩
  | removeToken s token => contradiction
  | addMove m token =>
    refine Or.inl ⟨nofun, ?_⟩
    rw [Call.make, addMove_eq] at h
    split at h
    · exact (EStateM.Result.error.inj h).2.symm
    · split at h
      · contradiction
      · split at h
        · exact (EStateM.Result.error.inj h).2.symm
        · contradiction
  | addMacro identifier script =>
    obtain ⟨rfl, hfault, rfl⟩ := hadd h
    exact Or.inr ⟨script, rfl, hfault, rfl⟩
  | setFixity s f => contradiction

/-- What a call that fails leaves: the notation as it was, except that the script of a macro without
a name is written. Then the other answers are as before, and there is no grammar. -/
structure LeftBy (call : Call) (fault : Fault) (n n' : Notation) : Prop where
  same : (∀ script, call ≠ .addMacro "" script) → n' = n
  unnamed : ∀ script, call = .addMacro "" script → fault = .emptyToken ∧
    n'.answers = { n.answers with macros := (n.macros.put "" script).entries } ∧
    ∀ macros, Grammar.ofNotation n' macros = .error .emptyKeyword
  answers_eq_iff : n'.answers = n.answers ↔
    ∀ script, call = .addMacro "" script → n.macros.get? "" = some script

theorem leftBy_of_make_error (h : call.make n = .error fault n') : LeftBy call fault n n' := by
  rcases eq_of_make_error h with ⟨hother, rfl⟩ | ⟨script, rfl, rfl, rfl⟩
  · exact ⟨fun _ => rfl, fun script hcall => absurd hcall (hother script),
      fun _ script hcall => absurd hcall (hother script), fun _ => rfl⟩
  · refine ⟨fun hother => absurd rfl (hother script), ?_, ?_, fun hwritten => ?_⟩
    · rintro _ ⟨⟩
      exact ⟨rfl, rfl, Grammar.ofNotation_of_unnamed (Table.mem_keys_put.mpr (Or.inl rfl))⟩
    · rintro hsame _ ⟨⟩
      have hentries : (n.macros.put "" script).entries = n.macros.entries :=
        congrArg Answers.macros hsame
      have hmacros : n.macros.put "" script = n.macros := congrArg Table.mk hentries
      rw [← hmacros, Table.get?_put, if_pos rfl]
    · rw [Table.put_of_get? (hwritten script rfl)]

/-! ## The names of the macros -/

theorem macros_after_addToken (s : Symbol) (token : String) (n : Notation) :
    (stateAfter (addToken s token n)).macros = n.macros := by
  rw [addToken_eq]
  split <;> rfl

theorem macros_bindMove (n : Notation) (m : Move) (token : String) :
    (n.bindMove m token).macros = n.macros := by
  unfold Notation.bindMove
  split <;> rfl

theorem macros_after_addMove (m : Move) (token : String) (n : Notation) :
    (stateAfter (addMove m token n)).macros = n.macros := by
  rw [addMove_eq]
  split
  · rfl
  · split
    · rfl
    · split
      · rfl
      · exact macros_bindMove n m token

/-- A call adds a name to those of the macros if it is made with it, and takes none away. -/
theorem mem_keys_macros_make (call : Call) (n : Notation) (name : String) :
    name ∈ (stateAfter (call.make n)).macros.keys ↔
      name ∈ n.macros.keys ∨ ∃ script, call = .addMacro name script := by
  cases call with
  | addToken s token =>
    rw [Call.make, macros_after_addToken]
    simp
  | removeToken s token =>
    show name ∈ n.macros.keys ↔ _
    simp
  | addMove m token =>
    rw [Call.make, macros_after_addMove]
    simp
  | addMacro identifier script =>
    rw [Call.make, addMacro_eq, macros_after_addToken, Table.mem_keys_put, or_comm]
    simp
  | setFixity s f =>
    show name ∈ n.macros.keys ↔ _
    simp

/-- No macro is ever lost: the names are those that calls were made with. -/
theorem mem_keys_macros_after (calls : List Call) (n : Notation) (name : String) :
    name ∈ (Call.after calls n).macros.keys ↔
      name ∈ n.macros.keys ∨ ∃ script, .addMacro name script ∈ calls := by
  induction calls generalizing n with
  | nil => simp [Call.after]
  | cons call calls ih =>
    have hafter : Call.after (call :: calls) n = Call.after calls (stateAfter (call.make n)) := rfl
    have hsplit : (∃ script, .addMacro name script ∈ call :: calls) ↔
        (∃ script, call = .addMacro name script) ∨ ∃ script, .addMacro name script ∈ calls := by
      simp only [List.mem_cons, exists_or, eq_comm]
    rw [hafter, ih (stateAfter (call.make n)), mem_keys_macros_make, or_assoc, hsplit]

theorem Built.make (h : n.Built) (hmake : call.make n = .ok () n') : n'.Built := by
  cases call with
  | addToken s token => exact h.addToken hmake
  | removeToken s token => exact h.removeToken hmake
  | addMove m token => exact h.addMove hmake
  | addMacro identifier script => exact h.addMacro hmake
  | setFixity s f => exact h.setFixity hmake

/-- Calls of which none is for a macro without a name leave a notation that comes about by
successful edits: those that fail can be left out. -/
theorem Built.after (h : n.Built) {calls : List Call}
    (hnames : ∀ script, Call.addMacro "" script ∉ calls) : (Call.after calls n).Built := by
  induction calls generalizing n with
  | nil => exact h
  | cons call calls ih =>
    have hcall : ∀ script, call ≠ .addMacro "" script := fun script heq =>
      hnames script (heq ▸ List.mem_cons_self)
    refine ih (n := stateAfter (call.make n)) ?_ fun script hmem =>
      hnames script (List.mem_cons_of_mem _ hmem)
    cases hrun : call.make n with
    | ok _ n' => exact h.make hrun
    | error fault n' =>
      obtain rfl := (leftBy_of_make_error hrun).same hcall
      exact h

/-! ## Every history of calls -/

/-- The macros of a notation are those that calls were made with, successful or not. -/
theorem mem_keys_macros_history (hk : 2 ≤ k) (builtIn : Bool) (calls : List Call) (name : String) :
    name ∈ (Call.after (history builtIn k calls) (blank hk builtIn)).macros.keys ↔
      ∃ script, .addMacro name script ∈ calls := by
  have hnone : ∀ script, Call.addMacro name script ∉ defaultCalls k := by simp [defaultCalls]
  have hempty : name ∉ (blank hk builtIn).macros.keys := List.not_mem_nil
  rw [mem_keys_macros_after, or_iff_right hempty]
  refine exists_congr fun script => ?_
  unfold history
  rw [List.mem_append, or_iff_right]
  split
  · exact hnone script
  · exact List.not_mem_nil

theorem built_start {builtIn : Bool} {layerCount : Int} (h : start builtIn layerCount = .ok n) :
    n.Built := by
  cases builtIn with
  | false => exact .empty h
  | true => exact .default h

/-- **A call that fails leaves the answers of a notation as they were**, unless it is for a macro
without a name, whose script is written before it is refused. So it is with every notation that
comes about by calls, also when it is kept in dictionaries, and a grammar can be made of the
notation as long as no call was for a macro without a name. -/
theorem unchanged_of_failed_call (hk : 2 ≤ k) (builtIn : Bool) (calls : List Call) :
    ∃ n₀ n r, start builtIn k = .ok n₀ ∧ n = Call.after calls n₀ ∧
      r = Registry.after (history builtIn k calls) {} ∧ r.answers = n.answers ∧
      (∀ call fault n', call.make n = .error fault n' → LeftBy call fault n n' ∧
        ∃ r', Registry.make call r = .error (.refused fault) r' ∧ r'.answers = n'.answers) ∧
      ∀ macros : Table String String, "" ∉ macros.keys →
        ((∃ g, Grammar.ofNotation n macros = .ok g) ↔ ∀ script, .addMacro "" script ∉ calls) := by
  have hkept := sound_history hk builtIn calls
  have hmirrors := mirrors_history hk builtIn calls
  have hstart := start_eq hk builtIn
  refine ⟨_, _, _, hstart, rfl, rfl, ?_, fun call fault n' hfailed => ⟨?_, ?_⟩,
    fun macros hmacros => ⟨?_, fun hcalls => ?_⟩⟩
  · rw [after_history]
    exact hmirrors.answers
  · exact leftBy_of_make_error hfailed
  · rw [after_history] at hfailed
    have hends := hmirrors.endsAlike hkept call
    rw [hfailed] at hends
    generalize Registry.make call (Registry.after (history builtIn k calls) {}) = result at hends
    cases hends with
    | error _ hafter => exact ⟨_, rfl, hafter.answers⟩
  · rintro ⟨g, hg⟩ script hmem
    have hunnamed := (mem_keys_macros_after calls
      (Call.after (history builtIn k []) (blank hk builtIn)) "").mpr (Or.inr ⟨script, hmem⟩)
    rw [Grammar.ofNotation_of_unnamed hunnamed] at hg
    contradiction
  · exact ⟨_, Grammar.ofNotation_of_worded ((built_start hstart).after hcalls).worded
      fun name hname heq => hmacros (heq ▸ hname)⟩

/-- A move without a name is refused and leaves the notation, also after another call that failed.
-/
theorem unchanged_of_failed_move : 2 ≤ 2 ∧
    ∃ n r r', n = Call.after [.addMove ⟨2, 0, 1, -1⟩ "L", .addToken .nop ""]
        (blank (by decide : 2 ≤ 2) false) ∧ r.answers = n.answers ∧
      Call.make (.addMove ⟨2, 0, 1, 1⟩ "") n = .error .emptyToken n ∧
      LeftBy (.addMove ⟨2, 0, 1, 1⟩ "") .emptyToken n n ∧
      Registry.make (.addMove ⟨2, 0, 1, 1⟩ "") r = .error (.refused .emptyToken) r' ∧
      r'.answers = n.answers ∧ ∃ g, Grammar.ofNotation n ∅ = .ok g := by
  obtain ⟨n₀, n, r, hstart, rfl, -, hanswers, hfailed, hgrammar⟩ :=
    unchanged_of_failed_call (by decide : 2 ≤ 2) false
      [.addMove ⟨2, 0, 1, -1⟩ "L", .addToken .nop ""]
  obtain rfl := Except.ok.inj ((start_eq (by decide : 2 ≤ 2) false).symm.trans hstart)
  obtain ⟨hleft, r', hr', hsame⟩ := hfailed (.addMove ⟨2, 0, 1, 1⟩ "") .emptyToken _ rfl
  exact ⟨by decide, _, r, r', rfl, hanswers, rfl, hleft, hr', hsame,
    (hgrammar ∅ (by decide)).mpr (by simp)⟩

/-- A macro without a name is refused, is among the macros all the same, and takes the grammar away.
-/
theorem unnamed_macro_written :
    let n := blank (by decide : 2 ≤ 2) false
    ∃ n', Call.make (.addMacro "" "R") n = .error .emptyToken n' ∧
      n.answers.macros = [] ∧ n'.answers.macros = [("", "R")] ∧
      (Grammar.ofNotation n ∅).toOption.isSome ∧ (Grammar.ofNotation n' ∅).toOption = none :=
  ⟨_, rfl, rfl, rfl, rfl, rfl⟩

end Notation

end CubeLang
