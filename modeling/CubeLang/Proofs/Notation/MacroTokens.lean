import CubeLang.Proofs.Grammar.ReadingAlike
import CubeLang.Proofs.Grammar.SameTexts
import CubeLang.Proofs.Notation.FailedCalls

/-!
# Macros and their tokens

A macro is added together with a token for its name. The token can be removed like any other one,
but then the macro stays: its name is no longer said to stand for macros, and its script is still
there. The grammar has the names of all scripts among its keywords and knows macros by their
scripts, so that it reads every text as before. So the token of a macro is not like that of a move,
without which the move is forgotten.
-/

set_option autoImplicit false

namespace CubeLang.Notation

variable {n n' : Notation} {call : Call} {calls : List Call} {name token : String} {s : Symbol}

/-! ## What calls say of a name -/

/-- Whether a name is to stand for macros, if a call says so or otherwise. -/
def Call.word? (name : String) : Call → Option Bool
  | .addToken s token => if s = .macroName ∧ token = name then some true else none
  | .removeToken s token => if s = .macroName ∧ token = name then some false else none
  | .addMacro identifier _ => if identifier = name then some true else none
  | .addMove _ _ | .setFixity _ _ => none

/-- The last that some calls say of a name. -/
def Call.lastWord? (name : String) (calls : List Call) : Option Bool :=
  (calls.filterMap (Call.word? name)).getLast?

/-- A call that succeeds does what it says, and changes nothing about other names. -/
theorem macroName_mem_make (h : call.make n = .ok () n') (name : String) :
    .macroName ∈ n'.symbolsFor name ↔
      call.word? name = some true ∨ call.word? name = none ∧ .macroName ∈ n.symbolsFor name := by
  have hpair : ∀ (s : Symbol) (token : String),
      (Symbol.macroName, name) = (s, token) ↔ s = .macroName ∧ token = name := by
    intro s token
    rw [Prod.mk.injEq, eq_comm, eq_comm (a := name)]
  simp only [mem_symbolsFor]
  cases call with
  | addToken s token =>
    obtain ⟨-, rfl⟩ := eq_of_addToken h
    rw [bindings_bind, mem_listed, hpair, Call.word?]
    by_cases hsame : s = .macroName ∧ token = name
    · simp [hsame]
    · simp [hsame]
  | removeToken s token =>
    obtain ⟨-, rfl⟩ := EStateM.Result.ok.inj h
    rw [mem_bindings_unbind, ne_eq, hpair, Call.word?]
    by_cases hsame : s = .macroName ∧ token = name
    · simp [hsame]
    · simp [hsame]
  | addMove m token =>
    have hsame : (.macroName, name) ∈ n'.bindings ↔ (.macroName, name) ∈ n.bindings := by
      rcases eq_of_addMove h with rfl | ⟨-, rfl⟩
      · rfl
      · unfold Notation.bindMove
        split
        · rfl
        · rw [bindings_bind, mem_listed]
          simp
    simp [Call.word?, hsame]
  | addMacro identifier script =>
    obtain ⟨-, rfl⟩ := eq_of_addMacro h
    rw [bindings_bind, mem_listed, hpair, Call.word?]
    by_cases hsame : identifier = name
    · simp [hsame]
    · simp [hsame]
  | setFixity s f =>
    obtain ⟨-, rfl⟩ := EStateM.Result.ok.inj h
    simp [Call.word?]

/-- After calls that all succeed a name stands for macros if that is the last that they say of it.
-/
theorem macroName_mem_forM (h : calls.forM Call.make n = .ok () n') (name : String) :
    .macroName ∈ n'.symbolsFor name ↔ Call.lastWord? name calls = some true ∨
      Call.lastWord? name calls = none ∧ .macroName ∈ n.symbolsFor name := by
  induction calls generalizing n with
  | nil =>
    obtain ⟨-, rfl⟩ := EStateM.Result.ok.inj h
    simp [Call.lastWord?]
  | cons call calls ih =>
    obtain ⟨_, n₁, hfirst, hrest⟩ := exists_of_bind_eq_ok h
    have hbound := macroName_mem_make hfirst name
    rw [ih hrest, hbound]
    unfold Call.lastWord?
    cases hword : call.word? name with
    | none => simp [hword]
    | some b =>
      rw [List.filterMap_cons_some hword, List.getLast?_cons]
      cases (calls.filterMap (Call.word? name)).getLast? <;> cases b <;> simp

/-- The last that calls say of a macro that they add is something. -/
theorem lastWord?_of_addMacro {script : String} (h : .addMacro name script ∈ calls) :
    Call.lastWord? name calls ≠ none := by
  have hword : Call.word? name (.addMacro name script) = some true := if_pos rfl
  have hmem : true ∈ calls.filterMap (Call.word? name) := List.mem_filterMap.mpr ⟨_, h, hword⟩
  unfold Call.lastWord?
  rw [ne_eq, List.getLast?_eq_none_iff]
  exact List.ne_nil_of_mem hmem

theorem after_of_forM (h : calls.forM Call.make n = .ok () n') : Call.after calls n = n' := by
  induction calls generalizing n with
  | nil => exact (EStateM.Result.ok.inj h).2
  | cons call calls ih =>
    obtain ⟨_, n₁, hfirst, hrest⟩ := exists_of_bind_eq_ok h
    have hstate : stateAfter (call.make n) = n₁ := by rw [hfirst]; rfl
    have hafter : Call.after (call :: calls) n = Call.after calls n₁ := by rw [← hstate]; rfl
    rw [hafter, ih hrest]

theorem built_of_forM (h : n.Built) (hcalls : calls.forM Call.make n = .ok () n') : n'.Built := by
  induction calls generalizing n with
  | nil =>
    obtain ⟨-, rfl⟩ := EStateM.Result.ok.inj hcalls
    exact h
  | cons call calls ih =>
    obtain ⟨_, n₁, hfirst, hrest⟩ := exists_of_bind_eq_ok hcalls
    exact ih (h.make hfirst) hrest

/-! ## A notation without the token of a macro -/

theorem macroName_not_mem_unbind (n : Notation) (name : String) :
    .macroName ∉ (n.unbind .macroName name).symbolsFor name := by
  rw [mem_symbolsFor, mem_bindings_unbind]
  exact fun h => h.2 rfl

theorem tokensFor_unbind (hs : s ≠ .macroName) (n : Notation) (name : String) :
    (n.unbind .macroName name).tokensFor s = n.tokensFor s := by
  unfold Notation.tokensFor Notation.unbind
  rw [List.filter_filter]
  refine congrArg _ (List.filter_congr fun b _ => ?_)
  by_cases hb : b.1 = s
  · have hne : b ≠ (.macroName, name) := fun heq => hs (hb.symm.trans (congrArg Prod.fst heq))
    simp [hne]
  · simp [hb]

theorem symbolsFor_unbind (n : Notation) (name token : String) :
    (n.unbind .macroName name).symbolsFor token =
      if token = name then (n.symbolsFor token).filter (· ≠ .macroName)
      else n.symbolsFor token := by
  have hname : ∀ b : Symbol × String, b.2 = name → (b ≠ (.macroName, name) ↔ b.1 ≠ .macroName) := by
    rintro ⟨s, token⟩ rfl
    simp
  unfold Notation.symbolsFor Notation.unbind
  dsimp only
  rw [List.filter_filter]
  split
  · rename_i htoken
    rw [List.filter_map, List.filter_filter]
    refine congrArg _ (List.filter_congr fun b _ => ?_)
    by_cases hb : b.2 = token
    · simp [hb, hname b (hb.trans htoken)]
    · simp [hb]
  · rename_i htoken
    refine congrArg _ (List.filter_congr fun b _ => ?_)
    by_cases hb : b.2 = token
    · have hne : b ≠ (.macroName, name) := fun heq => htoken (hb.symm.trans (congrArg Prod.snd heq))
      simp [hb, hne]
    · simp [hb]

theorem mem_tokens_unbind (htoken : token ≠ name) :
    token ∈ (n.unbind .macroName name).tokens ↔ token ∈ n.tokens := by
  unfold Notation.unbind
  dsimp only
  split
  · rfl
  · simp [htoken]

end CubeLang.Notation

namespace CubeLang.Grammar

open Notation

variable {n : Notation} {name : String} {macros : Table String String}

/-- The keywords of a grammar are the same without the token of a macro, whose name is a keyword. -/
theorem lookup?_entries_unbind (hname : name ∈ macros.keys) (v : List Char) :
    (Trie.addAll (entries (n.unbind .macroName name) macros) Trie.empty).lookup? v =
      (Trie.addAll (entries n macros) Trie.empty).lookup? v := by
  have hkeywords : ∀ tokens : List String,
      tokens.map (fun token => (Trie.Entry.keyword, token.toList)) ++
        macros.keys.map (fun name => (Trie.Entry.keyword, name.toList)) =
      ((tokens ++ macros.keys).map String.toList).map fun text => (Trie.Entry.keyword, text) := by
    intro tokens
    rw [List.map_append, List.map_append, List.map_map, List.map_map]
    rfl
  have hsame : ∀ token, token ∈ (n.unbind .macroName name).tokens ++ macros.keys ↔
      token ∈ n.tokens ++ macros.keys := by
    intro token
    rw [List.mem_append, List.mem_append]
    by_cases htoken : token = name
    · simp [htoken, hname]
    · rw [mem_tokens_unbind htoken]
  have hclose : (n.unbind .macroName name).token? .blockCommentEnd =
      n.token? .blockCommentEnd := by
    unfold Notation.token?
    rw [tokensFor_unbind (by decide)]
  unfold entries
  rw [hkeywords, hkeywords, hclose, tokensFor_unbind (by decide), tokensFor_unbind (by decide)]
  simp only [Trie.addAll_append]
  refine Trie.lookup?_addAll_congr (Trie.lookup?_addAll_congr (fun v => ?_) _) _ v
  rw [Trie.lookup?_addAll_keywords, Trie.lookup?_addAll_keywords]
  simp only [List.mem_map, hsame]

/-- Without the token of a macro that is not part of repeat counts, a grammar reads as with it. -/
theorem readsLike_unbind {lexicon lexicon' : Lexicon} (hlexicon : lexicon'.SameTexts lexicon)
    (hbegin : .repetitionBegin ∉ n.symbolsFor name) (hend : .repetitionEnd ∉ n.symbolsFor name) :
    Grammar.ReadsLike { terms := n.unbind .macroName name, macros, lexicon := lexicon' }
      { terms := n, macros, lexicon } := by
  have hsymbols : ∀ t : Token, Grammar.symbols
      { terms := n.unbind .macroName name, macros, lexicon := lexicon' } t =
        if t.text = name then
          (Grammar.symbols { terms := n, macros, lexicon } t).filter (· ≠ .macroName)
        else Grammar.symbols { terms := n, macros, lexicon } t := by
    intro t
    unfold Grammar.symbols
    dsimp only
    split
    · rw [symbolsFor_unbind]
    · split <;> rfl
  have honly : ∀ s : Symbol, s ∉ n.symbolsFor name → ∀ t : Token, Grammar.isOnly
      { terms := n.unbind .macroName name, macros, lexicon := lexicon' } s t =
        Grammar.isOnly { terms := n, macros, lexicon } s t := by
    intro s hs t
    unfold Grammar.isOnly Grammar.isA
    rw [hsymbols]
    split
    · rename_i htext
      have hnone : s ∉ Grammar.symbols { terms := n, macros, lexicon } t := by
        unfold Grammar.symbols
        dsimp only
        split
        · rwa [htext]
        · exact List.not_mem_nil
      simp [hnone]
    · rfl
  refine ⟨hlexicon.tokens, rfl, fun t => ?_, honly _ hbegin, honly _ hend, fun token => rfl,
    fun s => rfl, ?_, rfl⟩
  · rw [hsymbols]
    split
    · rw [List.filter_filter]
      simp
    · rfl
  · show (n.unbind .macroName name).supports .permutation = n.supports .permutation
    unfold Notation.supports
    rw [tokensFor_unbind (by decide)]
    rfl

/-- There is a grammar for a notation without empty texts also when the token of a macro is removed,
with the same macros, and it reads the same tokens. -/
theorem exists_grammar_unbind (hn : n.Worded) (hname : name ∈ n.macros.keys)
    (hmacros : "" ∉ macros.keys) :
    ∃ g g', Grammar.ofNotation n macros = .ok g ∧
      Grammar.ofNotation (n.unbind .macroName name) macros = .ok g' ∧ g'.macros = g.macros ∧
      (∀ text, g'.lexicon.tokens text = g.lexicon.tokens text) ∧
      (.repetitionBegin ∉ n.symbolsFor name → .repetitionEnd ∉ n.symbolsFor name →
        ∀ text, g'.parse text = g.parse text) := by
  have hnames : ∀ name ∈ macros.keys, name ≠ "" := fun name hmem heq => hmacros (heq ▸ hmem)
  have hknown : name ∈ (macros.putAll n.macros.entries).keys :=
    Table.mem_keys_putAll.mpr (Or.inl hname)
  have hlexicon : Lexicon.SameTexts
      { Lexicon.base with
        trie := Trie.addAll (entries (n.unbind .macroName name) (macros.putAll n.macros.entries))
          Trie.empty }
      { Lexicon.base with
        trie := Trie.addAll (entries n (macros.putAll n.macros.entries)) Trie.empty } :=
    ⟨rfl, lookup?_entries_unbind hknown⟩
  exact ⟨_, _, ofNotation_of_worded hn hnames, ofNotation_of_worded hn.unbind hnames, rfl,
    hlexicon.tokens, fun hbegin hend => (readsLike_unbind hlexicon hbegin hend).parse⟩

end CubeLang.Grammar

namespace CubeLang.Notation

variable {k : Nat}

/-- **A macro stays when its token is removed.** After calls that all succeed the macros are those
that were added, and the name of each stands for macros unless the last that the calls say of it is
that it no longer does. When the token of a macro is removed, the macro is among the macros as
before, and a grammar made of the notation knows it and takes every text apart as before. It parses
every text as before, too, if the name is no bracket of repeat counts, which are told by standing
for nothing else. The token of a move is different: with it the move is forgotten. -/
theorem macro_stays_without_token (hk : 2 ≤ k) (builtIn : Bool) (calls : List Call) :
    ∃ n₀, start builtIn k = .ok n₀ ∧ ∀ n, calls.forM Call.make n₀ = .ok () n →
      (∀ name, name ∈ n.macros.keys ↔ ∃ script, .addMacro name script ∈ calls) ∧
      (∀ name ∈ n.macros.keys,
        .macroName ∈ n.symbolsFor name ↔ Call.lastWord? name calls ≠ some false) ∧
      (∀ name ∈ n.macros.keys, ∃ n', Call.make (.removeToken .macroName name) n = .ok () n' ∧
        .macroName ∉ n'.symbolsFor name ∧ n'.macros = n.macros ∧
        ∀ macros, "" ∉ macros.keys → ∃ g g', Grammar.ofNotation n macros = .ok g ∧
          Grammar.ofNotation n' macros = .ok g' ∧ g'.macros = g.macros ∧
          (∀ text, g'.lexicon.tokens text = g.lexicon.tokens text) ∧
          (.repetitionBegin ∉ n.symbolsFor name → .repetitionEnd ∉ n.symbolsFor name →
            ∀ text, g'.parse text = g.parse text)) ∧
      ∀ token, ∃ n', Call.make (.removeToken .move token) n = .ok () n' ∧
        n'.move? token = none := by
  have hstart := start_eq hk builtIn
  refine ⟨_, hstart, fun n hcalls => ?_⟩
  have hmacros : ∀ name, name ∈ n.macros.keys ↔ ∃ script, .addMacro name script ∈ calls := by
    intro name
    rw [← after_of_forM hcalls, after_history]
    exact mem_keys_macros_history hk builtIn calls name
  have hworded : n.Worded := (built_of_forM (built_start hstart) hcalls).worded
  refine ⟨hmacros, fun name hname => ?_, fun name hname => ?_, fun token => ⟨_, rfl, ?_⟩⟩
  · obtain ⟨script, hmem⟩ := (hmacros name).mp hname
    have hsaid := lastWord?_of_addMacro hmem
    rw [macroName_mem_forM hcalls]
    cases hlast : Call.lastWord? name calls with
    | none => contradiction
    | some b => cases b <;> simp
  · exact ⟨_, rfl, macroName_not_mem_unbind n name, rfl,
      fun macros => Grammar.exists_grammar_unbind hworded hname⟩
  · show (n.moves.erase token).get? token = none
    simp

/-- Calls that let a token name a turn and add a macro of this turn. -/
def turnMacro : List Call := [.addMove ⟨2, 0, 2, 1⟩ "R", .addMacro "turn" "R"]

/-- The macro of a turn stays without its token, and texts are parsed as before. -/
theorem macro_stays_without_token_turn : 2 ≤ 2 ∧
    ∃ n n' g g', turnMacro.forM Call.make (blank (by decide : 2 ≤ 2) false) = .ok () n ∧
      .macroName ∈ n.symbolsFor "turn" ∧
      Call.make (.removeToken .macroName "turn") n = .ok () n' ∧
      .macroName ∉ n'.symbolsFor "turn" ∧ n'.macros = n.macros ∧
      Grammar.ofNotation n ∅ = .ok g ∧ Grammar.ofNotation n' ∅ = .ok g' ∧
      .repetitionBegin ∉ n.symbolsFor "turn" ∧ .repetitionEnd ∉ n.symbolsFor "turn" ∧
      ∀ text, g'.parse text = g.parse text := by
  let n := Call.after turnMacro (blank (by decide : 2 ≤ 2) false)
  obtain ⟨n₀, hstart, hmacros⟩ := macro_stays_without_token (by decide : 2 ≤ 2) false turnMacro
  obtain rfl := Except.ok.inj ((start_eq (by decide : 2 ≤ 2) false).symm.trans hstart)
  have hcalls : turnMacro.forM Call.make (blank (by decide : 2 ≤ 2) false) = .ok () n := rfl
  obtain ⟨-, hbound, hremoved, -⟩ := hmacros n hcalls
  have hmem : "turn" ∈ n.macros.keys := by decide
  obtain ⟨n', hn', hunbound, hsame, hgrammar⟩ := hremoved "turn" hmem
  obtain ⟨g, g', hg, hg', -, -, hparse⟩ := hgrammar ∅ (by decide)
  have hbegin : .repetitionBegin ∉ n.symbolsFor "turn" := by decide
  have hend : .repetitionEnd ∉ n.symbolsFor "turn" := by decide
  exact ⟨by decide, n, n', g, g', hcalls, (hbound "turn" hmem).mpr (by decide), hn', hunbound,
    hsame, hg, hg', hbegin, hend, hparse hbegin hend⟩

/-- Behind the removal of its token a macro is among the macros, and a grammar made then reads its
script. -/
theorem removed_macro_expanded : ∃ n g,
    (turnMacro ++ [Call.removeToken .macroName "turn"]).forM Call.make
        (blank (by decide : 2 ≤ 2) false) = .ok () n ∧
      n.answers.macros = [("turn", "R")] ∧ n.symbolsFor "turn" = [] ∧
      Grammar.ofNotation n ∅ = .ok g ∧ (outcome (g.parse "turn" {})).isOk = true ∧
      (stateAfter (g.parse "turn" {})).bodies.keys = ["turn"] := by
  let n := Call.after (turnMacro ++ [Call.removeToken .macroName "turn"])
    (blank (by decide : 2 ≤ 2) false)
  have hworded : n.Worded := ⟨by decide, by decide, by decide⟩
  refine ⟨n, _, rfl, rfl, rfl, Grammar.ofNotation_of_worded hworded nofun, ?_, ?_⟩
  · decide +kernel
  · decide +kernel

end CubeLang.Notation
