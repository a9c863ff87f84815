import CubeLang.Notation.Basic
import CubeLang.Proofs.Control
import CubeLang.Proofs.Table
import Mathlib.Data.List.Induction

/-!
# Calls on notations

A notation is edited by calls, of which some fail and leave behind what they had written before. The
queries stay consistent through all of them: which token stands for which symbol is told alike from
both sides, a token that names a move stands for moves, and a move is written with a token that names
it.
-/

set_option autoImplicit false

namespace CubeLang

namespace Notation

/-! ## Answers -/

/-- The answers of a notation to all that it can be asked. -/
structure Answers where
  tokensFor : Symbol → List String
  symbolsFor : String → List Symbol
  tokens : List String
  moves : List (String × Move)
  move? : String → Option Move
  moveToken? : Move → Option String
  fixity : Symbol → Fixity
  supports : Symbol → Bool
  macros : List (String × String)

/-- The answers of a notation. -/
def answers (n : Notation) : Answers where
  tokensFor := n.tokensFor
  symbolsFor := n.symbolsFor
  tokens := n.tokens
  moves := n.moves.entries
  move? := n.move?
  moveToken? := n.moveToken?
  fixity := n.fixity
  supports := n.supports
  macros := n.macros.entries

/-- Answers that do not contradict each other. -/
structure Answers.Consistent (a : Answers) : Prop where
  mem_tokensFor_iff : ∀ s token, token ∈ a.tokensFor s ↔ s ∈ a.symbolsFor token
  nodup_tokensFor : ∀ s, (a.tokensFor s).Nodup
  nodup_symbolsFor : ∀ token, (a.symbolsFor token).Nodup
  nodup_tokens : a.tokens.Nodup
  mem_tokens_iff : ∀ token, token ∈ a.tokens ↔ a.symbolsFor token ≠ []
  nodup_moves : (a.moves.map Prod.fst).Nodup
  move?_iff : ∀ token m, a.move? token = some m ↔ (token, m) ∈ a.moves
  move_mem_symbolsFor : ∀ e ∈ a.moves, .move ∈ a.symbolsFor e.1
  moveToken?_ne_none_iff : ∀ m, a.moveToken? m ≠ none ↔ ∃ e ∈ a.moves, e.2 = m
  move?_of_moveToken? : ∀ m token, a.moveToken? m = some token → a.move? token = some m

/-! ## Calls -/

/-- A call that edits a notation. -/
inductive Call where
  | addToken (s : Symbol) (token : String)
  | removeToken (s : Symbol) (token : String)
  | addMove (m : Move) (token : String)
  | addMacro (identifier script : String)
  | setFixity (s : Symbol) (f : Fixity)

namespace Call

/-- Makes a call. -/
def make : Call → Edit
  | addToken s token => Notation.addToken s token
  | removeToken s token => Notation.removeToken s token
  | addMove m token => Notation.addMove m token
  | addMacro identifier script => Notation.addMacro identifier script
  | setFixity s f => Notation.setFixity s f

/-- The notation after some calls; a call is made also if the one before it failed. -/
def after (calls : List Call) (n : Notation) : Notation :=
  calls.foldl (fun n call => stateAfter (call.make n)) n

theorem after_append (calls calls' : List Call) (n : Notation) :
    after (calls ++ calls') n = after calls' (after calls n) := List.foldl_append

theorem after_concat (calls : List Call) (call : Call) (n : Notation) :
    after (calls ++ [call]) n = stateAfter (call.make (after calls n)) := after_append ..

end Call

section

variable {n : Notation} {s : Symbol} {token identifier script : String} {m : Move}

theorem addToken_eq (n : Notation) (s : Symbol) (token : String) : addToken s token n =
    if token = "" then .error .emptyToken n else .ok () (n.bind s token) := by
  by_cases h : token = ""
  · subst h
    rfl
  · have hempty : token.isEmpty = false := by simpa using h
    rw [addToken, hempty, if_neg h]
    rfl

theorem addMove_eq (n : Notation) (m : Move) (token : String) : addMove m token n =
    match m.fault? with
    | some fault => .error (.move fault) n
    | none => if n.moves.contains token then .ok () n
      else if token = "" then .error .emptyToken n
      else .ok () (n.bindMove m token) := by
  have hget : (get : EStateM Fault Notation Notation) n = .ok n n := rfl
  unfold addMove
  cases m.fault? with
  | some fault => rfl
  | none =>
    refine (bind_of_ok hget).trans ?_
    dsimp only
    by_cases hcontains : n.moves.contains token = true
    · rw [if_pos hcontains, if_pos hcontains]
      rfl
    · rw [if_neg hcontains, if_neg hcontains]
      by_cases h : token = ""
      · subst h
        rfl
      · have hempty : token.isEmpty = false := by simpa using h
        rw [hempty, if_neg h]
        rfl

theorem addMacro_eq (n : Notation) (identifier script : String) :
    addMacro identifier script n =
      addToken .macroName identifier { n with macros := n.macros.put identifier script } := rfl

/-! ## What edits keep -/

/-- A property that the edits of a notation keep. -/
structure KeptByEdits (I : Notation → Prop) : Prop where
  bind : ∀ {n : Notation} (s : Symbol) {token : String}, token ≠ "" → I n → I (n.bind s token)
  unbind : ∀ {n : Notation} (s : Symbol) (token : String), I n → I (n.unbind s token)
  bindMove : ∀ {n : Notation} (m : Move) {token : String}, token ≠ "" → I n → I (n.bindMove m token)
  putMacro : ∀ {n : Notation} (identifier script : String), I n →
    I { n with macros := n.macros.put identifier script }
  putFixity : ∀ {n : Notation} (s : Symbol) (f : Fixity), I n →
    I { n with fixities := n.fixities.put s f }

/-- What the edits keep is kept by all calls, also by those that fail. -/
theorem KeptByEdits.make {I : Notation → Prop} (h : KeptByEdits I) (call : Call) :
    Keeps I call.make := by
  have hadd : ∀ s token, Keeps I (addToken s token) := by
    intro s token n hn
    rw [addToken_eq]
    split
    · exact hn
    · exact h.bind s ‹_› hn
  intro n hn
  cases call with
  | addToken s token => exact hadd s token n hn
  | removeToken s token => exact h.unbind s token hn
  | addMove m token =>
    rw [Call.make, addMove_eq]
    split
    · exact hn
    · split
      · exact hn
      · split
        · exact hn
        · exact h.bindMove m ‹_› hn
  | addMacro identifier script => exact hadd _ _ _ (h.putMacro identifier script hn)
  | setFixity s f => exact h.putFixity s f hn

theorem KeptByEdits.after {I : Notation → Prop} (h : KeptByEdits I) (calls : List Call)
    (hn : I n) : I (Call.after calls n) :=
  List.foldlRecOn calls _ hn fun _ hkept call _ => h.make call _ hkept

/-! ## Notations in which nothing is said twice -/

/-- A notation in which nothing is said twice, whose tokens are those that stand for a symbol, and in
which a token that names a move stands for moves. -/
structure Sound (n : Notation) : Prop where
  nodup_bindings : n.bindings.Nodup
  nodup_tokens : n.tokens.Nodup
  mem_tokens_iff : ∀ token, token ∈ n.tokens ↔ ∃ s, (s, token) ∈ n.bindings
  nodup_keys : n.moves.keys.Nodup
  bound : ∀ token ∈ n.moves.keys, (.move, token) ∈ n.bindings

/-- A list with an element added at the end unless it is there. -/
def listed {α : Type} [BEq α] (a : α) (l : List α) : List α :=
  if l.contains a then l else l ++ [a]

theorem mem_listed {α : Type} [BEq α] [LawfulBEq α] {a b : α} {l : List α} :
    b ∈ listed a l ↔ b = a ∨ b ∈ l := by
  unfold listed
  split
  · rename_i h
    rw [List.contains_iff_mem] at h
    exact ⟨Or.inr, fun hb => hb.elim (fun heq => heq ▸ h) id⟩
  · rw [List.mem_append, List.mem_singleton, or_comm]

theorem nodup_listed {α : Type} [BEq α] [LawfulBEq α] {a : α} {l : List α} (h : l.Nodup) :
    (listed a l).Nodup := by
  unfold listed
  split
  · exact h
  · rename_i ha
    rw [List.contains_iff_mem] at ha
    exact h.append (List.nodup_singleton a) (by simpa using ha)

theorem bindings_bind (n : Notation) (s : Symbol) (token : String) :
    (n.bind s token).bindings = listed (s, token) n.bindings := rfl

theorem tokens_bind (n : Notation) (s : Symbol) (token : String) :
    (n.bind s token).tokens = listed token n.tokens := rfl

theorem mem_bindings_unbind {b : Symbol × String} :
    b ∈ (n.unbind s token).bindings ↔ b ∈ n.bindings ∧ b ≠ (s, token) := by
  unfold Notation.unbind
  rw [List.mem_filter, decide_eq_true_iff]

theorem keys_unbind (n : Notation) (s : Symbol) (token : String) : (n.unbind s token).moves.keys =
    if s = .move then n.moves.keys.filter (· ≠ token) else n.moves.keys := by
  unfold Notation.unbind
  dsimp only
  split
  · exact Table.keys_erase _ _
  · rfl

theorem Sound.empty {k : Nat} (h : 2 ≤ k) (builtIn : Bool) :
    Sound { layerCount := k, builtIn } where
  nodup_bindings := List.nodup_nil
  nodup_tokens := List.nodup_nil
  mem_tokens_iff := by simp
  nodup_keys := List.nodup_nil
  bound token htoken := by contradiction

theorem Sound.bind (h : n.Sound) (s : Symbol) (token : String) : (n.bind s token).Sound where
  nodup_bindings := nodup_listed h.nodup_bindings
  nodup_tokens := nodup_listed h.nodup_tokens
  mem_tokens_iff other := by
    rw [tokens_bind, bindings_bind, mem_listed, h.mem_tokens_iff]
    constructor
    · rintro (rfl | ⟨s', hs'⟩)
      · exact ⟨s, mem_listed.mpr (Or.inl rfl)⟩
      · exact ⟨s', mem_listed.mpr (Or.inr hs')⟩
    · rintro ⟨s', hs'⟩
      rcases mem_listed.mp hs' with heq | hs'
      · exact Or.inl (Prod.mk.inj heq).2
      · exact Or.inr ⟨s', hs'⟩
  nodup_keys := h.nodup_keys
  bound other hother := mem_listed.mpr (Or.inr (h.bound other hother))

theorem Sound.unbind (h : n.Sound) (s : Symbol) (token : String) : (n.unbind s token).Sound where
  nodup_bindings := h.nodup_bindings.filter _
  nodup_tokens := by
    unfold Notation.unbind
    dsimp only
    split
    · exact h.nodup_tokens
    · exact h.nodup_tokens.filter _
  mem_tokens_iff other := by
    simp only [mem_bindings_unbind]
    unfold Notation.unbind
    dsimp only
    split
    · rename_i hkept
      obtain ⟨b, hb, heq⟩ := List.any_eq_true.mp hkept
      obtain ⟨hb, hne⟩ := List.mem_filter.mp hb
      rw [h.mem_tokens_iff]
      refine ⟨fun ⟨s', hs'⟩ => ?_, fun ⟨s', hs', _⟩ => ⟨s', hs'⟩⟩
      -- The token still stands for the symbol of `b`.
      by_cases hother : other = token
      · obtain rfl : b.2 = other := by simpa [hother] using heq
        exact ⟨b.1, hb, of_decide_eq_true hne⟩
      · exact ⟨s', hs', fun hsame => hother (Prod.mk.inj hsame).2⟩
    · rename_i hgone
      rw [List.mem_filter, decide_eq_true_iff, h.mem_tokens_iff]
      constructor
      · rintro ⟨⟨s', hs'⟩, hother⟩
        exact ⟨s', hs', fun hsame => hother (Prod.mk.inj hsame).2⟩
      · rintro ⟨s', hs', hne⟩
        refine ⟨⟨s', hs'⟩, ?_⟩
        rintro rfl
        refine hgone (List.any_eq_true.mpr ⟨(s', other), List.mem_filter.mpr ⟨hs', ?_⟩, ?_⟩)
        · simpa using hne
        · simp
  nodup_keys := by
    rw [keys_unbind]
    split
    · exact h.nodup_keys.filter _
    · exact h.nodup_keys
  bound other hother := by
    rw [keys_unbind] at hother
    rw [mem_bindings_unbind]
    split at hother
    · obtain ⟨hother, hne⟩ := List.mem_filter.mp hother
      exact ⟨h.bound other hother, fun hsame => of_decide_eq_true hne (Prod.mk.inj hsame).2⟩
    · rename_i hs
      exact ⟨h.bound other hother, fun hsame => hs (Prod.mk.inj hsame).1.symm⟩

/-- A token that names no move comes to stand for moves and to name one. -/
theorem bindMove_eq (hfresh : ¬n.moves.contains token = true) (m : Move) : n.bindMove m token =
    { n.bind .move token with moves := ⟨n.moves.entries ++ [(token, m)]⟩ } := by
  rw [← Table.put_of_notMem (mt Table.contains_iff_mem_keys.mpr hfresh) m]
  exact if_neg hfresh

theorem Sound.bindMove (h : n.Sound) (m : Move) (token : String) : (n.bindMove m token).Sound := by
  by_cases hknown : n.moves.contains token = true
  · rwa [Notation.bindMove, if_pos hknown]
  · have hbound := h.bind .move token
    have hfresh : token ∉ n.moves.keys := mt Table.contains_iff_mem_keys.mpr hknown
    have hkeys : (Table.mk (n.moves.entries ++ [(token, m)])).keys = n.moves.keys ++ [token] :=
      List.map_append
    rw [bindMove_eq hknown]
    refine ⟨hbound.nodup_bindings, hbound.nodup_tokens, hbound.mem_tokens_iff, ?_, ?_⟩
    · rw [hkeys]
      exact h.nodup_keys.append (List.nodup_singleton token) (by simpa using hfresh)
    · intro other hother
      rw [hkeys, List.mem_append, List.mem_singleton] at hother
      rcases hother with hother | rfl
      · exact hbound.bound other hother
      · exact mem_listed.mpr (Or.inl rfl)

theorem Sound.keptByEdits : KeptByEdits Sound where
  bind s _ _ h := h.bind s _
  unbind s token h := h.unbind s token
  bindMove m _ _ h := h.bindMove m _
  putMacro _ _ h := ⟨h.1, h.2, h.3, h.4, h.5⟩
  putFixity _ _ h := ⟨h.1, h.2, h.3, h.4, h.5⟩

/-! ## What queries tell -/

theorem mem_tokensFor : token ∈ n.tokensFor s ↔ (s, token) ∈ n.bindings := by
  simp [tokensFor]

theorem mem_symbolsFor : s ∈ n.symbolsFor token ↔ (s, token) ∈ n.bindings := by
  simp [symbolsFor]

/-- Nothing said twice makes consistent answers. -/
theorem Sound.consistent (h : n.Sound) : n.answers.Consistent where
  mem_tokensFor_iff s token := mem_tokensFor.trans mem_symbolsFor.symm
  nodup_tokensFor s := by
    refine (h.nodup_bindings.filter _).map_on fun b hb b' hb' hsame => ?_
    have hs : b.1 = s := by simpa using (List.mem_filter.mp hb).2
    have hs' : b'.1 = s := by simpa using (List.mem_filter.mp hb').2
    exact Prod.ext (hs.trans hs'.symm) hsame
  nodup_symbolsFor token := by
    refine (h.nodup_bindings.filter _).map_on fun b hb b' hb' hsame => ?_
    have ht : b.2 = token := by simpa using (List.mem_filter.mp hb).2
    have ht' : b'.2 = token := by simpa using (List.mem_filter.mp hb').2
    exact Prod.ext hsame (ht.trans ht'.symm)
  nodup_tokens := h.nodup_tokens
  mem_tokens_iff token := by
    refine (h.mem_tokens_iff token).trans ?_
    rw [ne_eq, List.eq_nil_iff_forall_not_mem, not_forall_not]
    exact exists_congr fun s => mem_symbolsFor.symm
  nodup_moves := h.nodup_keys
  move?_iff token m := Table.get?_eq_some_iff_mem h.nodup_keys
  move_mem_symbolsFor e he := mem_symbolsFor.mpr (h.bound e.1 (List.mem_map_of_mem he))
  moveToken?_ne_none_iff m := by
    show n.moveToken? m ≠ none ↔ ∃ e ∈ n.moves.entries, e.2 = m
    simp [moveToken?]
  move?_of_moveToken? m token hfound := by
    obtain ⟨e, he, rfl⟩ := Option.map_eq_some_iff.mp hfound
    obtain rfl : e.2 = m := by simpa using List.find?_some he
    exact (Table.get?_eq_some_iff_mem h.nodup_keys).mpr (List.mem_of_find?_eq_some he)

end

end Notation

end CubeLang
