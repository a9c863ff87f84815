import CubeLang.Proofs.Notation.Calls
import Mathlib.Logic.Function.Basic

/-!
# Since when a token names a move

A token comes to name a move by one of the calls and does so until it is removed. The tokens stand in
the order of these calls, so that the first token of a move, which is the one to write, is the one
that has named it for the longest time.
-/

set_option autoImplicit false

namespace CubeLang.Notation

variable {n start : Notation} {calls : List Call} {call : Call} {i : Nat} {token : String} {m : Move}

/-- The call with the number `i` made a token name a move, and it has named this move ever since. -/
structure Since (start : Notation) (calls : List Call) (i : Nat) (token : String) (m : Move) :
    Prop where
  lt_length : i < calls.length
  before : (Call.after (calls.take i) start).move? token = none
  since : ∀ j, i < j → j ≤ calls.length → (Call.after (calls.take j) start).move? token = some m

theorem Since.concat (h : Since start calls i token m)
    (hkept : (Call.after (calls ++ [call]) start).move? token = some m) :
    Since start (calls ++ [call]) i token m := by
  have htake : ∀ {j}, j ≤ calls.length → (calls ++ [call]).take j = calls.take j :=
    fun hj => List.take_append_of_le_length hj
  refine ⟨by simpa using Nat.lt_succ_of_lt h.lt_length, ?_, fun j hij hj => ?_⟩
  · rw [htake (Nat.le_of_lt h.lt_length)]
    exact h.before
  · rcases Nat.lt_or_ge calls.length j with hlast | hj
    · rwa [List.take_of_length_le (by simpa using Nat.succ_le_of_lt hlast)]
    · rw [htake hj]
      exact h.since j hij hj

theorem since_last (hbefore : (Call.after calls start).move? token = none)
    (hafter : (Call.after (calls ++ [call]) start).move? token = some m) :
    Since start (calls ++ [call]) calls.length token m := by
  refine ⟨by simp, ?_, fun j hij hj => ?_⟩
  · rwa [List.take_left]
  · rwa [List.take_of_length_le (by simpa using Nat.succ_le_of_lt hij)]

/-- A call takes entries away, or adds one at the end for a token that named no move. -/
theorem entries_make (n : Notation) (call : Call) :
    (stateAfter (call.make n)).moves.entries.Sublist n.moves.entries ∨
      ∃ m token, n.move? token = none ∧
        (stateAfter (call.make n)).moves.entries = n.moves.entries ++ [(token, m)] := by
  have hadd : ∀ (n : Notation) s token,
      (stateAfter (addToken s token n)).moves.entries = n.moves.entries := by
    intro n s token
    rw [addToken_eq]
    split <;> rfl
  cases call with
  | addToken s token => exact Or.inl (hadd n s token ▸ List.Sublist.refl _)
  | removeToken s token =>
    left
    show (n.unbind s token).moves.entries.Sublist n.moves.entries
    unfold unbind
    dsimp only
    split
    · exact List.filter_sublist
    · exact List.Sublist.refl _
  | addMove m token =>
    rw [Call.make, addMove_eq]
    split
    · exact Or.inl (List.Sublist.refl _)
    · split
      · exact Or.inl (List.Sublist.refl _)
      · rename_i hfresh
        split
        · exact Or.inl (List.Sublist.refl _)
        · have hnone : n.move? token = none := by simpa [Table.contains, move?] using hfresh
          have hentries : (n.bindMove m token).moves.entries = n.moves.entries ++ [(token, m)] := by
            rw [bindMove_eq hfresh]
          exact Or.inr ⟨m, token, hnone, hentries⟩
  | addMacro identifier script =>
    left
    rw [Call.make, addMacro_eq, hadd]
  | setFixity s f => exact Or.inl (List.Sublist.refl _)

theorem Sound.move?_of_mem (h : n.Sound) {e : String × Move} (he : e ∈ n.moves.entries) :
    n.move? e.1 = some e.2 :=
  (Table.get?_eq_some_iff_mem h.nodup_keys).mpr he

/-- The entries of a notation stand in the order of the calls that made them. -/
structure Registered (start : Notation) (calls : List Call) (since : String → Nat) : Prop where
  named : ∀ e ∈ (Call.after calls start).moves.entries, Since start calls (since e.1) e.1 e.2
  order : (Call.after calls start).moves.entries.Pairwise fun e e' => since e.1 < since e'.1

/-- A call more. -/
theorem Registered.concat (hsound : start.Sound) {since : String → Nat}
    (h : Registered start calls since) (call : Call) :
    ∃ since, Registered start (calls ++ [call]) since := by
  have hbefore := Sound.keptByEdits.after calls hsound
  have hafter := Sound.keptByEdits.after (calls ++ [call]) hsound
  rcases entries_make (Call.after calls start) call with hsub | ⟨m, token, hfresh, hentries⟩
  · rw [← Call.after_concat] at hsub
    refine ⟨since, fun e he => ?_, h.order.sublist hsub⟩
    exact (h.named e (hsub.subset he)).concat (hafter.move?_of_mem he)
  · rw [← Call.after_concat] at hentries
    have hother : ∀ e ∈ (Call.after calls start).moves.entries, e.1 ≠ token := by
      rintro e he rfl
      rw [hbefore.move?_of_mem he] at hfresh
      contradiction
    have hsame : ∀ e ∈ (Call.after calls start).moves.entries,
        Function.update since token calls.length e.1 = since e.1 :=
      fun e he => Function.update_of_ne (hother e he) _ _
    refine ⟨Function.update since token calls.length, fun e he => ?_, ?_⟩
    · have hkept := hafter.move?_of_mem he
      rw [hentries, List.mem_append, List.mem_singleton] at he
      rcases he with he | rfl
      · rw [hsame e he]
        exact (h.named e he).concat hkept
      · rw [Function.update_self]
        exact since_last hfresh hkept
    · rw [hentries, List.pairwise_append]
      refine ⟨h.order.imp_of_mem fun he he' hlt => ?_, List.pairwise_singleton .., ?_⟩
      · rwa [hsame _ he, hsame _ he']
      · intro e he e' he'
        obtain rfl := List.mem_singleton.mp he'
        rw [hsame e he, Function.update_self]
        exact (h.named e he).lt_length

theorem exists_registered (hsound : start.Sound) (hempty : start.moves = ∅) (calls : List Call) :
    ∃ since, Registered start calls since := by
  induction calls using List.reverseRecOn with
  | nil =>
    have hnone : (Call.after [] start).moves.entries = [] := congrArg Table.entries hempty
    exact ⟨fun _ => 0, by simp [hnone], by simp [hnone]⟩
  | append_singleton calls call ih =>
    obtain ⟨since, h⟩ := ih
    exact h.concat hsound call

/-- The token that a move is written with has named it longer than all its other tokens. -/
theorem since_moveToken? (hsound : start.Sound) (hempty : start.moves = ∅) {other : String}
    (htoken : (Call.after calls start).moveToken? m = some token)
    (hother : (Call.after calls start).move? other = some m) (hne : other ≠ token) :
    ∃ i j, i < j ∧ Since start calls i token m ∧ Since start calls j other m := by
  obtain ⟨since, h⟩ := exists_registered hsound hempty calls
  obtain ⟨e, he, rfl⟩ := Option.map_eq_some_iff.mp htoken
  obtain ⟨hmove, before, behind, hentries, hbefore⟩ := List.find?_eq_some_iff_append.mp he
  obtain rfl : e.2 = m := of_decide_eq_true hmove
  have hmem : (other, e.2) ∈ (Call.after calls start).moves.entries :=
    (Table.get?_eq_some_iff_mem (Sound.keptByEdits.after calls hsound).nodup_keys).mp hother
  have hbehind : (other, e.2) ∈ behind := by
    rw [hentries, List.mem_append, List.mem_cons] at hmem
    rcases hmem with hmem | heq | hmem
    · have hother := hbefore _ hmem
      simp at hother
    · exact absurd (congrArg Prod.fst heq) hne
    · exact hmem
  refine ⟨since e.1, since other, ?_, h.named e ?_, h.named _ hmem⟩
  · have horder := h.order
    rw [hentries, List.pairwise_append, List.pairwise_cons] at horder
    exact horder.2.1.1 _ hbehind
  · rw [hentries]
    exact List.mem_append_right _ List.mem_cons_self

end CubeLang.Notation
