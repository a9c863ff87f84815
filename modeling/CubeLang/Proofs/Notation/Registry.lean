import CubeLang.Proofs.Notation.Registration

/-!
# Notations as dictionaries

A notation can be kept in four dictionaries, from symbols to tokens and back and from moves to tokens
and back, each with its tokens or symbols in the order in which they came. Every edit then has to
write to several of them: what is removed on one side has to be removed on the other, a token that
stands for nothing is dropped, and one that no longer stands for moves loses its move. A registry
that is edited in this way ends every call as the notation does and gives the same answers.
-/

set_option autoImplicit false

namespace CubeLang

open Notation (listed)

/-- The dictionaries of a notation. -/
structure Registry where
  tokensOf : Table Symbol (List String) := ∅
  symbolsOf : Table String (List Symbol) := ∅
  namesOf : Table Move (List String) := ∅
  moveOf : Table String Move := ∅
  fixities : Table Symbol Fixity := ∅
  macros : Table String String := ∅

namespace Registry

/-- Why an edit fails. -/
inductive Fault where
  /-- The edit is refused. -/
  | refused (fault : Notation.Fault)
  /-- A token is to be removed from the tokens of its move and is none of them. -/
  | unlisted

/-- A step that changes a registry and may fail; the registry keeps what was written before. -/
abbrev Edit := EStateM Fault Registry Unit

/-! ## Queries -/

/-- The tokens of a symbol, the earliest first. -/
def tokensFor (r : Registry) (s : Symbol) : List String := (r.tokensOf.get? s).getD []

/-- The symbols of a token, the earliest first. -/
def symbolsFor (r : Registry) (token : String) : List Symbol := (r.symbolsOf.get? token).getD []

/-- The tokens of a move, the earliest first. -/
def namesFor (r : Registry) (m : Move) : List String := (r.namesOf.get? m).getD []

/-- The answers of a registry. -/
def answers (r : Registry) : Notation.Answers where
  tokensFor := r.tokensFor
  symbolsFor := r.symbolsFor
  tokens := r.symbolsOf.keys
  moves := r.moveOf.entries
  move? token := r.moveOf.get? token
  moveToken? m := (r.namesFor m).head?
  fixity s := (r.fixities.get? s.composite).getD .primary
  supports s := r.fixities.contains s || !(r.tokensFor s).isEmpty
  macros := r.macros.entries

/-! ## Edits -/

/-- The registry in which a token stands for a symbol. -/
def bind (r : Registry) (s : Symbol) (token : String) : Registry :=
  { r with
    tokensOf := r.tokensOf.put s (listed token (r.tokensFor s))
    symbolsOf := r.symbolsOf.put token (listed s (r.symbolsFor token)) }

/-- The registry in which a token no longer stands for a symbol. -/
def unbind (r : Registry) (s : Symbol) (token : String) : Registry :=
  let symbols := (r.symbolsFor token).erase s
  { r with
    tokensOf :=
      if r.tokensOf.contains s then r.tokensOf.put s ((r.tokensFor s).erase token) else r.tokensOf
    symbolsOf :=
      if symbols.isEmpty then r.symbolsOf.erase token else r.symbolsOf.put token symbols }

/-- Lets a token stand for a symbol. -/
def addToken (s : Symbol) (token : String) : Edit := do
  if token.isEmpty then throw (.refused .emptyToken)
  modify fun r => r.bind s token

/-- Lets a token name no move. -/
def removeMove (token : String) : Edit := do
  let r ← get
  match r.moveOf.get? token with
  | none => pure ()
  | some m =>
    set { r with moveOf := r.moveOf.erase token }
    if (r.namesFor m).contains token then
      modify fun r => { r with namesOf := r.namesOf.put m ((r.namesFor m).erase token) }
    else throw .unlisted

/-- Lets a token no longer stand for a symbol. -/
def removeToken (s : Symbol) (token : String) : Edit := do
  modify fun r => r.unbind s token
  if s = .move then removeMove token

/-- Lets a token name a legal move, unless it names one already. -/
def addMove (m : Move) (token : String) : Edit := do
  if let some fault := m.fault? then throw (.refused (.move fault))
  let r ← get
  if r.moveOf.contains token then return
  addToken .move token
  modify fun r => { r with
    namesOf := r.namesOf.put m (r.namesFor m ++ [token])
    moveOf := r.moveOf.put token m }

/-- Writes the script of a macro, then lets its name be a token. -/
def addMacro (identifier script : String) : Edit := do
  modify fun r => { r with macros := r.macros.put identifier script }
  addToken .macroName identifier

/-- Sets the fixity of a composite. -/
def setFixity (s : Symbol) (f : Fixity) : Edit :=
  modify fun r => { r with fixities := r.fixities.put s f }

/-- Makes a call. -/
def make : Notation.Call → Edit
  | .addToken s token => addToken s token
  | .removeToken s token => removeToken s token
  | .addMove m token => addMove m token
  | .addMacro identifier script => addMacro identifier script
  | .setFixity s f => setFixity s f

/-- The registry after some calls; a call is made also if the one before it failed. -/
def after (calls : List Notation.Call) (r : Registry) : Registry :=
  calls.foldl (fun r call => stateAfter (make call r)) r

/-! ## Parts of lists -/

section

variable {α β : Type} {l : List α} {a : α} {p : α → Bool} {f : α → β}
variable (hf : ∀ x y, p x = true → p y = true → f x = f y → x = y)
include hf

theorem mem_map_filter_iff (ha : p a = true) : f a ∈ (l.filter p).map f ↔ a ∈ l := by
  rw [List.mem_map]
  constructor
  · rintro ⟨x, hx, hsame⟩
    obtain ⟨hx, hpx⟩ := List.mem_filter.mp hx
    exact hf x a hpx ha hsame ▸ hx
  · exact fun h => ⟨a, List.mem_filter.mpr ⟨h, ha⟩, rfl⟩

variable [BEq β] [LawfulBEq β]

/-- What is added to a list is added to the part that it belongs to. -/
theorem map_filter_listed [BEq α] [LawfulBEq α] (l : List α) (a : α) :
    ((listed a l).filter p).map f =
      if p a then listed (f a) ((l.filter p).map f) else (l.filter p).map f := by
  by_cases ha : p a = true
  · have hmem : ((l.filter p).map f).contains (f a) = l.contains a := by
      rw [Bool.eq_iff_iff, List.contains_iff_mem, List.contains_iff_mem, mem_map_filter_iff hf ha]
    rw [if_pos ha, listed, listed, hmem]
    split
    · rfl
    · simp [List.filter_append, ha]
  · rw [if_neg ha, listed]
    split
    · rfl
    · simp [List.filter_append, ha]

/-- What is removed from a list is removed from the part that it belongs to. -/
theorem map_filter_erase [DecidableEq α] (hl : l.Nodup) (a : α) :
    ((l.filter (· ≠ a)).filter p).map f =
      if p a then ((l.filter p).map f).erase (f a) else (l.filter p).map f := by
  rw [List.filter_filter]
  by_cases ha : p a = true
  · have hnodup : ((l.filter p).map f).Nodup := (hl.filter _).map_on fun x hx y hy hsame =>
      hf x y (List.mem_filter.mp hx).2 (List.mem_filter.mp hy).2 hsame
    rw [if_pos ha, hnodup.erase_eq_filter, List.filter_map, List.filter_filter]
    congr 1
    refine List.filter_congr fun x _ => ?_
    cases hx : p x with
    | false => simp
    | true =>
      by_cases hxa : x = a
      · simp [hxa]
      · simp [hxa, mt (hf x a hx ha) hxa]
  · rw [if_neg ha]
    congr 1
    refine List.filter_congr fun x _ => ?_
    cases hx : p x with
    | false => simp
    | true =>
      have hne : x ≠ a := by
        rintro rfl
        exact ha hx
      simp [hne]

end

/-! ## Registry and notation -/

/-- A registry says what a notation says. -/
structure Mirrors (r : Registry) (n : Notation) : Prop where
  tokensFor : ∀ s, r.tokensFor s = n.tokensFor s
  symbolsFor : ∀ token, r.symbolsFor token = n.symbolsFor token
  tokens : r.symbolsOf.keys = n.tokens
  moveOf : r.moveOf = n.moves
  namesFor : ∀ m, r.namesFor m = (n.moves.entries.filter fun e => e.2 = m).map Prod.fst
  fixities : r.fixities = n.fixities
  macros : r.macros = n.macros

variable {r : Registry} {n : Notation} {s : Symbol} {token identifier script : String} {m : Move}

theorem Mirrors.answers (h : Mirrors r n) : r.answers = n.answers := by
  have hmoveToken : ∀ m, (r.namesFor m).head? = n.moveToken? m := by
    intro m
    rw [h.namesFor, List.head?_map, List.head?_filter]
    rfl
  unfold Registry.answers Notation.answers
  congr 1
  · exact funext h.tokensFor
  · exact funext h.symbolsFor
  · exact h.tokens
  · rw [h.moveOf]
  · rw [h.moveOf]
    rfl
  · exact funext hmoveToken
  · rw [h.fixities]
    rfl
  · rw [h.fixities]
    funext s
    rw [h.tokensFor]
    rfl
  · rw [h.macros]

theorem tokensFor_bind (r : Registry) (s other : Symbol) (token : String) :
    (r.bind s token).tokensFor other =
      if s = other then listed token (r.tokensFor s) else r.tokensFor other := by
  unfold bind tokensFor
  rw [Table.get?_put]
  split <;> rfl

theorem symbolsFor_bind (r : Registry) (s : Symbol) (token other : String) :
    (r.bind s token).symbolsFor other =
      if token = other then listed s (r.symbolsFor token) else r.symbolsFor other := by
  unfold bind symbolsFor
  rw [Table.get?_put]
  split <;> rfl

theorem Mirrors.bind (h : Mirrors r n) (s : Symbol) (token : String) :
    Mirrors (r.bind s token) (n.bind s token) where
  tokensFor other := by
    have hpart := map_filter_listed (p := fun b : Symbol × String => b.1 = other) (f := Prod.snd)
      (by simp) n.bindings (s, token)
    rw [tokensFor_bind, h.tokensFor, h.tokensFor]
    refine Eq.trans ?_ hpart.symm
    by_cases hs : s = other
    · subst hs
      simp [Notation.tokensFor]
    · simp [Notation.tokensFor, hs]
  symbolsFor other := by
    have hpart := map_filter_listed (p := fun b : Symbol × String => b.2 = other) (f := Prod.fst)
      (by simp) n.bindings (s, token)
    rw [symbolsFor_bind, h.symbolsFor, h.symbolsFor]
    refine Eq.trans ?_ hpart.symm
    by_cases ht : token = other
    · subst ht
      simp [Notation.symbolsFor]
    · simp [Notation.symbolsFor, ht]
  tokens := by
    show (r.symbolsOf.put token _).keys = listed token n.tokens
    rw [Table.keys_put, h.tokens, listed]
    simp only [List.contains_iff_mem]
  moveOf := h.moveOf
  namesFor := h.namesFor
  fixities := h.fixities
  macros := h.macros

theorem tokensFor_unbind (r : Registry) (s other : Symbol) (token : String) :
    (r.unbind s token).tokensFor other =
      if s = other then (r.tokensFor s).erase token else r.tokensFor other := by
  unfold unbind tokensFor
  dsimp only
  split
  · rw [Table.get?_put]
    split <;> rfl
  · rename_i hnone
    split
    · rename_i hs
      subst hs
      have hnone : r.tokensOf.get? s = none := by simpa [Table.contains] using hnone
      rw [hnone]
      rfl
    · rfl

theorem symbolsFor_unbind (r : Registry) (s : Symbol) (token other : String) :
    (r.unbind s token).symbolsFor other =
      if token = other then (r.symbolsFor token).erase s else r.symbolsFor other := by
  unfold unbind symbolsFor
  dsimp only
  split
  · rename_i hempty
    rw [Table.get?_erase]
    split
    · exact (List.isEmpty_iff.mp hempty).symm
    · rfl
  · rw [Table.get?_put]
    split <;> rfl

theorem keys_unbind (r : Registry) (s : Symbol) (token : String) :
    (r.unbind s token).symbolsOf.keys = if (r.symbolsFor token).erase s = [] then
      r.symbolsOf.keys.filter (· ≠ token) else r.symbolsOf.keys := by
  unfold unbind
  dsimp only
  by_cases hempty : (r.symbolsFor token).erase s = []
  · rw [if_pos (List.isEmpty_iff.mpr hempty), if_pos hempty, Table.keys_erase]
  · rw [if_neg (mt List.isEmpty_iff.mp hempty), if_neg hempty]
    refine Table.keys_put_of_mem (Table.contains_iff_mem_keys.mp ?_) _
    -- A token that is none of the keys has no symbols.
    by_contra hnone
    have hnone : r.symbolsOf.get? token = none := by simpa [Table.contains] using hnone
    refine hempty ?_
    rw [symbolsFor, hnone]
    rfl

/-- What a token stands for is told alike once it no longer stands for a symbol. -/
theorem Mirrors.unbind (h : Mirrors r n) (hn : n.Sound) (s : Symbol) (token : String) :
    Mirrors (r.unbind s token) { n.unbind s token with moves := n.moves } := by
  have hsymbols : ∀ other, (n.unbind s token).symbolsFor other =
      if token = other then (n.symbolsFor token).erase s else n.symbolsFor other := by
    intro other
    have hpart := map_filter_erase (p := fun b : Symbol × String => b.2 = other) (f := Prod.fst)
      (by simp) hn.nodup_bindings (s, token)
    refine hpart.trans ?_
    by_cases ht : token = other
    · subst ht
      simp [Notation.symbolsFor]
    · simp [Notation.symbolsFor, ht]
  refine ⟨fun other => ?_, fun other => ?_, ?_, h.moveOf, h.namesFor, h.fixities, h.macros⟩
  · have hpart := map_filter_erase (p := fun b : Symbol × String => b.1 = other) (f := Prod.snd)
      (by simp) hn.nodup_bindings (s, token)
    rw [tokensFor_unbind, h.tokensFor, h.tokensFor]
    refine Eq.trans ?_ hpart.symm
    by_cases hs : s = other
    · subst hs
      simp [Notation.tokensFor]
    · simp [Notation.tokensFor, hs]
  · rw [symbolsFor_unbind, h.symbolsFor, h.symbolsFor]
    exact (hsymbols other).symm
  · have hgone : (n.unbind s token).bindings.any (fun b => b.2 = token) = false ↔
        (r.symbolsFor token).erase s = [] := by
      have hself := hsymbols token
      rw [if_pos rfl, ← h.symbolsFor] at hself
      rw [← hself, Notation.symbolsFor, List.map_eq_nil_iff, List.filter_eq_nil_iff,
        List.any_eq_false]
    rw [keys_unbind, h.tokens]
    show _ = (n.unbind s token).tokens
    unfold Notation.unbind at hgone ⊢
    dsimp only at hgone ⊢
    split
    · rename_i hempty
      rw [hgone.mpr hempty]
      rfl
    · rename_i hkept
      rw [if_pos]
      by_contra hany
      exact hkept (hgone.mp (Bool.not_eq_true _ ▸ hany))

/-! ## Moves -/

theorem removeMove_eq (r : Registry) (token : String) : removeMove token r =
    match r.moveOf.get? token with
    | none => .ok () r
    | some m => if (r.namesFor m).contains token then
        .ok () { r with
          moveOf := r.moveOf.erase token
          namesOf := r.namesOf.put m ((r.namesFor m).erase token) }
      else .error .unlisted { r with moveOf := r.moveOf.erase token } := by
  have hget : (get : EStateM Fault Registry Registry) r = .ok r r := rfl
  unfold removeMove
  refine (bind_of_ok hget).trans ?_
  cases r.moveOf.get? token with
  | none => rfl
  | some m =>
    dsimp only
    split <;> rfl

theorem namesFor_of_put {r' : Registry} {names : List String}
    (h : r'.namesOf = r.namesOf.put m names) (other : Move) :
    r'.namesFor other = if m = other then names else r.namesFor other := by
  unfold namesFor
  rw [h, Table.get?_put]
  split <;> rfl

/-- A token is always among the tokens of its move, and it is taken away on both sides. -/
theorem Mirrors.removeMove (h : Mirrors r n) (hkeys : n.moves.keys.Nodup) (token : String) :
    ∃ r', Registry.removeMove token r = .ok () r' ∧
      Mirrors r' { n with moves := n.moves.erase token } := by
  rw [removeMove_eq, h.moveOf]
  cases hmove : n.moves.get? token with
  | none =>
    have hnone : token ∉ n.moves.keys := by
      rw [← Table.contains_iff_mem_keys, Table.contains, hmove]
      exact Bool.false_ne_true
    rw [Table.erase_of_notMem hnone]
    exact ⟨r, rfl, h⟩
  | some m =>
    have hmem : (token, m) ∈ n.moves.entries := (Table.get?_eq_some_iff_mem hkeys).mp hmove
    have hnamed : (r.namesFor m).contains token = true := by
      rw [List.contains_iff_mem, h.namesFor]
      exact List.mem_map_of_mem (List.mem_filter.mpr ⟨hmem, by simp⟩)
    dsimp only
    rw [if_pos hnamed]
    refine ⟨_, rfl, h.tokensFor, h.symbolsFor, h.tokens, rfl, fun other => ?_, h.fixities, h.macros⟩
    -- The token has one entry, which is that of its move.
    have hentries : (n.moves.erase token).entries = n.moves.entries.filter (· ≠ (token, m)) := by
      refine List.filter_congr fun e he => ?_
      have hsame : e.1 = token ↔ e = (token, m) :=
        ⟨fun hkey => List.inj_on_of_nodup_map hkeys he hmem hkey, congrArg Prod.fst⟩
      simp only [ne_eq, hsame]
    have hpart := map_filter_erase (p := fun e : String × Move => e.2 = other) (f := Prod.fst)
      (by simp) hkeys.of_map (token, m)
    dsimp only
    rw [namesFor_of_put rfl, h.namesFor, h.namesFor, hentries, hpart]
    by_cases hm : m = other
    · subst hm
      simp
    · simp [hm]

theorem Mirrors.bindMove (h : Mirrors r n) (hfresh : ¬n.moves.contains token = true) (m : Move) :
    Mirrors { r.bind .move token with
      namesOf := r.namesOf.put m (r.namesFor m ++ [token])
      moveOf := n.moves.put token m } (n.bindMove m token) := by
  have hbound := h.bind .move token
  rw [Notation.bindMove_eq hfresh,
    Table.put_of_notMem (mt Table.contains_iff_mem_keys.mpr hfresh) m]
  refine ⟨hbound.tokensFor, hbound.symbolsFor, hbound.tokens, rfl, fun other => ?_,
    h.fixities, h.macros⟩
  rw [namesFor_of_put rfl, List.filter_append, List.map_append, ← h.namesFor other]
  by_cases hm : m = other
  · subst hm
    simp
  · simp [hm]

/-! ## Calls -/

/-- A call ends alike for a registry and for a notation. -/
inductive EndsAlike : EStateM.Result Fault Registry Unit →
    EStateM.Result Notation.Fault Notation Unit → Prop
  | ok {r : Registry} {n : Notation} (h : Mirrors r n) : EndsAlike (.ok () r) (.ok () n)
  | error {r : Registry} {n : Notation} (fault : Notation.Fault) (h : Mirrors r n) :
    EndsAlike (.error (.refused fault) r) (.error fault n)

theorem EndsAlike.mirrors {x : EStateM.Result Fault Registry Unit}
    {y : EStateM.Result Notation.Fault Notation Unit} (h : EndsAlike x y) :
    Mirrors (stateAfter x) (stateAfter y) := by
  cases h with
  | ok h => exact h
  | error fault h => exact h

theorem EndsAlike.outcome_eq {x : EStateM.Result Fault Registry Unit}
    {y : EStateM.Result Notation.Fault Notation Unit} (h : EndsAlike x y) :
    outcome x = (outcome y).mapError Fault.refused := by
  cases h with
  | ok h => rfl
  | error fault h => rfl

theorem Mirrors.addToken (h : Mirrors r n) (s : Symbol) (token : String) :
    EndsAlike (Registry.addToken s token r) (Notation.addToken s token n) := by
  rw [Notation.addToken_eq]
  by_cases htoken : token = ""
  · subst htoken
    exact .error .emptyToken h
  · have hempty : token.isEmpty = false := by simpa using htoken
    rw [if_neg htoken, Registry.addToken, hempty]
    exact .ok (h.bind s token)

theorem addMove_eq (r : Registry) (m : Move) (token : String) : addMove m token r =
    match m.fault? with
    | some fault => .error (.refused (.move fault)) r
    | none => if r.moveOf.contains token then .ok () r
      else if token = "" then .error (.refused .emptyToken) r
      else .ok () { r.bind .move token with
        namesOf := r.namesOf.put m (r.namesFor m ++ [token])
        moveOf := r.moveOf.put token m } := by
  have hget : (get : EStateM Fault Registry Registry) r = .ok r r := rfl
  unfold addMove
  cases m.fault? with
  | some fault => rfl
  | none =>
    refine (bind_of_ok hget).trans ?_
    dsimp only
    by_cases hcontains : r.moveOf.contains token = true
    · rw [if_pos hcontains, if_pos hcontains]
      rfl
    · rw [if_neg hcontains, if_neg hcontains]
      by_cases h : token = ""
      · subst h
        rfl
      · have hempty : token.isEmpty = false := by simpa using h
        rw [if_neg h, addToken, hempty]
        rfl

/-- Every call ends alike. -/
theorem Mirrors.endsAlike (h : Mirrors r n) (hn : n.Sound) (call : Notation.Call) :
    EndsAlike (make call r) (call.make n) := by
  cases call with
  | addToken s token => exact h.addToken s token
  | removeToken s token =>
    have hunbound := h.unbind hn s token
    by_cases hs : s = .move
    · subst hs
      obtain ⟨r', hr', hmoved⟩ := hunbound.removeMove hn.nodup_keys token
      have hrun : Registry.removeToken .move token r = .ok () r' := hr'
      rw [make, hrun]
      exact .ok hmoved
    · have hrun : Registry.removeToken s token r = .ok () (r.unbind s token) := by
        rw [removeToken, if_neg hs]
        rfl
      have hmoves : n.unbind s token = { n.unbind s token with moves := n.moves } := by
        simp only [Notation.unbind, if_neg hs]
      rw [← hmoves] at hunbound
      rw [make, hrun]
      exact .ok hunbound
  | addMove m token =>
    rw [make, addMove_eq, Notation.Call.make, Notation.addMove_eq, h.moveOf]
    cases m.fault? with
    | some fault => exact .error (.move fault) h
    | none =>
      dsimp only
      split
      · exact .ok h
      · rename_i hfresh
        split
        · exact .error .emptyToken h
        · exact .ok (h.bindMove hfresh m)
  | addMacro identifier script =>
    have hput : Mirrors { r with macros := r.macros.put identifier script }
        { n with macros := n.macros.put identifier script } :=
      ⟨h.tokensFor, h.symbolsFor, h.tokens, h.moveOf, h.namesFor, h.fixities, by rw [h.macros]⟩
    exact hput.addToken .macroName identifier
  | setFixity s f =>
    have hput : Mirrors { r with fixities := r.fixities.put s f }
        { n with fixities := n.fixities.put s f } :=
      ⟨h.tokensFor, h.symbolsFor, h.tokens, h.moveOf, h.namesFor, by rw [h.fixities], h.macros⟩
    exact .ok hput

/-- A registry without entries says what a notation without tokens says. -/
theorem Mirrors.empty {k : Nat} (hk : 2 ≤ k) (builtIn : Bool) :
    Mirrors {} { layerCount := k, builtIn } :=
  ⟨fun _ => rfl, fun _ => rfl, rfl, rfl, fun _ => rfl, rfl, rfl⟩

/-- A registry keeps saying what a notation says when both are edited by the same calls. -/
theorem Mirrors.after (h : Mirrors r n) (hn : n.Sound) (calls : List Notation.Call) :
    Mirrors (Registry.after calls r) (Notation.Call.after calls n) := by
  induction calls generalizing r n with
  | nil => exact h
  | cons call calls ih =>
    exact ih (h.endsAlike hn call).mirrors (Notation.Sound.keptByEdits.make call n hn)

end Registry

end CubeLang
