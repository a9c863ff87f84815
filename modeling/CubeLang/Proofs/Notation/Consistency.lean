import CubeLang.Proofs.Notation.DistinctTokens
import CubeLang.Proofs.Notation.Registry

/-!
# Notations stay consistent

A notation without tokens is consistent, and a built-in one comes about by calls on one without
tokens: its tokens are added, then its moves, of which no two have the same token, then its fixities
are set. So whatever calls are made on one of them, the answers stay consistent, also when the
notation is kept in dictionaries, and of the tokens of a move the one to write is that which has
named it for the longest time.
-/

set_option autoImplicit false

namespace CubeLang.Notation

variable {n : Notation} {k : Nat} {token : String} {builtIn : Bool}

/-- The calls that make the built-in notation of one without tokens. -/
def defaultCalls (k : Nat) : List Call :=
  defaultTokens.map (fun b => .addToken b.1 b.2) ++
    ((defaultMoves k).map fun e => .addMove e.2 e.1) ++
    defaultFixities.map fun e => .setFixity e.1 e.2

/-! ## The calls of the built-in notation -/

theorem after_addTokens {bs : List (Symbol × String)} (hbs : ∀ b ∈ bs, b.2 ≠ "") (n : Notation) :
    Call.after (bs.map fun b => .addToken b.1 b.2) n =
      { n with
        bindings := bs.foldl (fun l b => listed b l) n.bindings
        tokens := bs.foldl (fun l b => listed b.2 l) n.tokens } := by
  induction bs generalizing n with
  | nil => rfl
  | cons b bs ih =>
    obtain ⟨hb, hbs⟩ := List.forall_mem_cons.mp hbs
    have hfirst : stateAfter ((Call.addToken b.1 b.2).make n) = n.bind b.1 b.2 := by
      rw [Call.make, addToken_eq, if_neg hb]
      rfl
    have hstep : Call.after ((b :: bs).map fun b => .addToken b.1 b.2) n =
        Call.after (bs.map fun b => .addToken b.1 b.2) (n.bind b.1 b.2) := by
      rw [← hfirst]
      rfl
    exact hstep.trans (ih hbs _)

theorem Sound.notMem_keys (h : n.Sound) (htoken : token ∉ n.tokens) : token ∉ n.moves.keys :=
  fun hmem => htoken ((h.mem_tokens_iff token).mpr ⟨_, h.bound token hmem⟩)

/-- A token that stands for nothing comes to name a move. -/
theorem Sound.bindMove_of_notMem (h : n.Sound) (htoken : token ∉ n.tokens) (m : Move) :
    n.bindMove m token =
      { n with
        bindings := n.bindings ++ [(.move, token)]
        tokens := n.tokens ++ [token]
        moves := ⟨n.moves.entries ++ [(token, m)]⟩ } := by
  have hbinding : n.bindings.contains (.move, token) = false := by
    rw [← Bool.not_eq_true, List.contains_iff_mem]
    exact fun hmem => htoken ((h.mem_tokens_iff token).mpr ⟨_, hmem⟩)
  have hcontains : n.tokens.contains token = false := by
    rwa [← Bool.not_eq_true, List.contains_iff_mem]
  have hkey : ¬n.moves.contains token = true :=
    mt Table.contains_iff_mem_keys.mp (h.notMem_keys htoken)
  rw [bindMove_eq hkey]
  unfold Notation.bind
  rw [hbinding, hcontains]
  rfl

/-- Moves with tokens of their own are added to a notation. -/
theorem Sound.after_addMoves (h : n.Sound) {es : List (String × Move)}
    (hlegal : ∀ e ∈ es, e.2.fault? = none) (hnames : ∀ e ∈ es, e.1 ≠ "")
    (hnodup : (es.map Prod.fst).Nodup) (hfresh : ∀ e ∈ es, e.1 ∉ n.tokens) :
    Call.after (es.map fun e => .addMove e.2 e.1) n =
      { n with
        bindings := n.bindings ++ es.map fun e => (.move, e.1)
        tokens := n.tokens ++ es.map Prod.fst
        moves := ⟨n.moves.entries ++ es⟩ } := by
  induction es generalizing n with
  | nil => simp [Call.after]
  | cons e es ih =>
    obtain ⟨hlegal₁, hlegal⟩ := List.forall_mem_cons.mp hlegal
    obtain ⟨hname, hnames⟩ := List.forall_mem_cons.mp hnames
    obtain ⟨hfresh₁, hfresh⟩ := List.forall_mem_cons.mp hfresh
    obtain ⟨hother, hnodup⟩ := List.nodup_cons.mp hnodup
    have hkey : ¬n.moves.contains e.1 = true :=
      mt Table.contains_iff_mem_keys.mp (h.notMem_keys hfresh₁)
    have hfirst : stateAfter ((Call.addMove e.2 e.1).make n) = n.bindMove e.2 e.1 := by
      rw [Call.make, addMove_eq, hlegal₁]
      dsimp only
      rw [if_neg hkey, if_neg hname]
      rfl
    have hstep : Call.after ((e :: es).map fun e => .addMove e.2 e.1) n =
        Call.after (es.map fun e => .addMove e.2 e.1) (n.bindMove e.2 e.1) := by
      rw [← hfirst]
      rfl
    have hbound := h.bindMove_of_notMem hfresh₁ e.2
    refine hstep.trans ((ih (h.bindMove e.2 e.1) hlegal hnames hnodup fun e' he' => ?_).trans ?_)
    · rw [hbound, List.mem_append, List.mem_singleton, not_or]
      exact ⟨hfresh e' he', fun hsame => hother (hsame ▸ List.mem_map_of_mem he')⟩
    · rw [hbound]
      simp

theorem after_setFixities (fs : List (Symbol × Fixity)) (n : Notation) :
    Call.after (fs.map fun e => .setFixity e.1 e.2) n =
      { n with fixities := n.fixities.putAll fs } := by
  induction fs generalizing n with
  | nil => rfl
  | cons e fs ih => exact ih _

/-- The built-in notation is what its calls make of a notation without tokens. -/
theorem after_defaultCalls (hk : 2 ≤ k) :
    Call.after (defaultCalls k) { layerCount := k, builtIn := true } = ofLayerCount k hk := by
  have hnames : ∀ b ∈ defaultTokens, b.2 ≠ "" := by decide
  have hbindings : defaultTokens.foldl (fun l b => listed b l) [] = defaultTokens := by
    decide +kernel
  have htokens : defaultTokens.foldl (fun l b => listed b.2 l) [] =
      (defaultTokens.map Prod.snd).eraseDups := by
    decide +kernel
  have hfixities : (∅ : Table Symbol Fixity).putAll defaultFixities = ⟨defaultFixities⟩ := rfl
  have hfirst := after_addTokens hnames { layerCount := k, builtIn := true }
  rw [hbindings, htokens] at hfirst
  have hsound := Sound.keptByEdits.after (defaultTokens.map fun b => .addToken b.1 b.2)
    (Sound.empty hk true)
  rw [hfirst] at hsound
  have hlegal : ∀ e ∈ defaultMoves k, e.2.fault? = none :=
    fun e he => (legal_of_mem_defaultMoves hk he).fault?_eq_none
  have hnamed : ∀ e ∈ defaultMoves k, e.1 ≠ "" := fun e he => ne_empty_of_mem_defaultMoves he
  have hfresh : ∀ e ∈ defaultMoves k, e.1 ∉ (defaultTokens.map Prod.snd).eraseDups := by
    have hcapital : ∀ token ∈ (defaultTokens.map Prod.snd).eraseDups, ¬Capital token := by
      decide +kernel
    exact fun e he hmem => hcapital e.1 hmem (capital_of_mem_defaultMoves he)
  have hmoves := hsound.after_addMoves hlegal hnamed (nodup_keys_defaultMoves k) hfresh
  rw [defaultCalls, Call.after_append, Call.after_append, hfirst, hmoves, after_setFixities,
    hfixities]
  rfl

/-! ## Every history of calls -/

/-- The notation that calls are made on: one without tokens, or the built-in one. -/
def start (builtIn : Bool) (layerCount : Int) : Except Fault Notation :=
  if builtIn then Notation.default layerCount else Notation.empty layerCount

/-- The notation before all calls, those that make the built-in notation included. -/
def blank (hk : 2 ≤ k) (builtIn : Bool) : Notation := { layerCount := k, builtIn }

/-- Calls, behind those that make the built-in notation if they are made on it. -/
def history (builtIn : Bool) (k : Nat) (calls : List Call) : List Call :=
  (if builtIn then defaultCalls k else []) ++ calls

theorem start_eq (hk : 2 ≤ k) (builtIn : Bool) :
    start builtIn k = .ok (Call.after (history builtIn k []) (blank hk builtIn)) := by
  unfold start history blank
  cases builtIn with
  | false =>
    rw [if_neg Bool.false_ne_true, Notation.empty, dif_pos (by omega)]
    rfl
  | true =>
    rw [if_pos rfl, default_eq hk, List.append_nil, if_pos rfl, after_defaultCalls hk]

theorem after_history (hk : 2 ≤ k) (builtIn : Bool) (calls : List Call) :
    Call.after calls (Call.after (history builtIn k []) (blank hk builtIn)) =
      Call.after (history builtIn k calls) (blank hk builtIn) := by
  rw [history, history, List.append_nil, Call.after_append]

theorem sound_history (hk : 2 ≤ k) (builtIn : Bool) (calls : List Call) :
    (Call.after (history builtIn k calls) (blank hk builtIn)).Sound :=
  Sound.keptByEdits.after _ (Sound.empty hk builtIn)

/-- The dictionaries after a history say what the notation says. -/
theorem mirrors_history (hk : 2 ≤ k) (builtIn : Bool) (calls : List Call) :
    (Registry.after (history builtIn k calls) {}).Mirrors
      (Call.after (history builtIn k calls) (blank hk builtIn)) :=
  (Registry.Mirrors.empty hk builtIn).after (Sound.empty hk builtIn) _

/-- **A notation stays consistent** whatever calls are made on it, also by those that fail, and so
does one that is kept in dictionaries: it gives the same answers, and a call on it ends in the same
way. Of the tokens that name a move, the one to write has done so for the longest time. -/
theorem consistent_after (hk : 2 ≤ k) (builtIn : Bool) (calls : List Call) :
    ∃ n₀ n r, start builtIn k = .ok n₀ ∧ n = Call.after calls n₀ ∧
      r = Registry.after (history builtIn k calls) {} ∧
      n.answers.Consistent ∧
      (∀ m token other, n.moveToken? m = some token → n.move? other = some m → other ≠ token →
        ∃ i j, i < j ∧ Since (blank hk builtIn) (history builtIn k calls) i token m ∧
          Since (blank hk builtIn) (history builtIn k calls) j other m) ∧
      r.answers = n.answers ∧
      ∀ call, outcome (Registry.make call r) =
        (outcome (call.make n)).mapError Registry.Fault.refused := by
  have hkept := sound_history hk builtIn calls
  have hmirrors := mirrors_history hk builtIn calls
  refine ⟨_, _, _, start_eq hk builtIn, rfl, rfl, ?_⟩
  rw [after_history]
  exact ⟨hkept.consistent,
    fun m token other => since_moveToken? (Sound.empty hk builtIn : (blank hk builtIn).Sound) rfl,
    hmirrors.answers, fun call => (hmirrors.endsAlike hkept call).outcome_eq⟩

/-- Calls that name a move twice, fail, and name it anew with the first token. -/
def renewed : List Call :=
  [.addMove ⟨3, 0, 1, -1⟩ "L", .addMove ⟨3, 0, 1, -1⟩ "left", .addToken .nop "",
    .removeToken .move "L", .addMove ⟨3, 0, 1, -1⟩ "L"]

/-- A token that was removed comes back behind the other one. -/
theorem consistent_after_removal : 2 ≤ 3 ∧
    ∃ n r, n = Call.after renewed (blank (by decide : 2 ≤ 3) false) ∧
      r = Registry.after renewed {} ∧ n.answers.Consistent ∧ r.answers = n.answers ∧
      n.moveToken? ⟨3, 0, 1, -1⟩ = some "left" ∧ n.move? "L" = some ⟨3, 0, 1, -1⟩ ∧
      ∃ i j, i < j ∧ Since (blank (by decide : 2 ≤ 3) false) renewed i "left" ⟨3, 0, 1, -1⟩ ∧
        Since (blank (by decide : 2 ≤ 3) false) renewed j "L" ⟨3, 0, 1, -1⟩ := by
  obtain ⟨n₀, n, r, hstart, rfl, rfl, hconsistent, hearliest, hanswers, -⟩ :=
    consistent_after (by decide : 2 ≤ 3) false renewed
  obtain rfl := Except.ok.inj ((start_eq (by decide : 2 ≤ 3) false).symm.trans hstart)
  have htoken : (Call.after renewed (blank (by decide : 2 ≤ 3) false)).moveToken?
      ⟨3, 0, 1, -1⟩ = some "left" := by
    decide
  have hother : (Call.after renewed (blank (by decide : 2 ≤ 3) false)).move? "L" =
      some ⟨3, 0, 1, -1⟩ := by
    decide
  exact ⟨by decide, _, _, rfl, rfl, hconsistent, hanswers, htoken, hother,
    hearliest _ _ _ htoken hother (by decide)⟩

end CubeLang.Notation
