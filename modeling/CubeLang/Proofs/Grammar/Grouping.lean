import CubeLang.Proofs.Grammar.Marks

/-!
# Brackets around a script

A script that is accepted stays one between brackets: it becomes a grouping of the same statements.
The bracket opens a cycle of parts instead if what follows is a part of cycles, and an opening
bracket counts as one, although no cycle has brackets inside.
-/

set_option autoImplicit false

namespace CubeLang

namespace Reading

variable {r : Reading} {t close : Token} {ts : List Token}
variable {n : Nat} {h : 2 ≤ n} {f : Fixity} {macros : Table String String} {m m' : Memory}
variable {move : Nat → Nat}

section BuiltIn

variable (hr : r.grammar = Grammar.builtIn n h f macros)
include hr

theorem grouping_mem_closedBy (hkind : close.kind = .keyword) (htext : close.text = ")") :
    CompoundKind.grouping ∈ r.closedBy close := by
  have htokens : ∀ f, (Symbol.groupingEnd, ")") ∈ Notation.signedTokens f := by
    intro f
    cases f <;> decide
  have hends : r.grammar.isA .groupingEnd close = true := by
    rw [isA_iff hr (by decide), htext]
    exact ⟨hkind, htokens f⟩
  exact List.mem_filter.mpr ⟨by decide, (Bool.and_eq_true ..).mpr ⟨rfl, hends⟩⟩

/-- The bracket that closes a grouping ends it. -/
theorem readsCompound_of_closing {inside : Expressions} {start : Nat} {scripts : List Script}
    (hkind : close.kind = .keyword) (htext : close.text = ")") :
    r.ReadsCompound inside start { kinds := [.grouping], first := scripts } (close :: ts) m
      (.grouping ⟨start, close.stop⟩ scripts) ts m := by
  have hmem := grouping_mem_closedBy hr hkind htext
  have hkinds : [CompoundKind.grouping].filter (fun k => (r.closedBy close).contains k) =
      [.grouping] := List.filter_eq_self.mpr (by simpa using hmem)
  refine .closed (List.ne_nil_of_mem hmem) ?_
  rw [hkinds]
  rfl

variable (hnames : ∀ name ∈ macros.keys, Groupable name)
include hnames

/-- What begins an expression neither closes nor parts a statement in brackets. -/
theorem closes_nothing {s : Script} {rest : List Token}
    (hread : r.expressions (t :: ts) m s rest m') : r.closedBy t = [] ∧ r.dividedBy t = [] := by
  have hmark : ¬IsMark t := by
    intro ht
    obtain ⟨hlt, hread⟩ := hread
    rw [readExpression_of_mark hr hnames ht] at hread
    contradiction
  constructor
  · by_contra hne
    exact hmark (isMark_of_closedBy hr hne)
  · by_contra hne
    exact hmark (isMark_of_dividedBy hr hne)

/-- Scripts between brackets are read one after the other, up to the bracket behind them. -/
theorem ReadsAll.between {scripts : List Script} (hmove : Monotone move) (length : Nat)
    (hexpand : r.ExpandsAnywhere) (hkind : close.kind = .keyword) (htext : close.text = ")")
    (start : Nat) (before : List Script) (hread : r.ReadsAll ts m scripts m') :
    (r.resized length).ReadsCompound (r.resized length).expressions start
      { kinds := [.grouping], first := before } (relocated move [close] ts) m
      (.grouping ⟨start, close.stop⟩ (before ++ scripts.map (Script.relocate move))) [] m' := by
  induction hread generalizing before with
  | nil =>
    rw [List.map_nil, List.append_nil]
    exact readsCompound_of_closing (r := r.resized length) hr hkind htext
  | @cons ts rest m m₁ m' s scripts hfirst _ ih =>
    obtain ⟨t, ts, rfl⟩ := List.exists_cons_of_ne_nil (Reads.ne_nil hfirst)
    obtain ⟨hclosed, hdivided⟩ := closes_nothing hr hnames hfirst
    have hfirst' := expressions_relocated hmove length hexpand hfirst fun _ =>
      stops_of_mark hr ⟨hkind, htext ▸ by decide⟩
    have hothers := ih (before ++ [s.relocate move])
    rw [List.append_assoc, List.singleton_append, ← List.map_cons] at hothers
    exact .script hclosed hdivided hfirst' hothers

end BuiltIn

section Opening

variable (hr : r.grammar = Grammar.builtIn n h f macros)
variable (hkind : t.kind = .keyword) (htext : t.text = "(")
variable (hnames : ∀ name ∈ macros.keys, Groupable name)
include hr hkind htext hnames

/-! ## Scripts in brackets -/

variable (hmove : Monotone move) (length : Nat) (hexpand : r.ExpandsAnywhere)

include hmove hexpand in
/-- Scripts in brackets, of which the first begins with no part of cycles, are read as a grouping. -/
theorem readAll_grouped {scripts : List Script}
    (hclosing : close.kind = .keyword) (hclosing' : close.text = ")") (hne : ts ≠ [])
    (hnext : ((r.grammar.symbols (r.peek ts)).any fun s => s.isPartOf .permutation) = false)
    (hread : r.readAll ts m = .ok scripts m') :
    (r.resized length).readAll (t :: relocated move [close] ts) m =
      .ok [.grouping ⟨t.start, close.stop⟩ (scripts.map (Script.relocate move))] m' := by
  have hr' : (r.resized length).grammar = Grammar.builtIn n h f macros := hr
  have hbetween := ReadsAll.between hr hnames hmove length hexpand hclosing hclosing' t.start []
    (.of_readAll hread)
  obtain ⟨_, hcompound⟩ := hbetween.reads
    ((r.resized length).readsAs_expressions (t :: relocated move [close] ts).length)
    (Nat.lt_succ_self _)
  have hgrouping : ¬((r.grammar.symbols ((r.resized length).peek (relocated move [close] ts))).any
      fun s => s.isPartOf .permutation) = true := by
    rw [peek_relocated length hne, Grammar.symbols_relocate, hnext]
    exact Bool.false_ne_true
  have hstatement : (r.resized length).readStatement (t :: relocated move [close] ts)
      (fun ts' _ => (r.resized length).readExpression ts') m =
        .ok ⟨.grouping ⟨t.start, close.stop⟩ (scripts.map (Script.relocate move)), [],
          Nat.zero_lt_succ _⟩ m' := by
    rw [readStatement_of_bracket hr' hkind htext hnames, if_neg hgrouping]
    exact bind_of_ok hcompound
  have hexpression := readExpression_of_readStatement
    (fun _ => readAffix?_of_opening hr' hkind htext) hstatement (fun _ => rfl) (infixOf?_peek_nil _)
  exact readAll_of_readExpression hexpression readAll_nil

/-- An opening bracket behind another one is no part of a cycle. -/
theorem readAll_of_brackets {t' : Token} (hkind' : t'.kind = .keyword) (htext' : t'.text = "(") :
    r.readAll (t :: t' :: ts) m = .error (.ofToken .faceMissing t') m := by
  have hbegin : r.grammar.isA .permutationBegin t' = true := by
    rw [isA_opening hr hkind' htext']
    rfl
  have hcycle : ((r.grammar.symbols t').any fun s => s.isPartOf .permutation) = true :=
    List.any_eq_true.mpr ⟨.permutationBegin, List.contains_iff_mem.mp hbegin, rfl⟩
  have hstatement : r.readStatement (t :: t' :: ts) (fun ts' _ => r.readExpression ts') m =
      .error (.ofToken .faceMissing t') m := by
    rw [readStatement_of_bracket hr hkind htext hnames, peek_cons, if_pos hcycle,
      readPermutation_of_opening hr hkind' htext']
    rfl
  exact readAll_of_first_error
    (readExpression_of_error (fun _ => readAffix?_of_opening hr hkind htext) hstatement)

end Opening

end Reading

end CubeLang
