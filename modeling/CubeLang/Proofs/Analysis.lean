import CubeLang.Analysis
import CubeLang.Proofs.Cube.Order
import CubeLang.Proofs.Grammar.GroupedText
import CubeLang.Proofs.Grammar.LegalScripts
import CubeLang.Proofs.Notation.Configured

/-!
# Whatever parses can be run

In the notations that come with the program every text is refused by the parser or analyzed to the end.
The script that is read is legal for the cube, so that no turn and no cycle is refused, and what it
leads to is a state with all its parts, of which the orders and the texts tell.
-/

set_option autoImplicit false

namespace CubeLang

/-! ## The cycles of a state -/

theorem foldl_lcm_pos {l : List Nat} {m : Nat} (hm : 0 < m) (h : ∀ x ∈ l, 0 < x) :
    0 < l.foldl Nat.lcm m := by
  induction l generalizing m with
  | nil => exact hm
  | cons x l ih =>
    have hx := h x List.mem_cons_self
    exact ih (Nat.lcm_pos hm hx) fun y hy => h y (List.mem_cons_of_mem x hy)

namespace Arrangement

variable {kind : PartKind} {count : Nat} {a : Arrangement}

theorem Valid.order_pos (h : a.Valid kind count) {modulus : Nat} (hm : 0 < modulus) :
    0 < a.order modulus := by
  refine foldl_lcm_pos Nat.one_pos fun x hx => ?_
  obtain ⟨cycle, hcycle, rfl⟩ := List.mem_map.mp hx
  have hlength := List.length_pos_iff.mpr (h.isCycle_of_mem hcycle).ne_nil
  unfold cycleOrder
  dsimp only
  split
  · exact hlength
  · exact Nat.mul_pos hlength
      (Nat.div_pos (Nat.gcd_le_left _ hm) (Nat.gcd_pos_of_pos_left _ hm))

theorem Valid.visibleOrder_pos (h : a.Valid kind count) : 0 < a.visibleOrder := by
  refine foldl_lcm_pos Nat.one_pos fun x hx => ?_
  obtain ⟨cycle, hcycle, rfl⟩ := List.mem_map.mp hx
  let faces := cycle.map fun location => (a.slot location).part % 6
  have hfaces : faces ≠ [] := by simpa [faces] using (h.isCycle_of_mem hcycle).ne_nil
  have hdvd : leastPeriod faces ∣ faces.length :=
    (leastPeriod_dvd_iff hfaces _).mpr (List.rotate_length faces)
  exact Nat.pos_of_dvd_of_pos hdvd (List.length_pos_iff.mpr hfaces)

end Arrangement

namespace Cube

variable {n : Nat} {c : Cube}

/-- Each state has an order. -/
theorem Valid.order_pos (h : c.Valid n) : 0 < c.order :=
  Nat.lcm_pos (Nat.lcm_pos ((h.2 .corner).order_pos (by decide)) ((h.2 .edge).order_pos (by decide)))
    ((h.2 .side).order_pos (by decide))

/-- Each state has a visible order. -/
theorem Valid.visibleOrder_pos (h : c.Valid n) : 0 < c.visibleOrder :=
  Nat.lcm_pos (Nat.lcm_pos ((h.2 .corner).order_pos (by decide)) ((h.2 .edge).order_pos (by decide)))
    (h.2 .side).visibleOrder_pos

/-- The cycles of which orders and texts are made hold locations of the cube, at least one each. -/
theorem Valid.cycles_located (h : c.Valid n) (kind : PartKind) :
    ∀ cycle ∈ (c.arrangement kind).cycles, cycle ≠ [] ∧ ∀ x ∈ cycle, x < kind.count n := by
  intro cycle hcycle
  have hisCycle := (h.2 kind).isCycle_of_mem hcycle
  exact ⟨hisCycle.ne_nil, fun x hx => (h.2 kind).size_eq ▸ hisCycle.lt_size x hx⟩

end Cube

namespace Analysis

variable {n : Nat} {l : Notation} {language : Option Notation} {macros : Table String String}
variable {g : Grammar} {text : String} {tree : Script} {m m' : Memory}

/-! ## The course of an analysis -/

/-- The analysis of a script that leads from the solved cube to a state. -/
def ofState (text : String) (l : Notation) (tree : Script) (moves : Nat) (c : Cube) : Analysis where
  script := text
  layerCount := c.layerCount
  tree := tree
  order := c.order
  visibleOrder := c.visibleOrder
  permutation := c.text (CycleTokens.ofNotation l)
  visualPermutation := c.visualText (CycleTokens.ofNotation l)
  moveCount := moves

/-- Whether scripts for `n` layers are analyzed in a notation, which is the built-in one if none is
given. -/
def Chosen (n : Nat) (l : Notation) : Option Notation → Prop
  | none => Notation.default n = .ok l
  | some given => given = l

theorem ofScript_none (hl : Notation.default n = .ok l) (hcount : l.layerCount = n) (text : String) :
    ofScript text n none macros = ofScript text n (some l) macros := by
  unfold ofScript
  simp only [hl, hcount, if_true]

/-- The notation is the chosen one. -/
theorem ofScript_chosen (hl : Chosen n l language) (hcount : l.layerCount = n) (text : String) :
    ofScript text n language macros = ofScript text n (some l) macros := by
  cases language with
  | none => exact ofScript_none hl hcount text
  | some given =>
    obtain rfl := hl
    rfl

theorem ofScript_of_parse_error (hcount : l.layerCount = n) (hg : Grammar.ofNotation l macros = .ok g)
    {e : ParseError} (hparse : g.parse text m = .error e m') :
    ofScript text n (some l) macros m = .error (.parse e) m' := by
  have hadapt : EStateM.adaptExcept Fault.parse (g.parse text) m = .error (.parse e) m' := by
    simp only [EStateM.adaptExcept, hparse]
  unfold ofScript
  simp only [hcount, if_true, hg, pure_bind]
  exact bind_of_error hadapt

theorem createCube_of_supported (hn : (n : Int) ∈ Cube.supported) (m : Memory) :
    ∃ m', createCube n m = .ok (Cube.solved n) m' := by
  unfold createCube
  rw [Cube.create_of_supported hn]
  exact ⟨_, rfl⟩

theorem ofScript_of_parse (hn : (n : Int) ∈ Cube.supported) (hcount : l.layerCount = n)
    (hg : Grammar.ofNotation l macros = .ok g) (hparse : g.parse text m = .ok tree m') {c : Cube}
    (hrun : tree.apply false (Cube.solved n) = .ok () c) {moves : Nat}
    (hmoves : tree.moveCount = .ok moves) :
    ∃ m'', ofScript text n (some l) macros m = .ok (ofState text l tree moves c) m'' := by
  have hadapt : EStateM.adaptExcept Fault.parse (g.parse text) m = .ok tree m' := by
    simp only [EStateM.adaptExcept, hparse]
  have hrun' : (tree.apply false).run (Cube.solved n) = .ok () c := hrun
  obtain ⟨m₁, hcreate⟩ := createCube_of_supported hn m'
  unfold ofScript
  simp only [hcount, if_true, hg, pure_bind]
  rw [bind_of_ok hadapt, bind_of_ok hcreate]
  simp only [hrun', hmoves]
  exact ⟨_, rfl⟩

/-! ## The result of an analysis -/

/-- What an analysis tells of its script. The script can be carried out on every state of the cube, in
both directions, with the cube checking what it is given, and its moves can be counted. From the solved
cube it leads to a state whose parts are all there, of which the rest is told: orders, and texts
made of cycles that hold only locations of the cube. -/
structure Tells (n : Nat) (text : String) (l : Notation) (a : Analysis) (c : Cube) : Prop where
  runs : ∀ (inverse : Bool) (start : Cube), start.Valid n → ∃ last,
    a.tree.apply inverse start = .ok () last ∧
      a.tree.walk Script.performChecked false inverse start = .ok () last ∧ last.Valid n
  moveCount : a.tree.moveCount = .ok a.moveCount
  reached : a.tree.apply false (Cube.solved n) = .ok () c
  valid : c.Valid n
  located : ∀ kind, ∀ cycle ∈ (c.arrangement kind).cycles,
    cycle ≠ [] ∧ ∀ x ∈ cycle, x < kind.count n
  orders : 0 < a.order ∧ 0 < a.visibleOrder
  told : a = ofState text l a.tree a.moveCount c

theorem exists_tells_of_legal (hn : (n : Int) ∈ Cube.supported) (hcount : l.layerCount = n)
    (hg : Grammar.ofNotation l macros = .ok g) (hparse : g.parse text m = .ok tree m')
    (hlegal : tree.Legal n) :
    ∃ a m'', ofScript text n (some l) macros m = .ok a m'' ∧ a.tree = tree ∧
      ∃ c, a.Tells n text l c := by
  have htwo := Cube.two_le_of_supported hn
  obtain ⟨c, hrun, -, hvalid⟩ := hlegal.exists_apply htwo false Cube.valid_solved
  obtain ⟨moves, hmoves⟩ := hlegal.exists_moveCount (by omega)
  obtain ⟨m'', hscript⟩ := ofScript_of_parse hn hcount hg hparse hrun hmoves
  refine ⟨_, m'', hscript, rfl, c, ?_, hmoves, hrun, hvalid, hvalid.cycles_located,
    ⟨hvalid.order_pos, hvalid.visibleOrder_pos⟩, rfl⟩
  intro inverse start hstart
  exact hlegal.exists_apply htwo inverse hstart

/-- How the analysis of a text ends: with what it tells of the script that the parser gives, or with the
error that the parser gives, whose cause is one that a text can give. -/
inductive Ends (n : Nat) (text : String) (l : Notation) (g : Grammar) :
    EStateM.Result Fault Memory Analysis → Prop
  | told {a : Analysis} {m : Memory} {c : Cube} (hparse : outcome (g.parse text {}) = .ok a.tree)
      (htells : a.Tells n text l c) : Ends n text l g (.ok a m)
  | refused {e : ParseError} {m : Memory} (hparse : outcome (g.parse text {}) = .error e)
      (hcause : e.Proper) : Ends n text l g (.error (.parse e) m)

/-- The parser and the cube are in step for a standard notation: what is read is carried out. -/
theorem ends_of_standard (hn : (n : Int) ∈ Cube.supported) (hstandard : l.Standard n)
    (hnames : ∀ name ∈ macros.keys, name ≠ "") (events : List Event) (text : String) :
    ∃ g, Grammar.ofNotation l macros = .ok g ∧
      Ends n text l g (ofScript text n (some l) macros { events }) := by
  have hcount := hstandard.layerCount
  obtain ⟨g, hg, hterms⟩ : ∃ g, Grammar.ofNotation l macros = .ok g ∧ g.terms = l :=
    ⟨_, Grammar.ofNotation_of_worded hstandard.worded hnames, rfl⟩
  refine ⟨g, hg, ?_⟩
  have hsound : g.Sound { events } := ⟨g.sound_empty.isMacro, g.sound_empty.idle, g.sound_empty.body⟩
  obtain ⟨-, -, hafresh⟩ := Grammar.parse_of_sound hsound rfl text
  rw [← Grammar.outcome_parse] at hafresh
  cases hparse : g.parse text { events } with
  | error e m' =>
    rw [hparse] at hafresh
    rw [ofScript_of_parse_error hcount hg hparse]
    exact .refused hafresh.symm (Grammar.proper_of_parseAfresh (g.outcome_parse text ▸ hafresh.symm))
  | ok tree m' =>
    rw [hparse] at hafresh
    have hlegal : tree.Legal n := by
      have hmoves : ∀ token m, g.terms.move? token = some m → m.Legal g.terms.layerCount := by
        intro token m hm
        rw [hterms] at hm ⊢
        exact hcount ▸ hstandard.legal_of_move? (Cube.two_le_of_supported hn) hm
      have h := Grammar.legal_of_parseAfresh hmoves (g.outcome_parse text ▸ hafresh.symm)
      rwa [hterms, hcount] at h
    obtain ⟨a, m'', hscript, rfl, c, htells⟩ := exists_tells_of_legal hn hcount hg hparse hlegal
    rw [hscript]
    exact .told hafresh.symm htells

/-- A text in a notation that comes with the program is refused by the parser, or it is analyzed to the
end: nothing else goes wrong. -/
theorem ofScript_total (hn : (n : Int) ∈ Cube.supported) (hl : l.Supplied n)
    (hlanguage : Chosen n l language) (hnames : ∀ name ∈ macros.keys, name ≠ "")
    (events : List Event) (text : String) :
    ∃ g, Grammar.ofNotation l macros = .ok g ∧
      Ends n text l g (ofScript text n language macros { events }) := by
  rw [ofScript_chosen hlanguage hl.standard.layerCount]
  exact ends_of_standard hn hl.standard hnames events text

/-- A script that uses a macro, a reflection, a cycle of edges and one of sides. -/
theorem ofScript_total_macroThenCycles : ∃ l g a m c,
    ((3 : Nat) : Int) ∈ Cube.supported ∧ l.Supplied 3 ∧ Chosen 3 l none ∧
    (∀ name ∈ Grammar.turnMacros.keys, name ≠ "") ∧
    Grammar.ofNotation l Grammar.turnMacros = .ok g ∧
    ofScript "<Turn>[R, MU*]2 (+ru,uf)- (r,++u)" (3 : Nat) none Grammar.turnMacros {} = .ok a m ∧
    outcome (g.parse "<Turn>[R, MU*]2 (+ru,uf)- (r,++u)" {}) = .ok a.tree ∧
    a.Tells 3 "<Turn>[R, MU*]2 (+ru,uf)- (r,++u)" l c := by
  let l := Notation.signed 3 (by decide) .precircumfixed
  let g := Grammar.builtIn 3 (by decide) .precircumfixed Grammar.turnMacros
  have hn : ((3 : Nat) : Int) ∈ Cube.supported := by decide
  have hdefault : Notation.default (3 : Nat) = .ok l := rfl
  have hnames : ∀ name ∈ Grammar.turnMacros.keys, name ≠ "" := by decide
  have hgrammar : Grammar.ofNotation l Grammar.turnMacros = .ok g :=
    Grammar.ofNotation_builtIn hnames
  have hread : (outcome (g.parse "<Turn>[R, MU*]2 (+ru,uf)- (r,++u)" {})).isOk = true := by
    decide +kernel
  have hchosen : Chosen 3 l none := hdefault
  obtain ⟨g', hg', hends⟩ := ofScript_total hn (.inl hdefault) hchosen hnames []
    "<Turn>[R, MU*]2 (+ru,uf)- (r,++u)"
  obtain rfl : g = g' := Except.ok.inj (hgrammar.symm.trans hg')
  generalize ofScript "<Turn>[R, MU*]2 (+ru,uf)- (r,++u)" (3 : Nat) none
    Grammar.turnMacros {} = result at hends ⊢
  cases hends with
  | told hparse htells =>
    exact ⟨l, g, _, _, _, hn, .inl hdefault, hchosen, hnames, hgrammar, rfl, hparse, htells⟩
  | refused hrefused _ =>
    rw [hrefused] at hread
    exact absurd hread Bool.false_ne_true

end Analysis

end CubeLang
