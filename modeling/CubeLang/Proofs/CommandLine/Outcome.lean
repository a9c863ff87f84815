import CubeLang.CommandLine.Run
import CubeLang.Proofs.Analysis
import CubeLang.Proofs.Config

/-!
# How the command line ends

A command line that carries its script itself always ends with a code of its own: the script is
analyzed, or the parser refuses it, or there is no script or no notation to read it in. Nothing else
can go wrong, since a configuration that is accepted chooses a cube that there is, and its notation
has legal moves only. Only a script that is analyzed has something printed about it.
-/

set_option autoImplicit false

namespace CubeLang.CommandLine

variable {world : World} {words : List String} {a : Arguments} {rank : Nat} {visual : Bool}
variable {c c' : Config} {l l' : Notation} {text : String}

/-! ## What a command line chooses -/

/-- The script that a command line carries itself, normalized. -/
def carriedScript (a : Arguments) : String :=
  String.ofList (Text.normalize (" ".intercalate a.script).toList)

/-- A command line chooses a configuration, for which there is a notation. -/
structure Chooses (world : World) (a : Arguments) (c : Config) (l : Notation) : Prop where
  config : config world a = .ok c
  language : c.toNotation = .ok l

theorem Chooses.eq (h : Chooses world a c l) (h' : Chooses world a c' l') : c = c' ∧ l = l' := by
  obtain rfl := Except.ok.inj (h.config.symm.trans h'.config)
  exact ⟨rfl, Except.ok.inj (h.language.symm.trans h'.language)⟩

theorem chooses_iff : (do let c ← config world a; return (c, ← c.toNotation)) = Except.ok (c, l) ↔
    Chooses world a c l := by
  constructor
  · intro h
    cases hconfig : config world a with
    | error fault =>
      rw [hconfig] at h
      contradiction
    | ok c' =>
      rw [hconfig] at h
      cases hlanguage : c'.toNotation with
      | error fault =>
        simp only [bind, Except.bind, hlanguage] at h
        contradiction
      | ok l' =>
        simp only [bind, Except.bind, hlanguage] at h
        obtain ⟨rfl, rfl⟩ := Prod.mk.inj (Except.ok.inj h)
        exact ⟨hconfig, hlanguage⟩
  · rintro ⟨hconfig, hlanguage⟩
    simp only [bind, Except.bind, hconfig, hlanguage]
    rfl

/-- What a command line chooses has passed the checks of configurations. -/
theorem sound_of_config (h : config world a = .ok c) : c.Sound := by
  unfold config at h
  simp only [bind, Except.bind, pure, Except.pure] at h
  -- However the fixity and the layers are chosen, the check comes last, or there is a fault.
  repeat' split at h
  all_goals first
    | contradiction
    | (obtain ⟨rfl, hsound⟩ := Config.checked_eq_ok_iff.mp h; exact hsound)

/-- There is a cube with the layers that a command line chooses. -/
theorem exists_layers_of_config (h : config world a = .ok c) :
    ∃ n : Nat, c.layerCount = n ∧ (n : Int) ∈ Cube.supported := by
  have hlayers := (sound_of_config h).layers
  have hpositive : ∀ k ∈ Config.layerCounts, 0 ≤ k := by decide
  obtain ⟨n, hn⟩ := Int.eq_ofNat_of_zero_le (hpositive _ hlayers)
  exact ⟨n, hn, hn ▸ hlayers⟩

/-! ## What is printed -/

/-- A parser of a notation reads a text, the first one given to it, as a script. -/
def ReadAs (l : Notation) (text : String) (tree : Script) : Prop :=
  ∃ g, Grammar.ofNotation l ∅ = .ok g ∧ outcome (g.parse text {}) = .ok tree

/-- What is printed about a script: what it makes of a new cube, written as cycles, or behind the
number of its moves and the two orders. -/
def Printed (c : Config) (l : Notation) (visual : Bool) (tree : Script) (output : String) : Prop :=
  ∃ fresh cube moves, Cube.create c.layerCount = .ok fresh ∧
    tree.apply false fresh = .ok () cube ∧ tree.moveCount = .ok moves ∧
    output = if visual then cube.visualText (CycleTokens.ofNotation l) ++ "\n"
      else s!"Moves: {moves}\nOrder: {cube.order}\nVisible order: {cube.visibleOrder}\n" ++
        cube.text (CycleTokens.ofNotation l) ++ "\n"

/-- A script that is read is printed about, and without one there is a parse error. -/
theorem analyze_cases (h : Chooses world a c l) (rank : Nat) (visual : Bool) (text : String) :
    (∃ tree output errors, analyze rank visual c l text = .finished 0 output errors ∧
      ReadAs l text tree ∧ Printed c l visual tree output) ∨
    ∃ errors, analyze rank visual c l text = .finished 1 "" errors ∧
      ∀ tree, ¬ReadAs l text tree := by
  obtain ⟨n, hlayers, hn⟩ := exists_layers_of_config h.config
  have hstandard := Notation.standard_of_toNotation hlayers h.language
  have hnames : ∀ name ∈ (∅ : Table String String).keys, name ≠ "" := by
    intro name hname
    contradiction
  obtain ⟨g, hg, hends⟩ := Analysis.ends_of_standard hn hstandard hnames [] text
  have hrun : (Analysis.ofScript text c.layerCount (some l) ∅).run {} =
      Analysis.ofScript text n (some l) ∅ {} := by
    rw [hlayers]
    rfl
  have hcreate : Cube.create c.layerCount = .ok (Cube.solved n) :=
    hlayers ▸ Cube.create_of_supported hn
  unfold analyze
  rw [hrun]
  cases hresult : Analysis.ofScript text n (some l) ∅ {} with
  | ok analysis m =>
    rw [hresult] at hends
    cases hends with
    | told hparse htells =>
      refine Or.inl ⟨analysis.tree, _, _, rfl, ⟨g, hg, hparse⟩, _, _, _, hcreate, htells.reached,
        htells.moveCount, ?_⟩
      rw [htells.told]
      rfl
  | error fault m =>
    rw [hresult] at hends
    cases hends with
    | refused hparse _ =>
      refine Or.inr ⟨_, rfl, ?_⟩
      rintro tree ⟨g', hg', htree⟩
      obtain rfl := Except.ok.inj (hg.symm.trans hg')
      rw [hparse] at htree
      contradiction

/-! ## The code -/

/-- The code and the output of a command line that carries its script itself. -/
structure Answers (world : World) (a : Arguments) (code : Nat) (output : String) : Prop where
  two_iff : code = 2 ↔ (∀ c l, ¬Chooses world a c l) ∨ carriedScript a = ""
  one_iff : code = 1 ↔ carriedScript a ≠ "" ∧
    ∃ c l, Chooses world a c l ∧ ∀ tree, ¬ReadAs l (carriedScript a) tree
  zero_iff : code = 0 ↔ carriedScript a ≠ "" ∧
    ∃ c l tree, Chooses world a c l ∧ ReadAs l (carriedScript a) tree
  silent : code ≠ 0 → output = ""
  printed : ∀ c l tree, code = 0 → Chooses world a c l → ReadAs l (carriedScript a) tree →
    Printed c l a.visual tree output

theorem ReadAs.eq {tree tree' : Script} (h : ReadAs l text tree) (h' : ReadAs l text tree') :
    tree = tree' := by
  obtain ⟨g, hg, hread⟩ := h
  obtain ⟨g', hg', hread'⟩ := h'
  obtain rfl := Except.ok.inj (hg.symm.trans hg')
  exact Except.ok.inj (hread.symm.trans hread')

/-- Without a notation or a script. -/
theorem answers_two (h : (∀ c l, ¬Chooses world a c l) ∨ carriedScript a = "") :
    Answers world a 2 "" where
  two_iff := iff_of_true rfl h
  one_iff := iff_of_false (by decide) fun ⟨hscript, c, l, hchooses, _⟩ =>
    h.elim (fun hnone => hnone c l hchooses) hscript
  zero_iff := iff_of_false (by decide) fun ⟨hscript, c, l, _, hchooses, _⟩ =>
    h.elim (fun hnone => hnone c l hchooses) hscript
  silent _ := rfl
  printed _ _ _ := by simp

/-- With a text that is no script. -/
theorem answers_one (h : Chooses world a c l) (hscript : carriedScript a ≠ "")
    (hread : ∀ tree, ¬ReadAs l (carriedScript a) tree) : Answers world a 1 "" where
  two_iff := iff_of_false (by decide) fun hnone =>
    hnone.elim (fun hnone => hnone c l h) hscript
  one_iff := iff_of_true rfl ⟨hscript, c, l, h, hread⟩
  zero_iff := iff_of_false (by decide) fun ⟨_, c', l', tree, h', hread'⟩ => by
    obtain ⟨rfl, rfl⟩ := h.eq h'
    exact hread tree hread'
  silent _ := rfl
  printed _ _ _ := by simp

/-- With a script. -/
theorem answers_zero {tree : Script} {output : String} (h : Chooses world a c l)
    (hscript : carriedScript a ≠ "") (hread : ReadAs l (carriedScript a) tree)
    (hprinted : Printed c l a.visual tree output) : Answers world a 0 output where
  two_iff := iff_of_false (by decide) fun hnone =>
    hnone.elim (fun hnone => hnone c l h) hscript
  one_iff := iff_of_false (by decide) fun ⟨_, c', l', h', hnone⟩ => by
    obtain ⟨rfl, rfl⟩ := h.eq h'
    exact hnone tree hread
  zero_iff := iff_of_true rfl ⟨hscript, c, l, tree, h, hread⟩
  silent := by simp
  printed c' l' tree' _ h' hread' := by
    obtain ⟨rfl, rfl⟩ := h.eq h'
    obtain rfl := hread.eq hread'
    exact hprinted

theorem scriptText_carried (h : a.file.text? = none) :
    scriptText world a = .ok (carriedScript a) := by
  unfold scriptText
  rw [h]
  rfl

/-- **A command line that carries its script itself ends with an answer**, if its log level is known:
nothing fails in another way. It ends with the code 2 if no configuration and notation is chosen or
there is no script, with 1 if the text is no script of the notation, and else with 0; only then
something is printed. -/
theorem run_answers (hwords : Arguments.parse words = .ok a) (hcarried : a.file.text? = none)
    (hlevel : logRank world a = .ok rank) :
    ∃ code output errors, run world words = .finished code output errors ∧
      Answers world a code output := by
  have hrun : run world words = runArguments world a := by
    rw [run, hwords]
  rw [hrun, runArguments, hlevel]
  dsimp only
  split
  · rename_i fault hchosen
    refine ⟨_, _, _, rfl, answers_two (Or.inl fun c l h => ?_)⟩
    rw [chooses_iff.mpr h] at hchosen
    contradiction
  · rename_i c l hchosen
    have hchooses := chooses_iff.mp hchosen
    rw [scriptText_carried hcarried]
    dsimp only
    by_cases hscript : carriedScript a = ""
    · rw [hscript]
      exact ⟨_, _, _, rfl, answers_two (Or.inr hscript)⟩
    · have hempty : (carriedScript a).isEmpty = false := by simpa using hscript
      rw [hempty, if_neg Bool.false_ne_true]
      rcases analyze_cases hchooses rank a.visual (carriedScript a) with
        ⟨tree, output, errors, hrun, hread, hprinted⟩ | ⟨errors, hrun, hread⟩
      · exact ⟨_, _, _, hrun, answers_zero hchooses hscript hread hprinted⟩
      · exact ⟨_, _, _, hrun, answers_one hchooses hscript hread⟩

/-- A world in which nothing is set and no file can be read. -/
def bareWorld : World where
  setting? _ := none
  file _ := .error .missing

/-- A command line with options in front of its script. -/
def mirroredTurns : List String := ["--visual", "--layers", "2", "[R,", "U*]2"]

theorem run_answers_mirroredTurns : ∃ a l tree output errors,
    Arguments.parse mirroredTurns = .ok a ∧ a.file.text? = none ∧
    logRank bareWorld a = .ok 30 ∧ Chooses bareWorld a { layerCount := 2 } l ∧
    ReadAs l "[R, U*]2" tree ∧ run bareWorld mirroredTurns = .finished 0 output errors ∧
    Printed { layerCount := 2 } l true tree output := by
  let a : Arguments := { script := ["[R,", "U*]2"], layers := .value 2, visual := true }
  let l := Notation.signed 2 (by decide) .precircumfixed
  let g := Grammar.builtIn 2 (by decide) .precircumfixed ∅
  have hwords : Arguments.parse mirroredTurns = .ok a := by cbv
  have hlevel : logRank bareWorld a = .ok 30 := rfl
  have hchooses : Chooses bareWorld a { layerCount := 2 } l :=
    ⟨rfl, Config.toNotation_eq (by decide) .precircumfixed⟩
  have hscript : carriedScript a = "[R, U*]2" := by decide
  have hgrammar : Grammar.ofNotation l ∅ = .ok g := Grammar.ofNotation_builtIn (by decide)
  have hisOk : (outcome (g.parse "[R, U*]2" {})).isOk = true := by decide +kernel
  obtain ⟨tree, m, hparse⟩ := exists_eq_ok_of_isOk hisOk
  have hread : ReadAs l "[R, U*]2" tree := ⟨g, hgrammar, by rw [hparse]; rfl⟩
  obtain ⟨code, output, errors, hrun, hanswers⟩ := run_answers hwords rfl hlevel
  have hcode : code = 0 :=
    hanswers.zero_iff.mpr ⟨by rw [hscript]; decide, _, _, tree, hchooses, hscript ▸ hread⟩
  subst hcode
  exact ⟨a, l, tree, output, errors, hwords, rfl, hlevel, hchooses, hread, hrun,
    hanswers.printed _ _ _ rfl hchooses (hscript ▸ hread)⟩

end CubeLang.CommandLine
