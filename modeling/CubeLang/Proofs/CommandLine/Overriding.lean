import CubeLang.Proofs.CommandLine.Outcome

/-!
# Options in the place of the environment

Options for the layer count, the fixity and the macro set take the place of what the environment
chooses. With all three, nothing is left of these variables as long as the environment makes a
configuration at all. One that does not is reported, whatever the options say, since it is read
before them.
-/

set_option autoImplicit false

namespace CubeLang.CommandLine

variable {world world' : World} {words : List String} {a : Arguments}

/-- The variables whose place options can take. -/
def overridable : List String :=
  [Config.layerVariable, Config.fixityVariable, Config.macroSetVariable]

/-- Two worlds have the same files, and the same variables except perhaps for those whose place
options can take. -/
structure AgreeElsewhere (world world' : World) : Prop where
  setting?_eq : ∀ name, name ∉ overridable → world.setting? name = world'.setting? name
  file_eq : world.file = world'.file

/-- A command line sets the layer count, and the fixity and the macro set to texts. -/
structure Overrides (a : Arguments) : Prop where
  layers : a.layers.isSet = true
  fixity : a.fixity.text?.isSome = true
  macros : a.macros.text?.isSome = true

/-- An outcome without its error lines: the code and what is printed. -/
def Outcome.silenced : Outcome → Outcome
  | .finished code output _ => .finished code output ""
  | outcome => outcome

/-- The variables of a world make a configuration. -/
def WellSet (world : World) : Prop := Config.WellFormed world.setting?

/-! ## What depends on the environment -/

/-- The log level has a variable of its own. -/
theorem logRank_congr (h : AgreeElsewhere world world') (a : Arguments) :
    logRank world a = logRank world' a := by
  unfold logRank
  rw [h.setting?_eq logLevelVariable (by decide)]

theorem scriptText_congr (h : AgreeElsewhere world world') (a : Arguments) :
    scriptText world a = scriptText world' a := by
  unfold scriptText
  rw [h.file_eq]

/-- The configuration comes from the options alone, if they take the place of the variables and the
variables make a configuration. -/
theorem config_congr (ha : Overrides a) (h : WellSet world) (h' : WellSet world') :
    config world a = config world' a := by
  obtain ⟨base, hbase⟩ := Config.exists_ofEnvironment_iff.mpr h
  obtain ⟨base', hbase'⟩ := Config.exists_ofEnvironment_iff.mpr h'
  obtain ⟨fixity, hfixity⟩ := Option.isSome_iff_exists.mp ha.fixity
  obtain ⟨macros, hmacros⟩ := Option.isSome_iff_exists.mp ha.macros
  have hlayers := ha.layers
  unfold config
  rw [hbase, hbase', hfixity, hmacros]
  cases hset : a.layers with
  | unset =>
    rw [hset] at hlayers
    contradiction
  | nothing => rfl
  | value n => rfl

/-- Variables that make no configuration leave none to the options. -/
theorem config_of_not_wellSet (h : ¬WellSet world) (a : Arguments) :
    ∃ fault, Config.ofEnvironment world.setting? = .error fault ∧
      config world a = .error fault := by
  cases hbase : Config.ofEnvironment world.setting? with
  | ok base => exact absurd (Config.exists_ofEnvironment_iff.mp ⟨base, hbase⟩) h
  | error fault =>
    refine ⟨fault, rfl, ?_⟩
    unfold config
    rw [hbase]
    rfl

/-! ## Outcomes -/

/-- With the same configuration, two worlds that agree elsewhere have the same outcome. -/
theorem runArguments_congr (h : AgreeElsewhere world world')
    (hconfig : config world a = config world' a) : runArguments world a = runArguments world' a := by
  unfold runArguments
  rw [logRank_congr h, scriptText_congr h, hconfig]

/-- Variables that make no configuration are reported, if the log level is known. -/
theorem runArguments_of_not_wellSet (h : ¬WellSet world) {rank : Nat}
    (hlevel : logRank world a = .ok rank) :
    ∃ fault, Config.ofEnvironment world.setting? = .error fault ∧
      runArguments world a = .finished 2 "" (errorLine (configText fault)) := by
  obtain ⟨fault, hbase, hconfig⟩ := config_of_not_wellSet h a
  refine ⟨fault, hbase, ?_⟩
  unfold runArguments
  rw [hlevel, hconfig]
  rfl

/-- **Options take the place of the environment.** Let the options of a command line set the layer
count, the fixity and the macro set, and two worlds differ in their variables at most. If the
variables make a configuration in both worlds, the outcome is the same. If they make none in one of
them, the command line ends with the code 2 there and prints nothing but the fault. So the code and
what is printed are the same in both if the variables make a configuration in both or in none. -/
theorem options_override (hwords : Arguments.parse words = .ok a) (ha : Overrides a)
    (h : AgreeElsewhere world world') :
    (WellSet world → WellSet world' → run world words = run world' words) ∧
    (¬WellSet world → ∀ rank, logRank world a = .ok rank →
      ∃ fault, Config.ofEnvironment world.setting? = .error fault ∧
        run world words = .finished 2 "" (errorLine (configText fault))) ∧
    ((WellSet world ↔ WellSet world') →
      (run world words).silenced = (run world' words).silenced) := by
  have hrun : ∀ world, run world words = runArguments world a := by
    intro world
    rw [run, hwords]
  simp only [hrun]
  refine ⟨?_, ?_, ?_⟩
  · intro hset hset'
    exact runArguments_congr h (config_congr ha hset hset')
  · intro hset rank hlevel
    exact runArguments_of_not_wellSet hset hlevel
  · intro hboth
    by_cases hset : WellSet world
    · rw [runArguments_congr h (config_congr ha hset (hboth.mp hset))]
    -- Both fail for the log level, which comes first, or both report a fault of their own.
    · cases hlevel : logRank world a with
      | error failure =>
        have hlevel' := logRank_congr h a ▸ hlevel
        simp only [runArguments, hlevel, hlevel']
      | ok rank =>
        have hlevel' := logRank_congr h a ▸ hlevel
        obtain ⟨_, -, heq⟩ := runArguments_of_not_wellSet hset hlevel
        obtain ⟨_, -, heq'⟩ := runArguments_of_not_wellSet (mt hboth.mpr hset) hlevel'
        rw [heq, heq']
        rfl

/-! ## A command line with all three options -/

/-- A world with nothing but some variables. -/
def worldOf (settings : List (String × String)) : World :=
  { bareWorld with setting? := fun name => (settings.find? fun s => s.1 = name).map Prod.snd }

/-- A world with nothing but variables whose place options can take agrees with one without. -/
theorem agreeElsewhere_worldOf {settings : List (String × String)}
    (h : ∀ s ∈ settings, s.1 ∈ overridable) : AgreeElsewhere bareWorld (worldOf settings) := by
  refine ⟨?_, rfl⟩
  intro name hname
  have hnone : settings.find? (fun s => s.1 = name) = none := by
    rw [List.find?_eq_none]
    intro s hs heq
    exact hname (of_decide_eq_true heq ▸ h s hs)
  unfold worldOf
  dsimp only
  rw [hnone]
  rfl

/-- A turn of a cube with two layers, to be read with a macro set. -/
def overridingTurn : List String :=
  ["--layers", "2", "--syntax", "SUFFIX", "--macros", "basic", "R"]

/-- What `overridingTurn` asks for. -/
def overridingArguments : Arguments where
  script := ["R"]
  layers := .value 2
  fixity := .value "SUFFIX"
  macros := .value "basic"

theorem parse_overridingTurn : Arguments.parse overridingTurn = .ok overridingArguments := by
  cbv

theorem overrides_overridingArguments : Overrides overridingArguments := by
  refine ⟨?_, ?_, ?_⟩ <;> decide

/-- In a world that chooses otherwise, the options are all that counts. -/
theorem options_override_worldOf :
    run bareWorld overridingTurn = run (worldOf [(Config.layerVariable, " 5 "),
      (Config.fixityVariable, "prefix"), (Config.macroSetVariable, "none")]) overridingTurn := by
  refine (options_override parse_overridingTurn overrides_overridingArguments
    (agreeElsewhere_worldOf (by decide))).1 ?_ ?_
  · exact ⟨Or.inl (by decide), Or.inl (by decide)⟩
  · refine ⟨Or.inr ⟨5, by decide, ?_⟩, Or.inr ⟨.prefixed, by decide, ?_⟩⟩
    · decide +kernel
    · decide +kernel

/-- The code, the output and the error lines of an outcome that has them. -/
def Outcome.texts? : Outcome → Option (Nat × String × String)
  | .finished code output errors => some (code, output, errors)
  | _ => none

theorem Outcome.eq_finished {outcome : Outcome} {code : Nat} {output errors : String}
    (h : outcome.texts? = some (code, output, errors)) :
    outcome = .finished code output errors := by
  cases outcome <;> simp_all [texts?]

/-- A layer count in letters is reported though none of the variables is left to choose anything. -/
theorem options_keep_fault :
    let world := worldOf [(Config.layerVariable, "three")]
    Arguments.parse overridingTurn = .ok overridingArguments ∧ Overrides overridingArguments ∧
    AgreeElsewhere bareWorld world ∧
    run bareWorld overridingTurn =
      .finished 0 "Moves: 1\nOrder: 4\nVisible order: 4\n(ubr,bdr,dfr,fur)\n" "" ∧
    run world overridingTurn =
      .finished 2 "" "error: CUBESCRIPT_LAYER_COUNT must be an integer, got 'three'\n" ∧
    (run bareWorld overridingTurn).silenced ≠ (run world overridingTurn).silenced := by
  have hbare : run bareWorld overridingTurn =
      .finished 0 "Moves: 1\nOrder: 4\nVisible order: 4\n(ubr,bdr,dfr,fur)\n" "" :=
    Outcome.eq_finished (by decide +kernel)
  have hset : run (worldOf [(Config.layerVariable, "three")]) overridingTurn =
      .finished 2 "" "error: CUBESCRIPT_LAYER_COUNT must be an integer, got 'three'\n" :=
    Outcome.eq_finished (by decide +kernel)
  refine ⟨parse_overridingTurn, overrides_overridingArguments,
    agreeElsewhere_worldOf (by decide), hbare, hset, ?_⟩
  rw [hbare, hset]
  simp [Outcome.silenced]

end CubeLang.CommandLine
