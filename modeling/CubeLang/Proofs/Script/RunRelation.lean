import CubeLang.Proofs.Control
import CubeLang.Script.Run

/-!
# Runs of a script side by side

Whatever is done with the actions of a script, it is nothing but steps one after the other. So a
relation between steps that is kept when steps follow each other holds between two runs of a script,
if it holds between what the runs do with each move and each cycle of parts. One of the runs may see
the script in the reflection when the other one sees it as it stands.
-/

set_option autoImplicit false

namespace CubeLang

/-- The move that a script with this move makes, as it stands or seen in the reflection, forward or
inverse. -/
def Move.seen? (reflecting inverse : Bool) (m : Move) : Option Move :=
  (if reflecting then m.reflected? else some m).map fun m => if inverse then m.inverse else m

/-- A move that can be seen in the reflection can be seen in every way. -/
theorem Move.exists_seen? {m : Move} (h : m.reflected?.isSome = true) (reflecting inverse : Bool) :
    ∃ m', m.seen? reflecting inverse = some m' := by
  obtain ⟨m₁, hm₁⟩ := Option.isSome_iff_exists.mp h
  cases reflecting with
  | false => exact ⟨_, rfl⟩
  | true => exact ⟨_, congrArg (Option.map _) hm₁⟩

theorem Move.isSome_reflected?_of_seen? {m m' : Move} {inverse : Bool}
    (h : m.seen? true inverse = some m') : m.reflected?.isSome = true := by
  obtain ⟨m₁, hreflected, -⟩ := Option.map_eq_some_iff.mp h
  exact Option.isSome_iff_exists.mpr ⟨m₁, hreflected⟩

/-- If opposite moves and moves in the reflection have a property that the moves have, every move that
is seen has it. -/
theorem Move.exists_seen_of_closed {P : Move → Prop} (hinverse : ∀ m, P m → P m.inverse)
    (hreflected : ∀ m, P m → ∃ m', m.reflected? = some m' ∧ P m') {m : Move} (h : P m)
    (reflecting inverse : Bool) : ∃ m', m.seen? reflecting inverse = some m' ∧ P m' := by
  have hforward : ∃ m₁, (if reflecting then m.reflected? else some m) = some m₁ ∧ P m₁ := by
    cases reflecting with
    | false => exact ⟨m, rfl, h⟩
    | true => exact hreflected m h
  obtain ⟨m₁, hm₁, hP⟩ := hforward
  refine ⟨_, congrArg (Option.map _) hm₁, ?_⟩
  cases inverse with
  | false => exact hP
  | true => exact hinverse m₁ hP

namespace Script

/-! ## Repetition -/

section

variable {σ : Type}

theorem repeated_zero (f : Step σ Unit) : repeated 0 f = pure () := rfl

theorem repeated_succ (k : Nat) (f : Step σ Unit) : repeated (k + 1) f = (do f; repeated k f) := by
  funext s
  cases hs : f s with
  | ok _ s' => simp only [repeated, hs, bind_of_ok hs]
  | error fault s' => simp only [repeated, hs, bind_of_error hs]

/-- A step done once more at the end is done once more at the beginning. -/
theorem repeated_bind (k : Nat) (f : Step σ Unit) :
    (do repeated k f; f) = (do f; repeated k f) := by
  induction k with
  | zero => simp [repeated_zero]
  | succ k ih => rw [repeated_succ, bind_assoc, ih]

end

/-! ## Moves and cycles everywhere in a script -/

mutual

/-- Whether all moves in a script have the property `P` and all its cycles of parts the property
`Q`, also in the bodies of macros. -/
def Each (P : Move → Prop) (Q : PartCycle → Prop) : Script → Prop
  | move _ m => P m
  | nop _ => True
  | sequence _ children | grouping _ children => AllEach P Q children
  | repetition _ _ child | inversion _ child | reflection _ child => child.Each P Q
  | conjugation _ a b | rotation _ a b | commutation _ a b => a.Each P Q ∧ b.Each P Q
  | macroUse _ _ body => body.Each P Q
  | permutation _ c => Q c

/-- Whether all moves and cycles in some scripts have these properties. -/
def AllEach (P : Move → Prop) (Q : PartCycle → Prop) : List Script → Prop
  | [] => True
  | s :: rest => s.Each P Q ∧ AllEach P Q rest

end

section

variable {P : Move → Prop} {Q : PartCycle → Prop}

mutual

/-- A script whose moves can be seen in the reflection can be seen there as a whole. -/
theorem isSome_reflected? (hP : ∀ m, P m → m.reflected?.isSome = true) :
    (s : Script) → s.Each P Q → s.reflected?.isSome = true
  | move _ m, h => by simpa [reflected?] using hP m h
  | nop _, _ | permutation _ _, _ => rfl
  | reflection _ _, _ => rfl
  | sequence _ children, h | grouping _ children, h => by
    simpa [reflected?] using isSome_reflectedAll? hP children h
  | repetition _ _ child, h | inversion _ child, h => by
    simpa [reflected?] using isSome_reflected? hP child h
  | macroUse _ _ body, h => by simpa [reflected?] using isSome_reflected? hP body h
  | conjugation _ a b, h | rotation _ a b, h | commutation _ a b, h => by
    obtain ⟨a', ha⟩ := Option.isSome_iff_exists.mp (isSome_reflected? hP a h.1)
    obtain ⟨b', hb⟩ := Option.isSome_iff_exists.mp (isSome_reflected? hP b h.2)
    simp [reflected?, ha, hb]

theorem isSome_reflectedAll? (hP : ∀ m, P m → m.reflected?.isSome = true) :
    (children : List Script) → AllEach P Q children → (reflectedAll? children).isSome = true
  | [], _ => rfl
  | s :: rest, h => by
    obtain ⟨s', hs⟩ := Option.isSome_iff_exists.mp (isSome_reflected? hP s h.1)
    obtain ⟨rest', hrest⟩ := Option.isSome_iff_exists.mp (isSome_reflectedAll? hP rest h.2)
    simp [reflectedAll?, hs, hrest]

end

end

/-! ## What a run is made of -/

section

variable {σ : Type} {visit : Action → Step σ Unit} {reflecting inverse : Bool} {span : Span}

/-- A move is visited as it is seen. -/
theorem walk_move {m m' : Move} (h : m.seen? reflecting inverse = some m') :
    (move span m).walk visit reflecting inverse = visit (.turn span m') := by
  obtain ⟨m₁, hm₁, rfl⟩ := Option.map_eq_some_iff.mp h
  unfold walk
  rw [hm₁]

/-- A reflection turns the view round. -/
theorem walk_reflection {child : Script} (h : child.reflected?.isSome = true) :
    (reflection span child).walk visit reflecting inverse =
      child.walk visit (!reflecting) inverse := by
  have hsome : child.reflected?.isNone = false := by simpa using h
  rw [walk]
  cases reflecting with
  | false => simp only [hsome, Bool.false_eq_true, if_false, Bool.not_false]
  | true => simp only [if_true, Bool.not_true]

end

/-- A relation that holds between steps on both sides wherever a script visits an action, and is
kept when steps follow each other. If `mirrored`, one side sees the reflection of what the other one
sees. -/
structure RunRelation {σ τ : Type} (P : Move → Prop) (Q : PartCycle → Prop) (mirrored : Bool)
    (visit : Action → Step σ Unit) (visit' : Action → Step τ Unit)
    (R : Step σ Unit → Step τ Unit → Prop) : Prop where
  skip : R (pure ()) (pure ())
  andThen : ∀ {f f' : Step σ Unit} {g g' : Step τ Unit}, R f g → R f' g' →
    R (do f; f') (do g; g')
  turn : ∀ (span : Span) (m : Move), P m → ∀ reflecting inverse : Bool, ∃ m₁ m₂,
    m.seen? reflecting inverse = some m₁ ∧ m.seen? (reflecting != mirrored) inverse = some m₂ ∧
      R (visit (.turn span m₁)) (visit' (.turn span m₂))
  cycle : ∀ c, Q c → ∀ inverse, R (visit (.cycle c inverse)) (visit' (.cycle c inverse))

namespace RunRelation

variable {σ τ : Type} {P : Move → Prop} {Q : PartCycle → Prop} {mirrored : Bool}
variable {visit : Action → Step σ Unit} {visit' : Action → Step τ Unit}
variable {R : Step σ Unit → Step τ Unit → Prop} {f : Step σ Unit} {g : Step τ Unit}

theorem again (hR : RunRelation P Q mirrored visit visit' R) (h : R f g) (k : Nat) :
    R (repeated k f) (repeated k g) := by
  induction k with
  | zero => exact hR.skip
  | succ k ih =>
    rw [repeated_succ k f, repeated_succ k g]
    exact hR.andThen h ih

theorem isSome_reflected? (hR : RunRelation P Q mirrored visit visit' R) {s : Script}
    (h : s.Each P Q) : s.reflected?.isSome = true := by
  refine Script.isSome_reflected? ?_ s h
  intro m hm
  obtain ⟨m₁, -, hseen, -⟩ := hR.turn {} m hm true false
  exact Move.isSome_reflected?_of_seen? hseen

mutual

/-- Two runs of a script are related, in every direction. -/
theorem walk (hR : RunRelation P Q mirrored visit visit' R) (reflecting inverse : Bool) :
    (s : Script) → s.Each P Q →
      R (s.walk visit reflecting inverse) (s.walk visit' (reflecting != mirrored) inverse)
  | move span m, h => by
    obtain ⟨m₁, m₂, hm₁, hm₂, hturn⟩ := hR.turn span m h reflecting inverse
    rwa [walk_move hm₁, walk_move hm₂]
  | nop _, _ => by
    unfold Script.walk
    exact hR.skip
  | sequence _ children, h | grouping _ children, h => by
    unfold Script.walk
    exact walkAll hR reflecting inverse children h
  | repetition _ count child, h => by
    unfold Script.walk
    exact hR.again (walk hR reflecting inverse child h) count.value
  | inversion _ child, h => by
    unfold Script.walk
    exact walk hR reflecting (!inverse) child h
  | reflection _ child, h => by
    have hsome : child.reflected?.isSome = true := hR.isSome_reflected? h
    have hview : (!(reflecting != mirrored)) = ((!reflecting) != mirrored) := by
      cases reflecting <;> cases mirrored <;> rfl
    rw [walk_reflection hsome, walk_reflection hsome, hview]
    exact walk hR (!reflecting) inverse child h
  | conjugation _ a b, h => by
    unfold Script.walk
    exact hR.andThen (walk hR reflecting false a h.1)
      (hR.andThen (walk hR reflecting inverse b h.2) (walk hR reflecting true a h.1))
  | rotation _ a b, h => by
    unfold Script.walk
    exact hR.andThen (walk hR reflecting true a h.1)
      (hR.andThen (walk hR reflecting inverse b h.2) (walk hR reflecting false a h.1))
  | commutation _ a b, h => by
    have ha := fun i => walk hR reflecting i a h.1
    have hb := fun i => walk hR reflecting i b h.2
    unfold Script.walk
    cases inverse with
    | false => exact hR.andThen (ha false) (hR.andThen (hb false) (hR.andThen (ha true) (hb true)))
    | true => exact hR.andThen (hb false) (hR.andThen (ha false) (hR.andThen (hb true) (ha true)))
  | macroUse _ _ body, h => by
    unfold Script.walk
    exact walk hR reflecting inverse body h
  | permutation _ c, h => by
    unfold Script.walk
    exact hR.cycle c h inverse

/-- So are two runs of scripts one after the other. -/
theorem walkAll (hR : RunRelation P Q mirrored visit visit' R) (reflecting inverse : Bool) :
    (children : List Script) → AllEach P Q children →
      R (Script.walkAll visit reflecting inverse children)
        (Script.walkAll visit' (reflecting != mirrored) inverse children)
  | [], _ => by
    unfold Script.walkAll
    exact hR.skip
  | s :: rest, h => by
    have hfirst := walk hR reflecting inverse s h.1
    have hrest := walkAll hR reflecting inverse rest h.2
    unfold Script.walkAll
    cases inverse with
    | false => exact hR.andThen hfirst hrest
    | true => exact hR.andThen hrest hfirst

end

end RunRelation

end Script

end CubeLang
