import CubeLang.Proofs.Cube.Mirror
import CubeLang.Proofs.Script.Legal
import CubeLang.Proofs.Script.Order

/-!
# Reflected scripts

A script seen in the reflection is carried out as the script is, but with the layers of each move
reversed. Since a turn of the reversed layers is the reflection of the turn, the two runs keep
mirrored states mirrored, however the script is nested, and whatever reflections there are inside of
it.
-/

set_option autoImplicit false

namespace CubeLang.Script

/-! ## Carrying out a reflected script -/

/-- What is made of two things that may not be there is made only if both are. -/
theorem exists_of_both {α β γ : Type} {x : Option α} {y : Option β} {f : α → β → γ} {z : γ}
    (h : (do
      let a ← x
      let b ← y
      return f a b) = some z) : ∃ a b, x = some a ∧ y = some b ∧ f a b = z := by
  obtain ⟨a, hx, h⟩ := Option.bind_eq_some_iff.mp h
  obtain ⟨b, hy, h⟩ := Option.bind_eq_some_iff.mp h
  exact ⟨a, b, hx, hy, Option.some.inj h⟩

section

variable {σ : Type} (visit : Action → Step σ Unit)

mutual

/-- Carrying out the reflection of a script is carrying out the script as it is seen in the
reflection. -/
theorem walk_reflected (inverse : Bool) : (s : Script) → {t : Script} → s.reflected? = some t →
    t.walk visit false inverse = s.walk visit true inverse
  | move span m, t, h => by
    obtain ⟨m', hm', rfl⟩ := Option.map_eq_some_iff.mp h
    have hseen : m.seen? true inverse = some (if inverse then m'.inverse else m') :=
      congrArg (Option.map _) hm'
    have hseen' : m'.seen? false inverse = some (if inverse then m'.inverse else m') := rfl
    rw [walk_move hseen, walk_move hseen']
  | nop span, t, h => by
    obtain rfl := Option.some.inj h
    unfold walk
    rfl
  | sequence span children, t, h => by
    obtain ⟨children', hchildren, rfl⟩ := Option.map_eq_some_iff.mp h
    unfold walk
    exact walkAll_reflected inverse children hchildren
  | grouping span children, t, h => by
    obtain ⟨children', hchildren, rfl⟩ := Option.map_eq_some_iff.mp h
    unfold walk
    exact walkAll_reflected inverse children hchildren
  | repetition span count child, t, h => by
    obtain ⟨child', hchild, rfl⟩ := Option.map_eq_some_iff.mp h
    unfold walk
    rw [walk_reflected inverse child hchild]
  | inversion span child, t, h => by
    obtain ⟨child', hchild, rfl⟩ := Option.map_eq_some_iff.mp h
    unfold walk
    exact walk_reflected (!inverse) child hchild
  | reflection span child, t, h => by
    obtain rfl := Option.some.inj h
    simp only [walk, if_true]
  | conjugation span a b, t, h => by
    obtain ⟨a', b', ha, hb, rfl⟩ := exists_of_both h
    unfold walk
    rw [walk_reflected false a ha, walk_reflected inverse b hb, walk_reflected true a ha]
  | rotation span a b, t, h => by
    obtain ⟨a', b', ha, hb, rfl⟩ := exists_of_both h
    unfold walk
    rw [walk_reflected true a ha, walk_reflected inverse b hb, walk_reflected false a ha]
  | commutation span a b, t, h => by
    obtain ⟨a', b', ha, hb, rfl⟩ := exists_of_both h
    unfold walk
    rw [walk_reflected false a ha, walk_reflected true a ha, walk_reflected false b hb,
      walk_reflected true b hb]
  | macroUse span identifier body, t, h => by
    obtain ⟨body', hbody, rfl⟩ := Option.map_eq_some_iff.mp h
    unfold walk
    exact walk_reflected inverse body hbody
  | permutation span cycle, t, h => by
    obtain rfl := Option.some.inj h
    unfold walk
    rfl

theorem walkAll_reflected (inverse : Bool) : (children : List Script) → {children' : List Script} →
    reflectedAll? children = some children' →
      walkAll visit false inverse children' = walkAll visit true inverse children
  | [], _, h => by
    obtain rfl := Option.some.inj h
    unfold walkAll
    rfl
  | s :: rest, _, h => by
    obtain ⟨s', rest', hs, hrest, rfl⟩ := exists_of_both h
    unfold walkAll
    rw [walk_reflected inverse s hs, walkAll_reflected inverse rest hrest]

end

end

/-! ## Mirrored runs -/

variable {n : Nat}

/-- Two steps that lead from mirrored states to mirrored states. -/
def KeepMirrored (n : Nat) (f g : Step Cube Unit) : Prop :=
  ∀ c c' : Cube, c.Mirrored n c' →
    ∃ d d', f c = .ok () d ∧ g c' = .ok () d' ∧ d.Mirrored n d'

namespace KeepMirrored

variable {f f' g g' : Step Cube Unit}

theorem skip : KeepMirrored n (pure ()) (pure ()) := fun c c' h => ⟨c, c', rfl, rfl, h⟩

theorem andThen (h : KeepMirrored n f g) (h' : KeepMirrored n f' g') :
    KeepMirrored n (do f; f') (do g; g') := by
  intro c c' hc
  obtain ⟨d, d', hf, hg, hd⟩ := h c c' hc
  obtain ⟨e, e', hf', hg', he⟩ := h' d d' hd
  exact ⟨e, e', (bind_of_ok hf).trans hf', (bind_of_ok hg).trans hg', he⟩

theorem symm (hn : 2 ≤ n) (h : KeepMirrored n f g) : KeepMirrored n g f := by
  intro c c' hc
  obtain ⟨d, d', hf, hg, hd⟩ := h c' c (hc.symm hn)
  exact ⟨d', d, hg, hf, hd.symm hn⟩

/-- A turn of layers and one of the reversed layers lead from mirrored states to mirrored states. -/
theorem turn (hn : 2 ≤ n) (span : Span) (t : LegalTurn n) :
    KeepMirrored n (perform (.turn span t.move))
      (perform (.turn span (t.reflected (Nat.zero_lt_of_lt hn)).move)) := by
  intro c c' hc
  exact ⟨_, _, perform_turn_of_ok span (Cube.turn_legal hn hc.valid t),
    perform_turn_of_ok span (Cube.turn_legal hn hc.valid_image (t.reflected _)),
    hc.andThen hn (Cube.mirrored_ofTurn hn t)⟩

end KeepMirrored

/-- Carried out side by side, a script and its reflection keep mirrored states mirrored. -/
theorem runRelation_keepMirrored (hn : 2 ≤ n) :
    RunRelation (Move.Legal n) (fun _ => False) true perform perform (KeepMirrored n) where
  skip := KeepMirrored.skip
  andThen := KeepMirrored.andThen
  turn := by
    rintro span m ⟨t, rfl⟩ reflecting inverse
    obtain ⟨t', hseen, hreflected⟩ := exists_seen_move (Nat.zero_lt_of_lt hn) t inverse
    have hturn := KeepMirrored.turn hn span t'
    cases reflecting with
    | false => exact ⟨_, _, hseen, hreflected, hturn⟩
    | true => exact ⟨_, _, hreflected, hseen, hturn.symm hn⟩
  cycle := by
    intro c hc
    contradiction

/-- **The reflection of a script is its image in the cube's point symmetry.** A script without
cycles of parts whose moves are legal has a reflection, and both are carried out on the solved cube.
Opposite to the location where the script leaves a part, its reflection leaves the part opposite to
it; a corner is twisted the other way round there, and an edge part is flipped if it is flipped
here. Both are to be done as many times to solve the cube, and as many for it to look solved. -/
theorem exists_apply_reflected (hn : 2 ≤ n) {s : Script} (h : s.Each (Move.Legal n) fun _ => False)
    (inverse : Bool) :
    ∃ t c c', s.reflected? = some t ∧ s.apply inverse (Cube.solved n) = .ok () c ∧
      t.apply inverse (Cube.solved n) = .ok () c' ∧
      (∀ kind : PartKind, ∀ i < kind.count n,
        oppositeLocation n kind i < kind.count n ∧
        position n kind (oppositeLocation n kind i) = (position n kind i).opposite ∧
        ((c'.arrangement kind).slot (oppositeLocation n kind i)).part =
          oppositeLocation n kind ((c.arrangement kind).slot i).part) ∧
      (∀ i < PartKind.corner.count n, (c'.corners.slot (oppositeLocation n .corner i)).twist =
        (3 - (c.corners.slot i).twist) % 3) ∧
      (∀ i < PartKind.edge.count n, (c'.edges.slot (oppositeLocation n .edge i)).twist =
        (c.edges.slot i).twist) ∧
      c'.order = c.order ∧ c'.visibleOrder = c.visibleOrder := by
  have hR := runRelation_keepMirrored hn
  obtain ⟨t, ht⟩ := Option.isSome_iff_exists.mp (hR.isSome_reflected? h)
  obtain ⟨c, c', hrun, hseen, hmirrored⟩ := hR.walk false inverse s h _ _ (Cube.mirrored_solved n)
  have hrun' : t.apply inverse (Cube.solved n) = .ok () c' := by
    rw [apply, walk_reflected perform inverse s ht]
    exact hseen
  refine ⟨t, c, c', ht, hrun, hrun', ?_, ?_, ?_, (hmirrored.order_eq hn).symm,
    (hmirrored.visibleOrder_eq hn).symm⟩
  · intro kind i hi
    exact ⟨oppositeLocation_lt hn hi, position_oppositeLocation hn hi,
      ((hmirrored.arrangement kind).slot i hi).part⟩
  · intro i hi
    exact (hmirrored.arrangement .corner).twist_corner hn hi
  · intro i hi
    exact (hmirrored.arrangement .edge).twist_edge hn hi

/-- On a cube with four layers, a commutator of a turn seen from another one, itself partly seen in
the reflection, and of two turns undone. -/
def partlyReflected : Script :=
  .commutation {} (.conjugation {} (.move {} ⟨4, 0, 8, 1⟩) (.reflection {} (.move {} ⟨4, 1, 1, 1⟩)))
    (.inversion {} (.sequence {} [.move {} ⟨4, 2, 3, 1⟩, .move {} ⟨4, 0, 1, 2⟩]))

theorem legal_partlyReflected : partlyReflected.Each (Move.Legal 4) fun _ => False := by
  have hright : Move.Legal 4 ⟨4, 0, 8, 1⟩ := ⟨⟨.x, 8, by decide, 1, by decide⟩, rfl⟩
  have hdown : Move.Legal 4 ⟨4, 1, 1, 1⟩ := ⟨⟨.y, 1, by decide, 1, by decide⟩, rfl⟩
  have hback : Move.Legal 4 ⟨4, 2, 3, 1⟩ := ⟨⟨.z, 3, by decide, 1, by decide⟩, rfl⟩
  have hleft : Move.Legal 4 ⟨4, 0, 1, 2⟩ := ⟨⟨.x, 1, by decide, 2, by decide⟩, rfl⟩
  exact ⟨⟨hright, hdown⟩, hback, hleft, trivial⟩

/-- The sixth corner, which the commutator brings to the second place and twists twice, is opposite
to the first one, which its reflection brings to the fifth place, opposite to the second one, and
twists once. -/
theorem exists_apply_partlyReflected :
    2 ≤ 4 ∧ (partlyReflected.Each (Move.Legal 4) fun _ => False) ∧
      ∃ t c c', partlyReflected.reflected? = some t ∧
        partlyReflected.apply false (Cube.solved 4) = .ok () c ∧
        t.apply false (Cube.solved 4) = .ok () c' ∧ c.corners.slot 1 = ⟨5, 2⟩ ∧
        (c'.corners.slot 4).part = 0 ∧ (c'.corners.slot 4).twist = 1 ∧ c.order = 5 ∧ c'.order = 5 ∧
        c'.visibleOrder = c.visibleOrder := by
  obtain ⟨t, c, c', ht, hrun, hrun', hpart, htwist, -, horder, hvisible⟩ :=
    exists_apply_reflected (by decide) legal_partlyReflected false
  have hstate : ∃ d ∈ partlyReflected.state? 4, d.corners.slot 1 = ⟨5, 2⟩ ∧ d.order = 5 := by
    decide +kernel
  obtain ⟨d, hd, hslot, hfive⟩ := hstate
  obtain rfl : c = d := by
    have hsame := hrun.symm.trans (apply_of_state?_eq_some hd)
    injection hsame
  have hplace : oppositeLocation 4 .corner 1 = 4 := by decide +kernel
  have hcorner : oppositeLocation 4 .corner 5 = 0 := by decide +kernel
  have hpart₁ : (c'.corners.slot (oppositeLocation 4 .corner 1)).part =
      oppositeLocation 4 .corner (c.corners.slot 1).part := (hpart .corner 1 (by decide)).2.2
  have htwist₁ := htwist 1 (by decide)
  rw [hplace, hslot] at hpart₁ htwist₁
  rw [hcorner] at hpart₁
  exact ⟨by decide, legal_partlyReflected, t, c, c', ht, hrun, hrun', hslot, hpart₁, htwist₁, hfive,
    horder.trans hfive, hvisible⟩

end CubeLang.Script
