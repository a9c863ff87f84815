import CubeLang.Proofs.Script.Flattening
import CubeLang.Proofs.Script.Reflection

/-!
# The moves of a script seen in the reflection

Seen in the reflection, a script makes the moves that it makes, each of the layers counted from the
other end. A script that is itself a reflection is not put into another one but loses the one it has,
so that the reflection of the reflection is not the script as it was written. It makes the same moves
and does the same all the same: to see the reflection of a script is to see the script with all that
is done turned round, and what is turned round twice is as it was.
-/

set_option autoImplicit false

namespace CubeLang

/-! ## Moves in the reflection -/

namespace Move

variable {m m' : Move}

/-- Whether the layers of a move are among those that the move counts. -/
structure Proper (m : Move) : Prop where
  reversible : m.Reversible
  layerMask_lt : m.layerMask < 2 ^ m.layerCount.toNat

/-- A move is the mirror image of another one if it is the same turn of the layers that are as far
from the other end. -/
structure MirrorImage (m m' : Move) : Prop where
  layerCount_eq : m'.layerCount = m.layerCount
  axis_eq : m'.axis = m.axis
  angle_eq : m'.angle = m.angle
  layerMask_nonneg : 0 ≤ m'.layerMask
  layerMask_lt : m'.layerMask < 2 ^ m.layerCount.toNat
  testBit_eq : ∀ i < m.layerCount.toNat, m'.layerMask.toNat.testBit i =
    m.layerMask.toNat.testBit (m.layerCount.toNat - 1 - i)

theorem MirrorImage.proper (h : m.MirrorImage m') (hm : m.Proper) : m'.Proper where
  reversible := ⟨h.layerCount_eq ▸ hm.reversible.1, h.layerMask_nonneg⟩
  layerMask_lt := h.layerCount_eq ▸ h.layerMask_lt

theorem MirrorImage.symm (h : m.MirrorImage m') (hm : m.Proper) : m'.MirrorImage m where
  layerCount_eq := h.layerCount_eq.symm
  axis_eq := h.axis_eq.symm
  angle_eq := h.angle_eq.symm
  layerMask_nonneg := hm.reversible.2
  layerMask_lt := h.layerCount_eq ▸ hm.layerMask_lt
  testBit_eq := by
    rw [h.layerCount_eq]
    intro i hi
    rw [h.testBit_eq _ (by omega)]
    congr 1
    omega

/-- A move whose layers are counted has a mirror image, and is the mirror image of it. -/
theorem Proper.exists_reflected (hm : m.Proper) :
    ∃ m', m.reflected? = some m' ∧ m'.reflected? = some m ∧ m.MirrorImage m' := by
  obtain ⟨count, axis, layers, angle⟩ := m
  obtain ⟨⟨hcount, hlayers⟩, hlt⟩ := hm
  obtain ⟨n, rfl⟩ := Int.eq_ofNat_of_zero_le hcount
  obtain ⟨mask, rfl⟩ := Int.eq_ofNat_of_zero_le hlayers
  have hmask : mask < 2 ^ n := by
    simp only [Int.toNat_natCast] at hlt
    exact_mod_cast hlt
  have hreversed : LayerMask.reverse mask n < 2 ^ n ∧
      LayerMask.reverse (LayerMask.reverse mask n) n = mask := by
    rcases Nat.eq_zero_or_pos n with rfl | hn
    · -- Without layers there is the empty set alone.
      obtain rfl : mask = 0 := Nat.lt_one_iff.mp hmask
      decide
    · exact ⟨LayerMask.reverse_lt hn hmask, LayerMask.reverse_reverse hn hmask⟩
  refine ⟨⟨n, axis, LayerMask.reverse mask n, angle⟩, ?_, ?_, rfl, rfl, rfl, by simp, ?_, ?_⟩
  · simp [reflected?, reversedMask?_natCast]
  · simp [reflected?, reversedMask?_natCast, hreversed.2]
  · simp only [Int.toNat_natCast]
    exact_mod_cast hreversed.1
  · intro i hi
    exact LayerMask.testBit_reverse hmask hi

/-- What is seen of a move and what is seen of it in the reflection are mirror images of each other. -/
theorem Proper.exists_seen (hm : m.Proper) (reflecting inverse : Bool) :
    ∃ a b, m.seen? reflecting inverse = some a ∧ m.seen? (reflecting != true) inverse = some b ∧
      b.reflected? = some a ∧ a.MirrorImage b := by
  have hturned : (if inverse then m.inverse else m).Proper := by
    cases inverse with
    | false => exact hm
    | true => exact ⟨hm.reversible, hm.layerMask_lt⟩
  obtain ⟨m', hm', hback, himage⟩ := hturned.exists_reflected
  have hseen : m.seen? true inverse = some m' := by
    rw [← hm']
    cases inverse <;> simp [seen?, reflected?_inverse]
  cases reflecting with
  | false => exact ⟨_, m', rfl, hseen, hback, himage⟩
  | true => exact ⟨m', _, hseen, rfl, hm', himage.symm hturned⟩

end Move

namespace Script

/-- An action with the layers counted from the other end; a cycle of parts has none. -/
def Action.mirrored : Action → Action
  | .turn span m => .turn span (m.reflected?.getD m)
  | .cycle c inverse => .cycle c inverse

/-! ## A reflected script -/

variable {P : Move → Prop} {Q : PartCycle → Prop}

mutual

/-- What moves in the reflection have if the moves have it, all moves of a reflected script have. -/
theorem each_reflected (hP : ∀ m m', P m → m.reflected? = some m' → P m') :
    (s : Script) → {t : Script} → s.reflected? = some t → s.Each P Q → t.Each P Q
  | move span m, t, h, hs => by
    obtain ⟨m', hm', rfl⟩ := Option.map_eq_some_iff.mp h
    exact hP m m' hs hm'
  | nop span, t, h, hs => by
    obtain rfl := Option.some.inj h
    exact hs
  | sequence span children, t, h, hs => by
    obtain ⟨children', hchildren, rfl⟩ := Option.map_eq_some_iff.mp h
    exact allEach_reflected hP children hchildren hs
  | grouping span children, t, h, hs => by
    obtain ⟨children', hchildren, rfl⟩ := Option.map_eq_some_iff.mp h
    exact allEach_reflected hP children hchildren hs
  | repetition span count child, t, h, hs => by
    obtain ⟨child', hchild, rfl⟩ := Option.map_eq_some_iff.mp h
    show child'.Each P Q
    exact each_reflected hP child hchild hs
  | inversion span child, t, h, hs => by
    obtain ⟨child', hchild, rfl⟩ := Option.map_eq_some_iff.mp h
    show child'.Each P Q
    exact each_reflected hP child hchild hs
  | reflection span child, t, h, hs => by
    obtain rfl := Option.some.inj h
    exact hs
  | conjugation span a b, t, h, hs => by
    obtain ⟨a', b', ha, hb, rfl⟩ := exists_of_both h
    exact ⟨each_reflected hP a ha hs.1, each_reflected hP b hb hs.2⟩
  | rotation span a b, t, h, hs => by
    obtain ⟨a', b', ha, hb, rfl⟩ := exists_of_both h
    exact ⟨each_reflected hP a ha hs.1, each_reflected hP b hb hs.2⟩
  | commutation span a b, t, h, hs => by
    obtain ⟨a', b', ha, hb, rfl⟩ := exists_of_both h
    exact ⟨each_reflected hP a ha hs.1, each_reflected hP b hb hs.2⟩
  | macroUse span identifier body, t, h, hs => by
    obtain ⟨body', hbody, rfl⟩ := Option.map_eq_some_iff.mp h
    show body'.Each P Q
    exact each_reflected hP body hbody hs
  | permutation span cycle, t, h, hs => by
    obtain rfl := Option.some.inj h
    exact hs

theorem allEach_reflected (hP : ∀ m m', P m → m.reflected? = some m' → P m') :
    (children : List Script) → {children' : List Script} →
    reflectedAll? children = some children' → AllEach P Q children → AllEach P Q children'
  | [], _, h, _ => by
    obtain rfl := Option.some.inj h
    trivial
  | s :: rest, _, h, hs => by
    obtain ⟨s', rest', hs', hrest, rfl⟩ := exists_of_both h
    exact ⟨each_reflected hP s hs' hs.1, allEach_reflected hP rest hrest hs.2⟩

end

/-- The reflection of a script whose moves are proper is such a script. -/
theorem each_proper_reflected {s t : Script} (h : s.reflected? = some t)
    (hs : s.Each Move.Proper Q) : t.Each Move.Proper Q := by
  refine each_reflected (fun m m' hm hm' => ?_) s h hs
  obtain ⟨m₁, hreflected, -, himage⟩ := hm.exists_reflected
  obtain rfl := Option.some.inj (hm'.symm.trans hreflected)
  exact himage.proper hm

/-! ## The reflection of the reflection -/

section

variable {σ : Type} (visit : Action → Step σ Unit)

/-- To see a script as it stands is to see its reflection with all that is done turned round, and the
other way about. -/
theorem runRelation_mirrored :
    RunRelation Move.Proper (fun _ => True) true visit (fun a => visit a.mirrored) Eq where
  skip := rfl
  andThen hfirst hsecond := by rw [hfirst, hsecond]
  turn span m hm reflecting inverse := by
    obtain ⟨a, b, ha, hb, hback, -⟩ := hm.exists_seen reflecting inverse
    exact ⟨a, b, ha, hb, by simp [Action.mirrored, hback]⟩
  cycle _ _ _ := rfl

/-- The reflection of the reflection of a script is carried out as the script is. -/
theorem walk_reflected_reflected {s t u : Script} (hs : s.Each Move.Proper fun _ => True)
    (ht : s.reflected? = some t) (hu : t.reflected? = some u) (inverse : Bool) :
    u.walk visit false inverse = s.walk visit false inverse := by
  calc u.walk visit false inverse = t.walk visit true inverse := walk_reflected visit inverse t hu
    _ = t.walk (fun a => visit a.mirrored) false inverse :=
      (runRelation_mirrored visit).walk true inverse t (each_proper_reflected ht hs)
    _ = s.walk (fun a => visit a.mirrored) true inverse := walk_reflected _ inverse s ht
    _ = s.walk visit false inverse := ((runRelation_mirrored visit).walk false inverse s hs).symm

end

/-! ## The moves of both -/

/-- Two moves listed are mirror images with the same place in the text. -/
def MirrorImages (e e' : Span × Move) : Prop := e'.1 = e.1 ∧ e.2.MirrorImage e'.2

/-- One step lists some moves, and another one the mirror images of them. -/
def ListsMirrored (f g : Step (Array (Span × Move)) Unit) : Prop :=
  ∃ moves moves', Records f moves ∧ Records g moves' ∧ List.Forall₂ MirrorImages moves moves'

theorem ListsMirrored.andThen {f f' g g' : Step (Array (Span × Move)) Unit}
    (h : ListsMirrored f g) (h' : ListsMirrored f' g') : ListsMirrored (do f; f') (do g; g') := by
  obtain ⟨moves₁, moves₂, hlist, hmirror, himages⟩ := h
  obtain ⟨moves₁', moves₂', hlist', hmirror', himages'⟩ := h'
  exact ⟨_, _, hlist.andThen hlist', hmirror.andThen hmirror', List.rel_append himages himages'⟩

/-- Listing the moves of a script goes along with listing their mirror images. -/
theorem runRelation_listsMirrored :
    RunRelation Move.Proper (fun _ => True) true record record ListsMirrored where
  skip := ⟨[], [], .skip, .skip, .nil⟩
  andThen := .andThen
  turn span m hm reflecting inverse := by
    obtain ⟨a, b, ha, hb, -, himage⟩ := hm.exists_seen reflecting inverse
    exact ⟨a, b, ha, hb, _, _, .turn span a, .turn span b, .cons ⟨rfl, himage⟩ .nil⟩
  cycle _ _ _ := ⟨[], [], .skip, .skip, .nil⟩

/-- **Reflection commutes with listing the moves, and twice it changes nothing.** A script whose moves
are of layers that they count has a reflection, which has one too. In either direction the moves of
the reflection are those of the script in the same order and with the same places in the text, each
about the same axis and by the same angle, of the layers as far from the other end. The reflection of
the reflection makes the moves of the script, and does to every cube what the script does, also where
it is refused. -/
theorem resolvedMoves_reflected {s : Script} (hs : s.Each Move.Proper fun _ => True) :
    ∃ t u, s.reflected? = some t ∧ t.reflected? = some u ∧ ∀ inverse,
      (∃ moves moves', s.resolvedMoves inverse = .ok moves ∧
        t.resolvedMoves inverse = .ok moves' ∧ List.Forall₂ MirrorImages moves moves' ∧
        u.resolvedMoves inverse = .ok moves) ∧
      ∀ c, u.apply inverse c = s.apply inverse c := by
  have hR := runRelation_listsMirrored
  obtain ⟨t, ht⟩ := Option.isSome_iff_exists.mp (hR.isSome_reflected? hs)
  obtain ⟨u, hu⟩ := Option.isSome_iff_exists.mp
    (hR.isSome_reflected? (each_proper_reflected ht hs))
  refine ⟨t, u, ht, hu, fun inverse => ⟨?_, fun c => ?_⟩⟩
  · obtain ⟨moves, moves', hlist, hmirror, himages⟩ := hR.walk false inverse s hs
    have hlist' : Records (t.walk record false inverse) moves' := by
      rw [walk_reflected record inverse s ht]
      exact hmirror
    have hagain : Records (u.walk record false inverse) moves := by
      rw [walk_reflected_reflected record hs ht hu]
      exact hlist
    exact ⟨moves, moves', hlist.resolvedMoves, hlist'.resolvedMoves, himages, hagain.resolvedMoves⟩
  · rw [apply, walk_reflected_reflected perform hs ht hu, apply]

/-- On a cube with four layers, the reflection of a macro, which turns the two layers to the right and
then, seen in the reflection again, the one at the back, with a twist of a side part between them. -/
def reflectedMacro : Script :=
  .reflection {} (.macroUse {} "twice" (.sequence {} [.move ⟨1, 2⟩ ⟨4, 0, 12, 1⟩,
    .permutation {} twistedCentre, .reflection {} (.inversion {} (.move ⟨4, 5⟩ ⟨4, 2, 1, 2⟩))]))

/-- Inversely the second turn is made first, by a half turn the other way. Its layer is the one at the
back in the script and the one in front in the reflection. -/
theorem resolvedMoves_reflectedMacro :
    (reflectedMacro.Each Move.Proper fun _ => True) ∧
      ∃ t u moves moves', reflectedMacro.reflected? = some t ∧ t.reflected? = some u ∧
        reflectedMacro.resolvedMoves true = .ok moves ∧ t.resolvedMoves true = .ok moves' ∧
        moves = [(⟨4, 5⟩, ⟨4, 2, 1, 2⟩), (⟨1, 2⟩, ⟨4, 0, 3, -1⟩)] ∧
        moves' = [(⟨4, 5⟩, ⟨4, 2, 8, 2⟩), (⟨1, 2⟩, ⟨4, 0, 12, -1⟩)] ∧
        List.Forall₂ MirrorImages moves moves' ∧ u.resolvedMoves true = .ok moves ∧
        ∀ c, u.apply true c = reflectedMacro.apply true c := by
  have heach : reflectedMacro.Each Move.Proper fun _ => True := by
    have hright : Move.Proper ⟨4, 0, 12, 1⟩ := ⟨⟨by decide, by decide⟩, by decide⟩
    have hback : Move.Proper ⟨4, 2, 1, 2⟩ := ⟨⟨by decide, by decide⟩, by decide⟩
    exact ⟨hright, trivial, hback, trivial⟩
  obtain ⟨t, u, ht, hu, hboth⟩ := resolvedMoves_reflected heach
  obtain ⟨⟨moves, moves', hlist, hlist', himages, hagain⟩, happly⟩ := hboth true
  have hlisted : reflectedMacro.resolvedMoves true =
    .ok [(⟨4, 5⟩, ⟨4, 2, 1, 2⟩), (⟨1, 2⟩, ⟨4, 0, 3, -1⟩)] := rfl
  obtain rfl := Except.ok.inj (hlist.symm.trans hlisted)
  have hlisted' : t.resolvedMoves true =
      .ok [(⟨4, 5⟩, ⟨4, 2, 8, 2⟩), (⟨1, 2⟩, ⟨4, 0, 12, -1⟩)] := by
    obtain rfl := Option.some.inj ht
    rfl
  obtain rfl := Except.ok.inj (hlist'.symm.trans hlisted')
  exact ⟨heach, t, u, _, _, ht, hu, hlist, hlist', rfl, rfl, himages, hagain, happly⟩

end Script

end CubeLang
