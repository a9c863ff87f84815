import CubeLang.Proofs.Cube.Decomposition

/-!
# The texts of cycles of parts

The text of a state is made of the texts of cycles of parts, one for each cycle of its arrangements,
however it was turned before it was written.
-/

set_option autoImplicit false

namespace CubeLang

open Arrangement

namespace PartCycle

variable {cycle : List Nat}

/-- The sign that stands for a twist of parts of a kind. -/
def mark : PartKind → Nat → Option Symbol
  | .corner, 0 | .edge, 0 | .side, 0 => none
  | .corner, 1 | .side, 1 => some .permutationMinus
  | .side, 2 => some .permutationPlusPlus
  | .corner, _ | .edge, _ | .side, _ => some .permutationPlus

/-- The text of a sign. -/
def markText (k : CycleTokens) : Option Symbol → String
  | some .permutationPlus => k.plus
  | some .permutationPlusPlus => k.plusPlus
  | some .permutationMinus => k.minus
  | _ => ""

/-- The text of a part. -/
def itemText (n : Nat) (k : CycleTokens) : PartKind → Item → String
  | .corner, i => Cube.cornerName k i.location i.orientation
  | .edge, i => Cube.edgeName n k i.location i.orientation
  | .side, i => Cube.sideName n k k.sideMark i.location i.orientation

/-- The text of a cycle of parts of a kind. -/
def text (n : Nat) (k : CycleTokens) (kind : PartKind) (p : PartCycle) : String :=
  k.cycle (p.items.map (itemText n k kind)) (markText k (mark kind p.sign))

theorem cornerMark_eq (k : CycleTokens) (twist : Nat) :
    k.cornerMark twist = markText k (mark .corner twist) := by
  rcases twist with _ | _ | twist <;> rfl

theorem edgeMark_eq (k : CycleTokens) (twist : Nat) :
    k.edgeMark twist = markText k (mark .edge twist) := by
  rcases twist with _ | twist <;> rfl

theorem sideMark_eq (k : CycleTokens) (twist : Nat) :
    k.sideMark twist = markText k (mark .side twist) := by
  rcases twist with _ | _ | _ | twist <;> rfl

/-- The items of a cycle are those of the cycle of parts that it is written as, and the twist left
over is the sign. -/
theorem cycleItems_eq (kind : PartKind) (a : Arrangement) (write : Nat → Nat → String)
    (hne : cycle ≠ []) :
    cycleItems a kind.modulus write cycle =
      ((written kind a cycle).items.map fun i => write i.location i.orientation,
        (written kind a cycle).sign) := by
  cases cycle with
  | nil => contradiction
  | cons first rest =>
    simp only [cycleItems, written, List.map_cons, List.map_zipWith]

/-- The cycles of parts that stand for a cycle of an arrangement of a cube with `n` layers: the first
part is named as it is, and no part is named twice. -/
structure Plain (n : Nat) (kind : PartKind) (p : PartCycle) : Prop where
  kind_eq : p.kind = some kind
  ne_nil : p.items ≠ []
  location_lt : ∀ i ∈ p.items, i.location < kind.count n
  orientation_lt : ∀ i ∈ p.items, i.orientation < kind.modulus
  orientation_head : ∀ i ∈ p.items.head?, i.orientation = 0
  nodup : p.locations.Nodup
  sign_lt : p.sign < kind.modulus

theorem orientation_gathered_lt {a : Arrangement} {m twist : Nat} {rest : List Nat} (hm : 0 < m)
    {i : Item} (hi : i ∈ List.zipWith Item.mk rest (gatheredTwists a m twist rest)) :
    i.orientation < m := by
  induction rest generalizing twist with
  | nil => contradiction
  | cons x rest ih =>
    rw [gatheredTwists, List.zipWith_cons_cons] at hi
    rcases List.mem_cons.mp hi with rfl | hi
    · exact Nat.mod_lt _ hm
    · exact ih hi

theorem plain_written {n : Nat} {kind : PartKind} {a : Arrangement}
    (h : a.Valid kind (kind.count n)) (hcycle : a.IsCycle cycle) :
    (written kind a cycle).Plain n kind := by
  have hm := modulus_pos kind
  have hlocations := locations_written kind a cycle
  have hlt : ∀ i ∈ (written kind a cycle).items, i.location < kind.count n := by
    intro i hi
    have hmem : i.location ∈ (written kind a cycle).locations := List.mem_map_of_mem hi
    rw [hlocations] at hmem
    exact h.size_eq ▸ hcycle.lt_size _ hmem
  have hnodup : (written kind a cycle).locations.Nodup := by
    rw [hlocations]
    exact hcycle.nodup
  cases cycle with
  | nil => exact absurd rfl hcycle.ne_nil
  | cons first rest =>
    refine ⟨rfl, by simp [written], hlt, ?_, ?_, hnodup, Nat.mod_lt _ hm⟩
    · intro i hi
      rcases List.mem_cons.mp hi with rfl | hi
      · exact hm
      · exact orientation_gathered_lt hm hi
    · intro i hi
      obtain rfl := Option.some.inj hi
      rfl

end PartCycle

namespace Cube

variable {n : Nat} {c : Cube}

/-! ## The cycles that are written -/

/-- The cycles of the corners as they are written. -/
def cornerCycles (c : Cube) : List (List Nat) :=
  c.corners.cycles.map fun cycle =>
    turnedTo (leastPlace (cycle.map fun location => (c.corners.slot location).part)) cycle

/-- The cycles of the edge parts as they are written. -/
def edgeCycles (c : Cube) : List (List Nat) := alignedCycles none c.edges.cycles

/-- The cycles of the side parts as they are written. -/
def sideCycles (c : Cube) : List (List Nat) :=
  (c.sides.cycles.filter onOneFace ++ c.sides.cycles.filter fun cycle => !onOneFace cycle).map
    fun cycle => turnedTo (leastPlace cycle) cycle

/-- The cycles of parts of a kind as they are written. -/
def cyclesOf (c : Cube) : PartKind → List (List Nat)
  | .corner => c.cornerCycles
  | .edge => c.edgeCycles
  | .side => c.sideCycles

/-- The kinds of parts in the order in which they are written. -/
def kinds : List PartKind := [.corner, .edge, .side]

/-- The cycles of parts that are written for a kind. -/
def writtenOf (c : Cube) (kind : PartKind) : List PartCycle :=
  (c.cyclesOf kind).map (PartCycle.written kind (c.arrangement kind))

/-- All cycles of parts that are written, with their kinds. -/
def written (c : Cube) : List (PartKind × PartCycle) :=
  kinds.flatMap fun kind => (c.writtenOf kind).map fun p => (kind, p)

theorem mem_written {e : PartKind × PartCycle} : e ∈ c.written ↔ e.2 ∈ c.writtenOf e.1 := by
  have hkinds : e.1 ∈ kinds := by
    cases e.1 <;> decide
  constructor
  · intro he
    obtain ⟨kind, -, he⟩ := List.mem_flatMap.mp he
    obtain ⟨p, hp, rfl⟩ := List.mem_map.mp he
    exact hp
  · intro hp
    exact List.mem_flatMap.mpr ⟨e.1, hkinds, List.mem_map.mpr ⟨e.2, hp, rfl⟩⟩

theorem forall₂_turnedTo (f : List Nat → Nat) (cycles : List (List Nat)) :
    List.Forall₂ (fun c c' => ∃ k, c' = c.rotate k) cycles
      (cycles.map fun cycle => turnedTo (f cycle) cycle) := by
  induction cycles with
  | nil => exact .nil
  | cons cycle cycles ih => exact .cons (turnedTo_eq_rotate _ _) ih

theorem forall₂_alignedCycles (edge : Option Nat) (cycles : List (List Nat)) :
    List.Forall₂ (fun c c' => ∃ k, c' = c.rotate k) cycles (alignedCycles edge cycles) := by
  induction cycles generalizing edge with
  | nil => exact .nil
  | cons cycle cycles ih => exact .cons (turnedTo_eq_rotate _ _) (ih _)

section Valid

variable (hc : c.Valid n)
include hc

theorem Valid.madeOf_cornerCycles : c.corners.MadeOf c.cornerCycles :=
  (hc.2 .corner).madeOf_cycles.rotated (forall₂_turnedTo _ _)

theorem Valid.madeOf_edgeCycles : c.edges.MadeOf c.edgeCycles :=
  (hc.2 .edge).madeOf_cycles.rotated (forall₂_alignedCycles _ _)

theorem Valid.madeOf_sideCycles : c.sides.MadeOf c.sideCycles := by
  have hperm : c.sides.cycles.Perm (c.sides.cycles.filter onOneFace ++
      c.sides.cycles.filter fun cycle => !onOneFace cycle) :=
    (List.filter_append_perm _ _).symm
  exact ((hc.2 .side).madeOf_cycles.perm hperm).rotated (forall₂_turnedTo _ _)

theorem Valid.cornerTexts_eq (k : CycleTokens) : c.cornerTexts k = c.cornerCycles.map fun cycle =>
    (PartCycle.written .corner c.corners cycle).text n k .corner := by
  unfold cornerTexts cornerCycles
  rw [List.map_map]
  refine List.map_congr_left ?_
  intro cycle hcycle
  have hne := hc.madeOf_cornerCycles.isCycle _ (List.mem_map_of_mem hcycle)
  have hitems := PartCycle.cycleItems_eq .corner c.corners (cornerName k) hne.ne_nil
  have hmodulus : PartKind.corner.modulus = 3 := rfl
  rw [hmodulus] at hitems
  simp only [hitems, Function.comp_apply, PartCycle.cornerMark_eq]
  rfl

theorem Valid.edgeTexts_eq (k : CycleTokens) : c.edgeTexts k = c.edgeCycles.map fun cycle =>
    (PartCycle.written .edge c.edges cycle).text n k .edge := by
  unfold edgeTexts
  refine List.map_congr_left ?_
  intro cycle hcycle
  have hne := hc.madeOf_edgeCycles.isCycle _ hcycle
  have hitems := PartCycle.cycleItems_eq .edge c.edges (edgeName n k) hne.ne_nil
  have hmodulus : PartKind.edge.modulus = 2 := rfl
  rw [hmodulus] at hitems
  simp only [hc.1, hitems, PartCycle.edgeMark_eq]
  rfl

theorem Valid.sideTexts_eq (k : CycleTokens) : c.sideTexts k false = c.sideCycles.map fun cycle =>
    (PartCycle.written .side c.sides cycle).text n k .side := by
  unfold sideTexts sideCycles
  rw [List.map_map]
  refine List.map_congr_left ?_
  intro cycle hcycle
  have hne := hc.madeOf_sideCycles.isCycle _ (List.mem_map_of_mem hcycle)
  have hitems := PartCycle.cycleItems_eq .side c.sides (sideName n k k.sideMark)
    hne.ne_nil
  have hmodulus : PartKind.side.modulus = 4 := rfl
  rw [hmodulus] at hitems
  simp only [Bool.false_eq_true, if_false, Function.comp_apply, hc.1, hitems]
  rw [PartCycle.sideMark_eq]
  rfl

/-- The texts of the parts of each kind are those of the cycles written for the kind. -/
theorem Valid.text_eq (k : CycleTokens) : c.text k =
    lines k (kinds.map fun kind => joined ((c.writtenOf kind).map fun p => p.text n k kind)) := by
  have hmap : ∀ kind, ((c.writtenOf kind).map fun p => p.text n k kind) =
      (c.cyclesOf kind).map fun cycle =>
        (PartCycle.written kind (c.arrangement kind) cycle).text n k kind := by
    intro kind
    rw [writtenOf, List.map_map]
    rfl
  unfold text kinds
  simp only [List.map_cons, List.map_nil, hmap]
  unfold cornerText edgeText sideText
  rw [hc.cornerTexts_eq, hc.edgeTexts_eq, hc.sideTexts_eq]
  rfl

theorem Valid.madeOf_cyclesOf (kind : PartKind) :
    (c.arrangement kind).MadeOf (c.cyclesOf kind) := by
  cases kind with
  | corner => exact hc.madeOf_cornerCycles
  | edge => exact hc.madeOf_edgeCycles
  | side => exact hc.madeOf_sideCycles

theorem Valid.plain_of_mem_writtenOf {kind : PartKind} {p : PartCycle} (hp : p ∈ c.writtenOf kind) :
    p.Plain n kind := by
  obtain ⟨cycle, hcycle, rfl⟩ := List.mem_map.mp hp
  exact PartCycle.plain_written (hc.2 kind) ((hc.madeOf_cyclesOf kind).isCycle _ hcycle)

theorem Valid.plain_of_mem_written {e : PartKind × PartCycle} (he : e ∈ c.written) :
    e.2.Plain n e.1 :=
  hc.plain_of_mem_writtenOf (mem_written.mp he)

/-- The cycles that are written for a state make it out of the solved cube. -/
theorem Valid.actAll?_written_eq : (solved n).actAll? (c.written.map Prod.snd) = some c := by
  have hall := hc.actAll?_madeOf hc.madeOf_cornerCycles hc.madeOf_edgeCycles hc.madeOf_sideCycles
  have hwritten : c.written.map Prod.snd = c.writtenOf .corner ++ c.writtenOf .edge ++
      c.writtenOf .side := by
    simp [written, kinds, Function.comp_def]
  rw [hwritten]
  exact hall

end Valid

end Cube

end CubeLang
