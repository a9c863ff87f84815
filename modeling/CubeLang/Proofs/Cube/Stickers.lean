import CubeLang.Proofs.Cube.CycleBounds
import CubeLang.Proofs.Cube.PartName
import CubeLang.Proofs.Script.Action
import Mathlib.Data.Int.ModEq

/-!
# What a cycle does to the stickers

A cycle of corners or edges is written by naming its parts face by face. What is stored of a name is
a location and an orientation, and what a cycle does is said by differences of orientations. All the
same each sticker on a face of a name comes to the face in the same place of the next name: where a
face of a name stands among the faces of the location and the orientation of the name add up to the
place of the face in the name.
-/

set_option autoImplicit false

namespace CubeLang

/-- A sticker of a part: the part, and the place of the sticker on it. -/
structure Sticker where
  part : Nat
  place : Nat
deriving DecidableEq

/-- The sticker that is seen on a face of a location, if the location has this face. -/
def Cube.sticker? (cube : Cube) (kind : PartKind) (location : Nat) (face : Face) : Option Sticker :=
  let faces := Turn.locationFaces kind location
  let slot := (cube.arrangement kind).slot location
  if face ∈ faces then some ⟨slot.part, (faces.idxOf face + slot.twist) % kind.modulus⟩ else none

theorem Face.mem_all (face : Face) : face ∈ Face.all := by
  cases face <;> decide

namespace PartCycle

/-- A part as it is named: its faces in some order, its number, and the layers of the cube for which
the number is checked. -/
structure Name where
  faces : List Face
  number : Int
  layerCount : Int

/-- Adds parts without signs to a cycle, up to the first that is refused. -/
def addNames (kind : PartKind) : List Name → EStateM Fault PartCycle Unit
  | [] => pure ()
  | name :: names => do
    addItem kind none (name.faces.map Face.symbol) name.number name.layerCount
    addNames kind names

/-- The sticker that is seen on the face in the place `m` of the name `i` of a cycle. -/
def seen? (kind : PartKind) (names : List Name) (c : PartCycle) (cube : Cube) (i m : Nat) :
    Option Sticker := do
  let name ← names[i]?
  let location ← c.locations[i]?
  let face ← name.faces[m]?
  cube.sticker? kind location face

/-- A name has as many faces as a part of its kind, and the number is that of a part of the cube. -/
structure Name.Proper (n : Nat) (kind : PartKind) (name : Name) : Prop where
  length_faces : name.faces.length = kind.modulus
  number_lt : kind = .edge → name.number < n - 2

instance (n : Nat) (kind : PartKind) (name : Name) : Decidable (name.Proper n kind) :=
  decidable_of_iff (_ ∧ _) ⟨fun h => ⟨h.1, h.2⟩, fun h => ⟨h.1, h.2⟩⟩

/-- A location is that of a name: it is one of the cube, between the faces of the name and in the
round of its number. -/
structure Name.IsAt (n : Nat) (kind : PartKind) (name : Name) (location : Nat) : Prop where
  lt_count : location < kind.count n
  mem_iff : ∀ face, face ∈ Turn.locationFaces kind location ↔ face ∈ name.faces
  round_eq : kind = .edge → (location / 12 : Nat) = name.number

/-! ## Names and orientations -/

/-- The faces of an item are those of its name, and where each of them stands at the location tells
its place in the name. Corners named anticlockwise are counted the other way round. -/
structure StandsFor (kind : PartKind) (faces : List Face) (item : Item) : Prop where
  mem_iff : ∀ face ∈ Face.all, face ∈ Turn.locationFaces kind item.location ↔ face ∈ faces
  place_eq : ∀ m < kind.modulus, ∀ face ∈ faces[m]?,
    ((Turn.locationFaces kind item.location).idxOf face + item.orientation) % kind.modulus =
      (1 + item.orientation / 3) * m % kind.modulus
  straight : kind = .edge → item.orientation / 3 = 0

instance (kind : PartKind) (faces : List Face) (item : Item) :
    Decidable (StandsFor kind faces item) :=
  decidable_of_iff (_ ∧ _ ∧ _) ⟨fun h => ⟨h.1, h.2.1, h.2.2⟩, fun h => ⟨h.1, h.2, h.3⟩⟩

/-- The three faces of a corner can be named in six ways. -/
theorem standsFor_cornerItem : ∀ x ∈ Face.all, ∀ y ∈ Face.all, ∀ z ∈ Face.all,
    ∀ item ∈ (cornerItem {} [x, y, z]).toOption, StandsFor .corner [x, y, z] item := by
  decide +kernel

/-- The two faces of an edge can be named in two ways. -/
theorem standsFor_edge : ∀ x ∈ Face.all, ∀ y ∈ Face.all, ∀ i ∈ locationOf? edgeFaces [x, y],
    StandsFor .edge [x, y] ⟨i, if some x = (edgeFaces.getD i []).head? then 0 else 1⟩ := by
  decide +kernel

variable {n : Nat} {kind : PartKind} {name : Name} {names : List Name} {c c' : PartCycle}
variable {faces : List Face} {item next : Item} {number layerCount : Int} {cube : Cube}

theorem standsFor_of_cornerItem (hlength : faces.length = 3) (h : c.cornerItem faces = .ok item) :
    StandsFor .corner faces item := by
  obtain ⟨x, y, z, rfl⟩ := List.length_eq_three.mp hlength
  refine standsFor_cornerItem x (Face.mem_all x) y (Face.mem_all y) z (Face.mem_all z) item ?_
  rw [cornerItem_empty h]
  rfl

theorem standsFor_of_edgeItem (hlength : faces.length = 2)
    (h : edgeItem faces number layerCount = .ok item) :
    StandsFor .edge faces item ∧ (item.location / 12 : Nat) = number := by
  obtain ⟨x, y, rfl⟩ := List.length_eq_two.mp hlength
  obtain ⟨hlow, -, i, hi, rfl⟩ := edgeItem_eq_ok h
  have hlt : i < 12 := lt_of_locationOf? hi
  have hstands := standsFor_edge x (Face.mem_all x) y (Face.mem_all y) i hi
  -- The round of an edge changes nothing about its faces.
  have hfaces : Turn.locationFaces .edge (i + 12 * number.toNat) = Turn.locationFaces .edge i := by
    show edgeFaces.getD ((i + 12 * number.toNat) % 12) [] = edgeFaces.getD (i % 12) []
    rw [Nat.add_mul_mod_self_left]
  refine ⟨⟨?_, ?_, hstands.straight⟩, ?_⟩
  · rw [hfaces]
    exact hstands.mem_iff
  · rw [hfaces]
    exact hstands.place_eq
  · dsimp only
    omega

/-- An item is that of a name. -/
structure Named (n : Nat) (kind : PartKind) (name : Name) (item : Item) : Prop where
  standsFor : StandsFor kind name.faces item
  isAt : name.IsAt n kind item.location

theorem named_of_item (hkind : kind ≠ .side) (hname : name.Proper n kind)
    (h : c.item kind none 0 (name.faces.map Face.symbol) name.number layerCount = .ok item) :
    Named n kind name item := by
  unfold PartCycle.item at h
  rw [mapM_ofSymbol?] at h
  cases kind with
  | side => contradiction
  | edge =>
    obtain ⟨hstands, hround⟩ := standsFor_of_edgeItem hname.length_faces h
    have hnumber := hname.number_lt rfl
    refine ⟨hstands, ?_, fun face => hstands.mem_iff face (Face.mem_all face), fun _ => hround⟩
    show item.location < 12 * (n - 2)
    omega
  | corner =>
    have hstands := standsFor_of_cornerItem hname.length_faces h
    exact ⟨hstands, location_lt_of_cornerItem h,
      fun face => hstands.mem_iff face (Face.mem_all face), fun hedge => by contradiction⟩

/-! ## Adding names -/

/-- A cycle that came about by adding names: its items are those of the names, it has no sign, and
all corners are named the same way round. -/
structure Spelled (n : Nat) (kind : PartKind) (names : List Name) (c : PartCycle) : Prop where
  nodup : c.locations.Nodup
  kind_eq : c.items ≠ [] → c.kind = some kind
  sign_eq : c.sign = 0
  named : List.Forall₂ (Named n kind) names c.items
  same : kind = .corner →
    ∀ item ∈ c.items, ∀ there ∈ c.items, there.orientation / 3 = item.orientation / 3

theorem spelled_empty : Spelled n kind [] {} :=
  ⟨List.nodup_nil, fun h => absurd rfl h, rfl, .nil, by simp⟩

/-- Adding a name that is accepted. -/
theorem Spelled.addItem (h : Spelled n kind names c) (hkind : kind ≠ .side)
    (hname : name.Proper n kind)
    (hadd : PartCycle.addItem kind none (name.faces.map Face.symbol) name.number layerCount c =
      .ok () c') : Spelled n kind (names ++ [name]) c' := by
  have hnodup : c'.locations.Nodup := nodup_after_addItem hadd h.nodup
  obtain ⟨-, twist, item, htwist, hitem, rfl⟩ := eq_of_addItem hadd
  obtain rfl : 0 = twist := Except.ok.inj htwist
  have hnamed := named_of_item hkind hname hitem
  refine ⟨hnodup, fun _ => rfl, ?_, ?_, ?_⟩
  · dsimp only
    split
    · rfl
    · exact h.sign_eq
  · exact List.rel_append h.named (.cons hnamed .nil)
  · rintro rfl
    have hsame : ∀ there ∈ c.items, there.orientation / 3 = item.orientation / 3 := by
      unfold PartCycle.item at hitem
      rw [mapM_ofSymbol?] at hitem
      exact (cornerItem_eq_ok hitem).2.2
    simp only [List.mem_append, List.mem_singleton]
    rintro a (ha | rfl) b (hb | rfl)
    · exact h.same rfl a ha b hb
    · exact (hsame a ha).symm
    · exact hsame b hb
    · rfl

/-- Adding names that are all accepted. -/
theorem Spelled.addNames {rest : List Name} (h : Spelled n kind names c) (hkind : kind ≠ .side)
    (hrest : ∀ name ∈ rest, name.Proper n kind)
    (hadd : PartCycle.addNames kind rest c = .ok () c') : Spelled n kind (names ++ rest) c' := by
  induction rest generalizing names c with
  | nil =>
    obtain ⟨-, rfl⟩ := EStateM.Result.ok.inj hadd
    rwa [List.append_nil]
  | cons name rest ih =>
    obtain ⟨_, c₁, hfirst, hadd⟩ := exists_of_bind_eq_ok hadd
    have hnext := h.addItem hkind (hrest name List.mem_cons_self) hfirst
    have hall := ih hnext (fun name hname => hrest name (List.mem_cons_of_mem _ hname)) hadd
    rwa [List.append_assoc, List.singleton_append] at hall

/-! ## Steps without a sign -/

/-- The step from an item to the next one. -/
def stepTo (here next : Item) : Step :=
  ⟨here.location, next.location, (next.orientation : Int) - here.orientation⟩

theorem stepsFrom_zero (first here : Item) (rest : List Item) :
    stepsFrom first 0 here rest = List.zipWith stepTo (here :: rest) (rest ++ [first]) := by
  induction rest generalizing here with
  | nil => simp [stepsFrom, stepTo]
  | cons next rest ih =>
    rw [stepsFrom, ih, List.cons_append, List.zipWith_cons_cons]
    rfl

/-- Without a sign all steps lead from an item to the next one alike. -/
theorem steps_of_sign_eq_zero (h : c.sign = 0) :
    c.steps = List.zipWith stepTo c.items (c.items.rotate 1) := by
  unfold steps
  split
  · rename_i hitems
    rw [hitems]
    rfl
  · rename_i first rest hitems
    rw [hitems, h, stepsFrom_zero, List.rotate_cons_succ, List.rotate_zero]

theorem stepTo_mem_steps {i : Nat} (h : c.sign = 0) (hitem : c.items[i]? = some item)
    (hnext : c.items[(i + 1) % c.items.length]? = some next) : stepTo item next ∈ c.steps := by
  have hi : i < c.items.length := (List.getElem?_eq_some_iff.mp hitem).1
  rw [steps_of_sign_eq_zero h]
  refine List.mem_of_getElem? (i := i) ?_
  rw [List.getElem?_zipWith, hitem, List.getElem?_rotate hi, hnext]

/-! ## Carrying out -/

theorem Spelled.getElem {i : Nat} (h : Spelled n kind names c) (hname : i < names.length) :
    ∃ item, c.items[i]? = some item ∧ Named n kind names[i] item := by
  have hitem : i < c.items.length := h.named.length_eq ▸ hname
  exact ⟨c.items[i], List.getElem?_eq_getElem hitem, h.named.get hname hitem⟩

theorem Spelled.isAt (h : Spelled n kind names c) :
    List.Forall₂ (Name.IsAt n kind) names c.locations :=
  List.forall₂_map_right_iff.mpr (h.named.imp fun _ _ hnamed => hnamed.isAt)

theorem Spelled.within (h : Spelled n kind names c) : c.Within n := by
  refine ⟨h.nodup, fun x hx => ?_⟩
  obtain ⟨item, hitem, rfl⟩ := List.mem_map.mp hx
  obtain ⟨i, hi, rfl⟩ := List.getElem_of_mem hitem
  have hnamed := h.named.get (h.named.length_eq.symm ▸ hi) hi
  exact ⟨kind, h.kind_eq (List.ne_nil_of_mem hitem), hnamed.isAt.lt_count⟩

/-- A step carries what is at its source to its target and adds its twist. -/
theorem slot_rearrange_of_mem {step : Step} (h : c.Within n) (hkind : c.kind = some kind)
    (hstep : step ∈ c.steps) :
    ((cube.rearrange kind (arrangement kind (kind.count n) c.steps)).arrangement kind).slot
        step.target =
      ⟨((cube.arrangement kind).slot step.source).part,
        (((cube.arrangement kind).slot step.source).twist + (step.twist % kind.modulus).toNat) %
          kind.modulus⟩ := by
  have htarget : step.target ∈ c.locations := by
    rw [← List.mem_rotate (n := 1), ← map_target_steps]
    exact List.mem_map_of_mem hstep
  have hnodup : (c.steps.map Step.target).Nodup := by
    rw [map_target_steps]
    exact List.nodup_rotate.mpr h.nodup
  have hlt : step.target < kind.count n := by
    obtain ⟨kind', hkind', hlt⟩ := h.lt_count _ htarget
    obtain rfl := Option.some.inj (hkind.symm.trans hkind')
    exact hlt
  rw [Cube.rearrange, Cube.arrangement_setArrangement, if_pos rfl,
    Arrangement.slot_andThen (by rwa [size_arrangement]), slot_arrangement_of_mem hnodup hstep hlt]

/-- Differences of orientations carry places of stickers to each other. -/
theorem place_after {modulus place place' twist o o' : Nat} (hpos : 0 < modulus)
    (h : (place' + o') % modulus = (place + o) % modulus) :
    (place' + (twist + (((o' : Int) - o) % modulus).toNat) % modulus) % modulus =
      (place + twist) % modulus := by
  have hsame : (place' : Int) + o' ≡ place + o [ZMOD modulus] := by
    exact_mod_cast congrArg (Nat.cast (R := Int)) h
  have hafter : (place' : Int) + (twist + (o' - o) % modulus) % modulus ≡
      place + twist [ZMOD modulus] := by
    calc (place' : Int) + (twist + (o' - o) % modulus) % modulus
        ≡ place' + (twist + (o' - o)) [ZMOD modulus] :=
          ((Int.mod_modEq _ _).trans ((Int.mod_modEq _ _).add_left _)).add_left _
      _ = place' + o' + (twist - o) := by omega
      _ ≡ place + o + (twist - o) [ZMOD modulus] := hsame.add_right _
      _ = place + twist := by omega
  have hnonneg : 0 ≤ ((o' : Int) - o) % modulus := Int.emod_nonneg _ (by omega)
  apply Int.natCast_inj.mp
  push_cast
  rw [Int.toNat_of_nonneg hnonneg]
  exact hafter

/-- What is seen on a face of a name. -/
theorem seen?_eq {i m : Nat} {face : Face} (hname : names[i]? = some name)
    (hitem : c.items[i]? = some item) (hface : name.faces[m]? = some face)
    (hnamed : Named n kind name item) : seen? kind names c cube i m =
      some ⟨((cube.arrangement kind).slot item.location).part,
        ((Turn.locationFaces kind item.location).idxOf face +
          ((cube.arrangement kind).slot item.location).twist) % kind.modulus⟩ := by
  have hlocation : c.locations[i]? = some item.location := by
    rw [locations, List.getElem?_map, hitem]
    rfl
  have hmem : face ∈ Turn.locationFaces kind item.location :=
    (hnamed.isAt.mem_iff face).mpr (List.mem_of_getElem? hface)
  rw [seen?, hname, Option.bind_eq_bind, Option.bind_some, hlocation, Option.bind_eq_bind,
    Option.bind_some, hface, Option.bind_eq_bind, Option.bind_some]
  exact if_pos hmem

/-- The sticker on a face of a name comes to the face in the same place of the next name. -/
theorem Spelled.seen?_next {i m : Nat} (h : Spelled n kind names c)
    (hkind : kind ≠ .side) (hnames : ∀ name ∈ names, name.Proper n kind) (hi : i < names.length)
    (hm : m < kind.modulus) : ∃ s, seen? kind names c cube i m = some s ∧
      seen? kind names c (cube.rearrange kind (arrangement kind (kind.count n) c.steps))
        ((i + 1) % names.length) m = some s := by
  have hnext : (i + 1) % names.length < names.length := Nat.mod_lt _ (Nat.zero_lt_of_lt hi)
  obtain ⟨item, hitem, hnamed⟩ := h.getElem hi
  obtain ⟨next, hnextItem, hnextNamed⟩ := h.getElem hnext
  have hplaces : ∀ {j} (hj : j < names.length), ∃ face, names[j].faces[m]? = some face := by
    intro j hj
    have hlength := (hnames _ (List.getElem_mem hj)).length_faces
    exact ⟨_, List.getElem?_eq_getElem (hlength ▸ hm)⟩
  obtain ⟨face, hface⟩ := hplaces hi
  obtain ⟨nextFace, hnextFace⟩ := hplaces hnext
  refine ⟨_, seen?_eq (List.getElem?_eq_getElem hi) hitem hface hnamed, ?_⟩
  rw [seen?_eq (List.getElem?_eq_getElem hnext) hnextItem hnextFace hnextNamed]
  have hsame : item.orientation / 3 = next.orientation / 3 := by
    cases kind with
    | side => contradiction
    | edge => rw [hnamed.standsFor.straight rfl, hnextNamed.standsFor.straight rfl]
    | corner => exact h.same rfl _ (List.mem_of_getElem? hnextItem) _ (List.mem_of_getElem? hitem)
  have hplace := hnamed.standsFor.place_eq m hm face hface
  have hnextPlace := hnextNamed.standsFor.place_eq m hm nextFace hnextFace
  have hmem : stepTo item next ∈ c.steps := by
    refine stepTo_mem_steps h.sign_eq hitem ?_
    rwa [← h.named.length_eq]
  have hslot : ((cube.rearrange kind (arrangement kind (kind.count n) c.steps)).arrangement
      kind).slot next.location = ⟨((cube.arrangement kind).slot item.location).part,
        (((cube.arrangement kind).slot item.location).twist +
          (((next.orientation : Int) - item.orientation) % kind.modulus).toNat) % kind.modulus⟩ :=
    slot_rearrange_of_mem h.within
      (h.kind_eq (List.ne_nil_of_mem (List.mem_of_getElem? hitem))) hmem
  rw [hslot, place_after (Arrangement.modulus_pos kind) (hnextPlace.trans (hsame ▸ hplace.symm))]

/-- A location that is none of a cycle keeps its part. -/
theorem slot_rearrange_of_notMem {x : Nat} (hcube : cube.Valid n) (hx : x < kind.count n)
    (hout : x ∉ c.locations) :
    ((cube.rearrange kind (arrangement kind (kind.count n) c.steps)).arrangement kind).slot x =
      (cube.arrangement kind).slot x := by
  have hnone : x ∉ c.steps.map Step.target := by
    rwa [map_target_steps, List.mem_rotate]
  rw [Cube.rearrange, Cube.arrangement_setArrangement, if_pos rfl,
    Arrangement.slot_andThen (by rwa [size_arrangement]), slot_arrangement_of_not_mem hnone,
    Nat.add_zero, Nat.mod_eq_of_lt ((hcube.2 kind).twist_lt hx)]

/-- **Cycles move stickers as they are named.** A cycle of corners or edges whose parts were named
face by face carries the sticker on each face of a name to the face in the same place of the next
name, the last to the first, and nothing else changes. -/
theorem apply_cycle_moves_stickers (span : Span) (hkind : kind ≠ .side)
    (hnames : ∀ name ∈ names, name.Proper n kind)
    (hadd : addNames kind names {} = .ok () c) (hcube : cube.Valid n) :
    ∃ cube', (Script.permutation span c).apply false cube = .ok () cube' ∧ cube'.Valid n ∧
      List.Forall₂ (Name.IsAt n kind) names c.locations ∧
      (∀ i < names.length, ∀ m < kind.modulus, ∃ s, seen? kind names c cube i m = some s ∧
        seen? kind names c cube' ((i + 1) % names.length) m = some s) ∧
      (∀ x < kind.count n, x ∉ c.locations →
        (cube'.arrangement kind).slot x = (cube.arrangement kind).slot x) ∧
      ∀ other ≠ kind, cube'.arrangement other = cube.arrangement other := by
  have h : Spelled n kind names c := spelled_empty.addNames hkind hnames hadd
  cases names with
  | nil =>
    obtain ⟨-, rfl⟩ := EStateM.Result.ok.inj hadd
    exact ⟨cube, rfl, hcube, .nil, by simp, fun _ _ _ => rfl, fun _ _ => rfl⟩
  | cons name rest =>
    have hne : c.items ≠ [] := by
      rw [← List.length_pos_iff, ← h.named.length_eq]
      exact Nat.zero_lt_succ _
    obtain ⟨cube', hact, hvalid, -⟩ := h.within.exists_act hcube false
    have hmoved := h.within.act?_eq (h.kind_eq hne) hne hcube false
    obtain rfl := Option.some.inj (hact.symm.trans hmoved)
    refine ⟨_, ?_, hvalid, h.isAt, fun i hi m hm => h.seen?_next hkind hnames hi hm,
      fun x hx hout => slot_rearrange_of_notMem hcube hx hout, fun other hother => ?_⟩
    · rw [Script.apply, Script.walk]
      exact Script.perform_cycle_of_some hact
    · rw [Cube.rearrange, Cube.arrangement_setArrangement, if_neg hother]

/-- Three corners, all named anticlockwise. -/
def anticlockwise : List Name :=
  [⟨[.u, .f, .r], 0, 3⟩, ⟨[.r, .f, .d], 0, 3⟩, ⟨[.b, .u, .r], 0, 3⟩]

/-- The sticker on the upper face of the first corner comes to the right face of the second one. -/
theorem apply_anticlockwise : (∀ name ∈ anticlockwise, name.Proper 3 .corner) ∧
    ∃ c, addNames .corner anticlockwise {} = .ok () c ∧ (Cube.solved 3).Valid 3 ∧
      ∃ cube', (Script.permutation ⟨0, 0⟩ c).apply false (Cube.solved 3) = .ok () cube' ∧
        seen? .corner anticlockwise c cube' 1 0 = some ⟨0, 0⟩ := by
  have hproper : ∀ name ∈ anticlockwise, name.Proper 3 .corner := by decide
  have hadd : addNames .corner anticlockwise {} =
      .ok () ⟨some .corner, 0, [⟨0, 3⟩, ⟨1, 4⟩, ⟨2, 5⟩]⟩ := by
    rfl
  obtain ⟨cube', happly, -, -, hseen, -⟩ := apply_cycle_moves_stickers ⟨0, 0⟩ (by decide)
    hproper hadd Cube.valid_solved
  obtain ⟨s, hbefore, hafter⟩ := hseen 0 (by decide) 0 (by decide)
  have hfirst : seen? .corner anticlockwise ⟨some .corner, 0, [⟨0, 3⟩, ⟨1, 4⟩, ⟨2, 5⟩]⟩
      (Cube.solved 3) 0 0 = some ⟨0, 0⟩ := by
    decide
  obtain rfl := Option.some.inj (hfirst.symm.trans hbefore)
  exact ⟨hproper, _, hadd, Cube.valid_solved, cube', happly, hafter⟩

end PartCycle

end CubeLang
