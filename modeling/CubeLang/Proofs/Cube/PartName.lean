import CubeLang.Proofs.Cube.CycleText

/-!
# The names of parts

A part is named by its faces, turned to the one that stands for its orientation, and by the number
of its round. Adding the part of that name to a cycle adds the location and the orientation that the
name was made of.
-/

set_option autoImplicit false

namespace CubeLang

open Arrangement

namespace PartCycle

variable {n : Nat} {kind : PartKind} {i : Item} {c : PartCycle}

/-- The faces that name a part, in the order in which they are written. -/
def faces : PartKind → Item → List Face
  | .corner, i => turnedTo ((3 - i.orientation) % 3) (cornerFaces.getD i.location [])
  | .edge, i => turnedTo i.orientation (edgeFaces.getD (i.location % 12) [])
  | .side, i => [.ofIndex i.location]

/-- The number of rounds before the one of a part; corners have none. -/
def round : PartKind → Item → Nat
  | .corner, _ => 0
  | .edge, i => i.location / 12
  | .side, i => i.location / 6

/-- The sign of a part of its own, which only side parts have. -/
def ownMark : PartKind → Item → Option Symbol
  | .side, i => mark .side i.orientation
  | .corner, _ | .edge, _ => none

/-- The first part of a cycle has no sign of its own. -/
theorem Plain.ownMark_head {p : PartCycle} (hp : p.Plain n kind) :
    ∀ i ∈ p.items.head?, ownMark kind i = none := by
  intro i hi
  cases kind with
  | corner => rfl
  | edge => rfl
  | side =>
    rw [ownMark, hp.orientation_head i hi]
    rfl

/-- The number of faces of a part. -/
def faceCount : PartKind → Nat
  | .side => 1
  | .edge => 2
  | .corner => 3

theorem length_turnedTo {α : Type} (k : Nat) (l : List α) : (turnedTo k l).length = l.length := by
  obtain ⟨j, hj⟩ := turnedTo_eq_rotate k l
  rw [hj, List.length_rotate]

theorem length_faces (hlt : i.location < kind.count n) :
    (faces kind i).length = faceCount kind := by
  cases kind with
  | corner =>
    have hfaces : ∀ x < 8, (cornerFaces.getD x []).length = 3 := by decide
    exact (length_turnedTo _ _).trans (hfaces _ hlt)
  | edge =>
    have hfaces : ∀ x < 12, (edgeFaces.getD x []).length = 2 := by decide
    exact (length_turnedTo _ _).trans (hfaces _ (Nat.mod_lt _ (by decide)))
  | side => rfl

theorem faces_ne_nil (hlt : i.location < kind.count n) : faces kind i ≠ [] := by
  intro hnil
  have hlength := length_faces hlt
  rw [hnil] at hlength
  cases kind <;> contradiction

theorem mapM_ofSymbol? (faces : List Face) :
    (faces.map Face.symbol).mapM Face.ofSymbol? = some faces := by
  have hface : ∀ face : Face, Face.ofSymbol? face.symbol = some face := by
    intro face
    cases face <;> rfl
  induction faces with
  | nil => rfl
  | cons face faces ih =>
    rw [List.map_cons, List.mapM_cons, hface, ih]
    rfl

/-! ## Reading names -/

theorem mem_signs_of_mark {twist : Nat} : ∀ s ∈ mark kind twist, s ∈ Symbol.signs := by
  intro s hs
  unfold mark at hs
  split at hs
  all_goals
    first
    | contradiction
    | obtain rfl := Option.some.inj hs
      decide

theorem mem_signs_of_ownMark {i : Item} :
    ∀ s ∈ ownMark kind i, s ∈ Symbol.signs := by
  cases kind with
  | corner => intro s hs; contradiction
  | edge => intro s hs; contradiction
  | side => exact mem_signs_of_mark

theorem signTwist_mark {twist : Nat} (h : twist < kind.modulus) :
    signTwist (mark kind twist) kind = .ok twist := by
  have hcorner : ∀ t < 3, signTwist (mark .corner t) .corner = .ok t := by decide
  have hedge : ∀ t < 2, signTwist (mark .edge t) .edge = .ok t := by decide
  have hside : ∀ t < 4, signTwist (mark .side t) .side = .ok t := by decide
  cases kind with
  | corner => exact hcorner _ h
  | edge => exact hedge _ h
  | side => exact hside _ h

theorem cornerItem_faces (hlocation : i.location < 8) (horientation : i.orientation < 3)
    (hcorners : ∀ j ∈ c.items, j.orientation < 3) :
    c.cornerItem (faces .corner i) = .ok i := by
  have hnames : ∀ x < 8, ∀ o < 3,
      let named := turnedTo ((3 - o) % 3) (cornerFaces.getD x [])
      let there := cornerFaces.getD x []
      let first := there.idxOf (named.getD 0 .r)
      locationOf? cornerFaces named = some x ∧ (3 - first) % 3 = o ∧
        there[(first + 1) % 3]? = named[1]? := by
    decide
  obtain ⟨hfound, hfirst, hnext⟩ := hnames i.location hlocation i.orientation horientation
  have hmixed : (c.items.any fun item => item.orientation / 3 ≠ i.orientation / 3) = false := by
    rw [List.any_eq_false]
    intro j hj
    have hj := hcorners j hj
    rw [Nat.div_eq_of_lt hj, Nat.div_eq_of_lt horientation]
    decide
  unfold cornerItem faces
  simp only [hfound, hfirst, hnext, ne_eq, not_true_eq_false, if_false, Nat.add_zero]
  simp only [ne_eq] at hmixed
  rw [hmixed]
  rfl

theorem edgeItem_faces (hlocation : i.location < 12 * (n - 2)) (horientation : i.orientation < 2) :
    edgeItem (faces .edge i) (round .edge i : Nat) n = .ok i := by
  have hnames : ∀ x < 12, ∀ o < 2,
      let named := turnedTo o (edgeFaces.getD x [])
      locationOf? edgeFaces named = some x ∧
        (if named.head? = (edgeFaces.getD x []).head? then 0 else 1) = o := by
    decide
  obtain ⟨hfound, hflip⟩ :=
    hnames (i.location % 12) (Nat.mod_lt _ (by decide)) i.orientation horientation
  have hround : i.location / 12 < n - 2 := Nat.div_lt_of_lt_mul hlocation
  have hplace : i.location % 12 + 12 * (i.location / 12) = i.location := Nat.mod_add_div ..
  unfold edgeItem faces round
  rw [if_neg]
  · simp only [hfound, hflip, Int.toNat_natCast, hplace]
  · simp only [Bool.or_eq_true, decide_eq_true_eq]
    omega

theorem sideItem_faces (hlocation : i.location < 6 * ((n - 2) * (n - 2)))
    (hzero : c.items = [] → i.orientation = 0) :
    c.sideItem (faces .side i) (round .side i : Nat) i.orientation n = .ok i := by
  have hindex : ∀ x < 6, (Face.ofIndex x).index = x := by decide
  have hface : (Face.ofIndex i.location).index = i.location % 6 := by
    have hmod : Face.ofIndex i.location = Face.ofIndex (i.location % 6) := by
      unfold Face.ofIndex
      rw [Nat.mod_mod]
    rw [hmod, hindex _ (Nat.mod_lt _ (by decide))]
  have hround : i.location / 6 < (n - 2) * (n - 2) := Nat.div_lt_of_lt_mul hlocation
  have hplace : i.location % 6 + 6 * (i.location / 6) = i.location := Nat.mod_add_div ..
  have hsquare : ((n : Int) - 2) * (n - 2) = ((n - 2) * (n - 2) : Nat) := by
    have hn : 2 ≤ n := by
      by_contra hn
      rw [Nat.sub_eq_zero_of_le (by omega)] at hround
      contradiction
    have hcast : ((n - 2 : Nat) : Int) = n - 2 := by omega
    rw [← hcast]
    exact (Int.natCast_mul _ _).symm
  have horientation : (if c.items.isEmpty then 0 else i.orientation) = i.orientation := by
    split
    · rename_i hempty
      exact (hzero (List.isEmpty_iff.mp hempty)).symm
    · rfl
  unfold sideItem faces round
  rw [if_neg]
  · simp only [hface, Int.toNat_natCast, hplace, horientation]
  · rw [hsquare]
    simp only [Bool.or_eq_true, decide_eq_true_eq]
    omega

/-- A part may be added to a cycle of parts of a kind: its place is free, and a first part is named as
it is. -/
structure Fits (n : Nat) (kind : PartKind) (c : PartCycle) (i : Item) : Prop where
  kind_eq : c.kind = none ∨ c.kind = some kind
  sign_eq : c.sign = 0
  orientations_lt : ∀ j ∈ c.items, j.orientation < kind.modulus
  location_lt : i.location < kind.count n
  orientation_lt : i.orientation < kind.modulus
  orientation_first : c.items = [] → i.orientation = 0
  location_free : i.location ∉ c.locations

/-- The parts of a cycle may be added one after the other. -/
theorem Plain.fits {p : PartCycle} (hp : p.Plain n kind) {items : List Item}
    (hkind : c.kind = none ∨ c.kind = some kind) (hsign : c.sign = 0)
    (hitems : c.items ++ i :: items = p.items) : Fits n kind c i := by
  have hmem : i ∈ p.items := by
    rw [← hitems]
    exact List.mem_append_right _ List.mem_cons_self
  refine ⟨hkind, hsign, ?_, hp.location_lt i hmem, hp.orientation_lt i hmem, ?_, ?_⟩
  · intro j hj
    apply hp.orientation_lt
    rw [← hitems]
    exact List.mem_append_left _ hj
  · intro hempty
    apply hp.orientation_head
    rw [← hitems, hempty]
    rfl
  · intro hold
    have hnodup := hp.nodup
    rw [locations, ← hitems, List.map_append, List.map_cons] at hnodup
    exact List.disjoint_of_nodup_append hnodup hold List.mem_cons_self

/-- The part of a name is the part that was named. -/
theorem Fits.item_faces {twist : Nat} (h : Fits n kind c i)
    (htwist : signTwist (ownMark kind i) kind = .ok twist) :
    c.item kind (ownMark kind i) twist ((faces kind i).map Face.symbol) (round kind i : Nat) n =
      .ok i := by
  unfold item
  rw [mapM_ofSymbol?]
  cases kind with
  | corner => exact cornerItem_faces h.location_lt h.orientation_lt h.orientations_lt
  | edge => exact edgeItem_faces h.location_lt h.orientation_lt
  | side =>
    obtain rfl : i.orientation = twist :=
      Except.ok.inj ((signTwist_mark h.orientation_lt).symm.trans htwist)
    exact sideItem_faces h.location_lt h.orientation_first

/-- Adding the part of a name adds the part that was named. -/
theorem Fits.addItem_faces (h : Fits n kind c i) :
    addItem kind (ownMark kind i) ((faces kind i).map Face.symbol) (round kind i : Nat) n c =
      .ok () { kind := some kind, items := c.items ++ [i] } := by
  let started : PartCycle := { kind := some kind, items := c.items }
  let twist := if kind = .side then i.orientation else 0
  have htwist : signTwist (ownMark kind i) kind = .ok twist := by
    cases kind with
    | corner => rfl
    | edge => rfl
    | side => exact signTwist_mark h.orientation_lt
  have hkind : (c.kind <|> some kind) = some kind := by
    rcases h.kind_eq with hkind | hkind
    all_goals
      rw [hkind]
      rfl
  have hstart : (if c.items = [] then { c with kind := some kind, sign := twist }
      else { c with kind := some kind }) = started := by
    split
    · rename_i hempty
      have hfirst : twist = 0 := by
        show (if kind = .side then i.orientation else 0) = 0
        rw [h.orientation_first hempty, ite_self]
      rw [hfirst]
    · rw [h.sign_eq]
  have hfits : Fits n kind { c with kind := some kind } i := { h with kind_eq := Or.inr rfl }
  have hfresh : (c.items.any fun there => there.location = i.location) = false := by
    rw [List.any_eq_false]
    intro there hthere heq
    exact h.location_free (List.mem_map.mpr ⟨there, hthere, by simpa using heq⟩)
  rw [addItem_eq]
  simp only [hkind, ne_eq, not_true_eq_false, if_false, htwist]
  rw [if_neg]
  · rw [hstart, hfits.item_faces htwist, addNew, hfresh]
    rfl
  · rintro ⟨-, hside, hne⟩
    exact hne (if_neg hside)

end PartCycle

end CubeLang
