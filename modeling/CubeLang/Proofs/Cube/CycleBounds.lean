import CubeLang.Proofs.Cube.PartCycle

/-!
# Cycles within a cube

A cycle is within a cube that has all its parts. Parts are added by kind, faces and number, and the
bounds on the number keep the location among those of the kind, so that adding parts does not lead
out of the cube. A cycle within a cube is carried out on every state and leaves a state, whose parts
the cube takes.
-/

set_option autoImplicit false

namespace CubeLang

variable {n : Nat} {kind : PartKind}

/-! ## Arrangements from lists -/

/-- The lists of the parts and twists of an arrangement make the arrangement. -/
theorem Arrangement.Valid.ofLists_eq {a : Arrangement} {count : Nat} (h : a.Valid kind count) :
    Arrangement.ofLists kind.modulus a.parts (a.twists.map Int.ofNat) = a := by
  have hslot : ∀ s ∈ a.toList, Slot.mk s.part ((s.twist : Int) % kind.modulus).toNat = s := by
    intro s hs
    have htwist : s.twist < kind.modulus := h.2.2 _ (List.mem_map_of_mem hs)
    rw [← Int.natCast_emod, Int.toNat_natCast, Nat.mod_eq_of_lt htwist]
  unfold ofLists Arrangement.parts Arrangement.twists
  rw [List.map_map, List.zip_map', List.map_map]
  refine Array.ext' ?_
  exact (List.map_congr_left hslot).trans (List.map_id _)

/-- The parts of an arrangement made from two lists are those of the one list. -/
theorem Arrangement.parts_ofLists (modulus : Nat) {parts : List Nat} {twists : List Int}
    (h : parts.length = twists.length) : (ofLists modulus parts twists).parts = parts := by
  unfold ofLists Arrangement.parts
  rw [List.map_map]
  exact List.map_fst_zip h.le

/-- Its twists are those of the other list, reduced. -/
theorem Arrangement.twists_ofLists (modulus : Nat) {parts : List Nat} {twists : List Int}
    (h : parts.length = twists.length) :
    (ofLists modulus parts twists).twists = twists.map fun t : Int => (t % modulus).toNat := by
  have hsnd : twists = (parts.zip twists).map Prod.snd := (List.map_snd_zip h.ge).symm
  unfold ofLists Arrangement.twists
  conv_rhs => rw [hsnd]
  rw [List.map_map, List.map_map]
  rfl

/-- A list with all parts and a list with as many twists make a valid arrangement. -/
theorem Arrangement.valid_ofLists {count : Nat} {parts : List Nat} {twists : List Int}
    (hparts : parts.length = count) (htwists : twists.length = count)
    (hall : ∀ i < count, i ∈ parts) : (ofLists kind.modulus parts twists).Valid kind count := by
  have hlength : parts.length = twists.length := hparts.trans htwists.symm
  refine ⟨by simp [ofLists, hparts, htwists], ?_, ?_⟩
  · intro i hi
    rw [parts_ofLists _ hlength]
    exact hall i hi
  · intro t ht
    rw [twists_ofLists _ hlength] at ht
    obtain ⟨given, -, rfl⟩ := List.mem_map.mp ht
    have hpos := Arrangement.modulus_pos kind
    have hlt := Int.emod_lt_of_pos given (by omega : (0 : Int) < kind.modulus)
    omega

/-- Whatever parts a cube takes, its state stays valid. -/
theorem Cube.valid_of_setParts {c c' : Cube} {parts twists : List Int} (hc : c.Valid n)
    (h : c.setParts kind parts twists = .ok c') : c'.Valid n := by
  simp only [Cube.setParts, Cube.count, hc.1] at h
  split at h
  · contradiction
  · rename_i hlengths
    simp only [Bool.or_eq_true, decide_eq_true_eq, not_or, not_not] at hlengths
    split at h
    · rename_i hall
      obtain rfl := Except.ok.inj h
      refine Cube.valid_setArrangement hc (Arrangement.valid_ofLists ?_ hlengths.2 ?_)
      · rw [List.length_map, hlengths.1]
      · intro i hi
        have hmem : (i : Int) ∈ parts := by
          simpa using List.all_eq_true.mp hall i (List.mem_range.mpr hi)
        exact List.mem_map.mpr ⟨i, hmem, Int.toNat_natCast i⟩
    · contradiction

/-- A cube takes the parts of an arrangement that has all of them. -/
theorem Cube.setParts_of_valid {c : Cube} {a : Arrangement} (hc : c.Valid n)
    (ha : a.Valid kind (kind.count n)) :
    c.setParts kind (a.parts.map Int.ofNat) (a.twists.map Int.ofNat) =
      .ok (c.setArrangement kind a) := by
  have hparts : (a.parts.map Int.ofNat).map Int.toNat = a.parts := by
    rw [List.map_map]
    exact List.map_id _
  have hall : ((List.range (kind.count n)).all fun i =>
      (a.parts.map Int.ofNat).contains (i : Int)) = true := by
    refine List.all_eq_true.mpr fun i hi => ?_
    rw [List.contains_iff_mem]
    exact List.mem_map_of_mem (ha.2.1 i (List.mem_range.mp hi))
  have hlength : a.toList.length = kind.count n := ha.size_eq
  unfold Cube.setParts
  simp only [Cube.count, hc.1, hall, if_true, hparts, ha.ofLists_eq]
  rw [if_neg (by simp [Arrangement.parts, Arrangement.twists, hlength])]

namespace PartCycle

variable {c c' : PartCycle}

/-- Whether a cube with `n` layers has all parts of a cycle, each of which is named once. -/
structure Within (n : Nat) (c : PartCycle) : Prop where
  nodup : c.locations.Nodup
  lt_count : ∀ x ∈ c.locations, ∃ kind, c.kind = some kind ∧ x < kind.count n

theorem within_empty : Within n {} := ⟨List.nodup_nil, by simp [locations]⟩

/-- The sign of a cycle leads out of no cube. -/
theorem Within.withSign (h : c.Within n) (twist : Nat) : Within n { c with sign := twist } :=
  ⟨h.nodup, h.lt_count⟩

/-! ## Adding parts -/

section

variable {sign : Option Symbol} {faces : List Symbol} {number : Int} {twist : Nat} {item : Item}

/-- The end of adding a part that is accepted. -/
theorem exists_item_of_addNew {items : List Item} {r : Except Fault Item}
    (h : addNew items c r = .ok () c') :
    ∃ item, r = .ok item ∧ c' = { c with items := c.items ++ [item] } := by
  cases r with
  | error fault => contradiction
  | ok item =>
    simp only [addNew] at h
    split at h
    · contradiction
    · exact ⟨item, rfl, (EStateM.Result.ok.inj h).2.symm⟩

/-- Whether a part can be added depends on the parts of the cycle only. -/
theorem item_congr {c₁ : PartCycle} {layerCount : Int} (h : c₁.items = c.items) :
    c₁.item kind sign twist faces number layerCount =
      c.item kind sign twist faces number layerCount := by
  unfold PartCycle.item sideItem cornerItem
  rw [h]

/-- What an accepted part does to a cycle. -/
theorem eq_of_addItem {layerCount : Int}
    (h : addItem kind sign faces number layerCount c = .ok () c') :
    (c.kind = none ∨ c.kind = some kind) ∧ ∃ twist item, signTwist sign kind = .ok twist ∧
      c.item kind sign twist faces number layerCount = .ok item ∧
      c' = ⟨some kind, if c.items = [] then twist else c.sign, c.items ++ [item]⟩ := by
  rw [addItem_eq] at h
  dsimp only at h
  split at h
  · contradiction
  · rename_i hkind
    rw [not_not] at hkind
    split at h
    · contradiction
    · rename_i twist htwist
      split at h
      · contradiction
      · obtain ⟨item, hitem, rfl⟩ := exists_item_of_addNew h
        refine ⟨?_, twist, item, htwist, (item_congr rfl).symm.trans hitem, ?_⟩
        · cases hc : c.kind with
          | none => exact Or.inl rfl
          | some kind' =>
            rw [hc] at hkind
            exact Or.inr hkind
        · rw [hkind]
          split <;> rfl

theorem lt_of_locationOf? {table : List (List Face)} {faces : List Face} {i : Nat}
    (h : locationOf? table faces = some i) : i < table.length :=
  (List.findIdx?_eq_some_iff_getElem.mp h).1

/-! ### Parts of a kind -/

theorem sideItem_eq_ok {faces : List Face} {layerCount : Int}
    (h : c.sideItem faces number twist layerCount = .ok item) :
    0 ≤ number ∧ number < max ((layerCount - 2) * (layerCount - 2)) 1 ∧
      ∃ face rest, faces = face :: rest ∧
        item = ⟨face.index + 6 * number.toNat, if c.items.isEmpty then 0 else twist⟩ := by
  unfold sideItem at h
  split at h
  · contradiction
  · rename_i hnumber
    simp only [Bool.or_eq_true, decide_eq_true_eq, not_or, Int.not_lt, Int.not_le] at hnumber
    split at h
    · contradiction
    · exact ⟨hnumber.1, hnumber.2, _, _, rfl, (Except.ok.inj h).symm⟩

theorem edgeItem_eq_ok {faces : List Face} {layerCount : Int}
    (h : edgeItem faces number layerCount = .ok item) :
    0 ≤ number ∧ number < max (layerCount - 2) 1 ∧ ∃ i, locationOf? edgeFaces faces = some i ∧
      item = ⟨i + 12 * number.toNat,
        if faces.head? = (edgeFaces.getD i []).head? then 0 else 1⟩ := by
  unfold edgeItem at h
  split at h
  · contradiction
  · rename_i hnumber
    simp only [Bool.or_eq_true, decide_eq_true_eq, not_or, Int.not_lt, Int.not_le] at hnumber
    split at h
    · contradiction
    · exact ⟨hnumber.1, hnumber.2, _, ‹_›, (Except.ok.inj h).symm⟩

/-- A corner has six orientations, and all corners of a cycle are named the same way round. -/
theorem cornerItem_eq_ok {faces : List Face} (h : c.cornerItem faces = .ok item) :
    locationOf? cornerFaces faces = some item.location ∧ item.orientation < 6 ∧
      ∀ there ∈ c.items, there.orientation / 3 = item.orientation / 3 := by
  unfold cornerItem at h
  split at h
  · contradiction
  · rename_i i hi
    rcases ite_eq_iff.mp h with ⟨-, h⟩ | ⟨hsame, h⟩
    · contradiction
    · obtain rfl := Except.ok.inj h
      rw [Bool.not_eq_true, List.any_eq_false] at hsame
      refine ⟨hi, ?_, fun there hthere => ?_⟩
      · dsimp only
        split <;> omega
      · have hthere := hsame there hthere
        rwa [decide_eq_true_iff, not_not] at hthere

/-- How a corner is named does not depend on the cycle. -/
theorem cornerItem_empty {faces : List Face} (h : c.cornerItem faces = .ok item) :
    cornerItem {} faces = .ok item := by
  unfold cornerItem at h ⊢
  split at h
  · contradiction
  · rename_i i hi
    rcases ite_eq_iff.mp h with ⟨-, h⟩ | ⟨-, h⟩
    · contradiction
    · exact h

/-- How an accepted part was made, by its kind. -/
theorem item_eq_ok {layerCount : Int}
    (h : c.item kind sign twist faces number layerCount = .ok item) :
    ∃ there, faces.mapM Face.ofSymbol? = some there ∧ match kind with
      | .side => c.sideItem there number twist layerCount = .ok item
      | .edge => (sign = none ∨ sign = some .permutationPlus) ∧
          edgeItem there number layerCount = .ok item
      | .corner => sign ≠ some .permutationPlusPlus ∧ c.cornerItem there = .ok item := by
  unfold PartCycle.item at h
  split at h
  · contradiction
  · rename_i there hthere
    refine ⟨there, hthere, ?_⟩
    cases kind with
    | side => exact h
    | edge =>
      dsimp only at h ⊢
      split at h
      · rename_i hsign
        exact ⟨by simpa using hsign, h⟩
      · contradiction
    | corner =>
      dsimp only at h ⊢
      split at h
      · contradiction
      · exact ⟨‹_›, h⟩

/-! ### Locations -/

theorem location_lt_of_sideItem {faces : List Face} (hn : 3 ≤ n)
    (h : c.sideItem faces number twist n = .ok item) : item.location < PartKind.side.count n := by
  have hcount : PartKind.side.count n = 6 * ((n - 2) * (n - 2)) := rfl
  obtain ⟨k, hk⟩ : ∃ k, n - 2 = k + 1 := ⟨n - 3, by omega⟩
  have hlayers : (n : Int) - 2 = ((n - 2 : Nat) : Int) := by omega
  obtain ⟨hlow, hhigh, face, rest, rfl, rfl⟩ := sideItem_eq_ok h
  have hface : face.index < 6 := by cases face <;> decide
  have hpos : 0 < (k + 1) * (k + 1) := Nat.mul_pos k.succ_pos k.succ_pos
  rw [hlayers, hk, ← Int.natCast_mul] at hhigh
  rw [hcount, hk]
  dsimp only
  omega

theorem location_lt_of_edgeItem {faces : List Face} (hn : 3 ≤ n)
    (h : edgeItem faces number n = .ok item) : item.location < PartKind.edge.count n := by
  have hcount : PartKind.edge.count n = 12 * (n - 2) := rfl
  obtain ⟨hlow, hhigh, i, hi, rfl⟩ := edgeItem_eq_ok h
  have hlt : i < 12 := lt_of_locationOf? hi
  dsimp only
  omega

theorem location_lt_of_cornerItem {faces : List Face} (h : c.cornerItem faces = .ok item) :
    item.location < 8 :=
  lt_of_locationOf? (cornerItem_eq_ok h).1

/-- The location of an accepted part is one of its kind, if the cube has parts of that kind. -/
theorem location_lt_of_item (hn : 3 ≤ n ∨ kind = .corner)
    (h : c.item kind sign twist faces number n = .ok item) : item.location < kind.count n := by
  obtain ⟨there, -, hitem⟩ := item_eq_ok h
  cases kind with
  | side => exact location_lt_of_sideItem (hn.resolve_right (by decide)) hitem
  | edge => exact location_lt_of_edgeItem (hn.resolve_right (by decide)) hitem.2
  | corner => exact location_lt_of_cornerItem hitem.2

/-- A part that is accepted leads out of no cube that has parts of its kind. -/
theorem Within.addItem (h : c.Within n) (hn : 3 ≤ n ∨ kind = .corner)
    (hadd : PartCycle.addItem kind sign faces number n c = .ok () c') : c'.Within n := by
  have hnodup : c'.locations.Nodup := nodup_after_addItem hadd h.nodup
  obtain ⟨hbefore, twist, item, -, hitem, rfl⟩ := eq_of_addItem hadd
  refine ⟨hnodup, fun x hx => ⟨kind, rfl, ?_⟩⟩
  rw [locations, List.map_append] at hx
  rcases List.mem_append.mp hx with hx | hx
  · obtain ⟨kind', hkind', hlt⟩ := h.lt_count x hx
    rcases hbefore with hnone | hsome
    · rw [hnone] at hkind'
      contradiction
    · obtain rfl := Option.some.inj (hsome.symm.trans hkind')
      exact hlt
  · obtain rfl := List.mem_singleton.mp hx
    exact location_lt_of_item hn hitem

end

/-! ## Carrying out -/

/-- A cycle within a cube rearranges the parts of its kind by its steps. -/
theorem Within.act?_eq (h : c.Within n) (hkind : c.kind = some kind) (hne : c.items ≠ [])
    {cube : Cube} (hcube : cube.Valid n) (inverse : Bool) : c.act? inverse cube =
      some (cube.rearrange kind (arrangement kind (kind.count n) (c.directed inverse))) := by
  have hall : (c.items.all fun item => item.location < kind.count n) = true := by
    refine List.all_eq_true.mpr fun item hitem => ?_
    obtain ⟨kind', hkind', hlt⟩ := h.lt_count _ (List.mem_map_of_mem hitem)
    obtain rfl := Option.some.inj (hkind.symm.trans hkind')
    simpa using hlt
  have hempty : ¬c.items.isEmpty = true := by simpa using hne
  simp only [act?, hkind, hempty, Cube.count, hcube.1, hall, if_true]
  rfl

/-- A cycle within a cube makes a state of a state, in which only parts of its kind have moved. -/
theorem Within.exists_act (h : c.Within n) {cube : Cube} (hcube : cube.Valid n) (inverse : Bool) :
    ∃ cube', c.act? inverse cube = some cube' ∧ cube'.Valid n ∧
      ∀ kind, c.kind = some kind → cube.setArrangement kind (cube'.arrangement kind) = cube' := by
  have hself : ∀ kind, cube.setArrangement kind (cube.arrangement kind) = cube := by
    intro kind
    cases kind <;> rfl
  cases hkind : c.kind with
  | none => exact ⟨cube, by simp only [act?, hkind], hcube, by simp⟩
  | some kind =>
    by_cases hempty : c.items = []
    · refine ⟨cube, ?_, hcube, fun kind _ => hself kind⟩
      simp only [act?, hkind, hempty, List.isEmpty_nil, if_true]
    · have hlt : ∀ x ∈ c.locations, x < kind.count n := by
        intro x hx
        obtain ⟨kind', hkind', hlt⟩ := h.lt_count x hx
        obtain rfl := Option.some.inj (hkind.symm.trans hkind')
        exact hlt
      have hvalid : (arrangement kind (kind.count n) (c.directed inverse)).Valid kind
          (kind.count n) := valid_arrangement_directed h.nodup hlt inverse
      refine ⟨_, h.act?_eq hkind hempty hcube inverse,
        Cube.valid_setArrangement hcube ((hcube.2 kind).andThen hvalid), ?_⟩
      intro kind' hkind'
      obtain rfl := Option.some.inj hkind'
      unfold Cube.rearrange
      cases kind <;> rfl

end PartCycle

end CubeLang
