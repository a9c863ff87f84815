import CubeLang.Cube.Turn
import CubeLang.Proofs.Cube.CycleBounds

/-!
# Building a cycle

A cycle is built by calls that add a part each, with any arguments, of which some are refused. A
call may be refused after it has set the kind of the cycle, and before the first part also its sign.
All the same the cycle is well formed after every call: a refused call changes no parts, and with a
part in it the cycle has a kind and a sign that go with its parts. Its parts are those of the
accepted calls, in their order.
-/

set_option autoImplicit false

namespace CubeLang.PartCycle

variable {kind : PartKind} {sign : Option Symbol} {faces : List Symbol} {number layerCount : Int}
variable {c c' : PartCycle} {item : Item} {twist : Nat} {fault : Fault}

/-! ## Calls -/

/-- A call that adds a part to a cycle. -/
structure Addition where
  kind : PartKind
  sign : Option Symbol
  faces : List Symbol
  number : Int
  layerCount : Int

namespace Addition

/-- Makes a call. -/
def make (a : Addition) : EStateM Fault PartCycle Unit :=
  addItem a.kind a.sign a.faces a.number a.layerCount

/-- The cycle that some calls make of a cycle, accepted or refused. -/
def build (c : PartCycle) (additions : List Addition) : PartCycle :=
  additions.foldl (fun c a => stateAfter (a.make c)) c

/-- The calls that a cycle accepts, of some that are made one after another. -/
def accepted (c : PartCycle) : List Addition → List Addition
  | [] => []
  | a :: additions =>
    match a.make c with
    | .ok _ c' => a :: accepted c' additions
    | .error _ c' => accepted c' additions

/-- The faces that tell which part a call adds: for a side part the first one only. -/
def naming (a : Addition) : List Symbol :=
  if a.kind = .side then a.faces.take 1 else a.faces

/-- A location is that of the part that a call adds: it has the faces that name the part, and is in
the round of its number. Corners have no number. -/
structure IsAt (a : Addition) (location : Nat) : Prop where
  mem_iff : ∀ face, face ∈ Turn.locationFaces a.kind location ↔ face.symbol ∈ a.naming
  edgeRound : a.kind = .edge → (location / 12 : Nat) = a.number
  sideRound : a.kind = .side → (location / 6 : Nat) = a.number

end Addition

/-! ## Well-formed cycles -/

/-- An item is one of a part of some kind. -/
def Item.IsOf (item : Item) : PartKind → Prop
  | .corner => item.location < 8 ∧ item.orientation < 6
  | .edge => item.orientation < 2
  | .side => item.orientation < 4

/-- A cycle names no location twice, all its items are of its kind, all corners are named the same
way round, the first side part is not twisted, and the sign is a twist of its kind. -/
structure WellFormed (c : PartCycle) : Prop where
  nodup : c.locations.Nodup
  isOf : ∀ item ∈ c.items, ∃ kind, c.kind = some kind ∧ item.IsOf kind
  sameWay : c.kind = some .corner →
    ∀ item ∈ c.items, ∀ other ∈ c.items, item.orientation / 3 = other.orientation / 3
  first : c.kind = some .side → ∀ item ∈ c.items.head?, item.orientation = 0
  sign : c.items ≠ [] → ∃ kind, c.kind = some kind ∧ c.sign < kind.modulus

theorem wellFormed_empty : WellFormed {} :=
  ⟨List.nodup_nil, by simp, by simp, by simp, fun h => absurd rfl h⟩

/-- A cycle with a part has a kind. -/
theorem WellFormed.exists_kind (h : c.WellFormed) (hne : c.items ≠ []) :
    ∃ kind, c.kind = some kind :=
  (h.sign hne).imp fun _ hkind => hkind.1

/-! ## Refused parts -/

/-- A refused part leaves the parts as they are. It may have set the kind of a cycle that had none,
and the sign of one without parts. -/
theorem eq_of_addItem_error (h : addItem kind sign faces number layerCount c = .error fault c') :
    ∃ sign', c' = ⟨c.kind <|> some kind, sign', c.items⟩ ∧ (c.items ≠ [] → sign' = c.sign) := by
  have hnew : ∀ (c₁ : PartCycle) (r : Except Fault Item),
      addNew c.items c₁ r = .error fault c' → c₁ = c' := by
    intro c₁ r hadd
    unfold addNew at hadd
    split at hadd
    · exact (EStateM.Result.error.inj hadd).2
    · split at hadd
      · exact (EStateM.Result.error.inj hadd).2
      · contradiction
  rw [addItem_eq] at h
  dsimp only at h
  split at h
  · exact ⟨c.sign, (EStateM.Result.error.inj h).2.symm, fun _ => rfl⟩
  · split at h
    · exact ⟨c.sign, (EStateM.Result.error.inj h).2.symm, fun _ => rfl⟩
    · rename_i twist htwist
      split at h
      · exact ⟨c.sign, (EStateM.Result.error.inj h).2.symm, fun _ => rfl⟩
      · by_cases hempty : c.items = []
        · rw [if_pos hempty] at h
          exact ⟨twist, (hnew _ _ h).symm, fun hne => absurd hempty hne⟩
        · rw [if_neg hempty] at h
          exact ⟨c.sign, (hnew _ _ h).symm, fun _ => rfl⟩

/-- A part that is refused by a cycle with a part changes nothing. -/
theorem WellFormed.eq_of_refused (h : c.WellFormed) (hne : c.items ≠ [])
    (hadd : addItem kind sign faces number layerCount c = .error fault c') : c' = c := by
  obtain ⟨sign', rfl, hsign⟩ := eq_of_addItem_error hadd
  obtain ⟨kind', hkind⟩ := h.exists_kind hne
  obtain rfl := hsign hne
  obtain ⟨_, sign, items⟩ := c
  obtain rfl : _ = some kind' := hkind
  rfl

theorem WellFormed.refused (h : c.WellFormed)
    (hadd : addItem kind sign faces number layerCount c = .error fault c') : c'.WellFormed := by
  by_cases hempty : c.items = []
  · obtain ⟨sign', rfl, -⟩ := eq_of_addItem_error hadd
    refine ⟨?_, ?_, ?_, ?_, fun hne => absurd hempty hne⟩
    all_goals simp [locations, hempty]
  · rwa [h.eq_of_refused hempty hadd]

/-! ## Accepted parts -/

theorem signTwist_lt (h : signTwist sign kind = .ok twist) : twist < 4 := by
  unfold signTwist at h
  split at h
  all_goals
    cases h
    try cases kind
    all_goals decide

/-- An accepted part is one of its kind, and its sign is a twist of this kind: edges take no other
sign than the one for a flip, and corners none for a half turn. -/
theorem isOf_of_item (htwist : signTwist sign kind = .ok twist)
    (h : c.item kind sign twist faces number layerCount = .ok item) :
    item.IsOf kind ∧ twist < kind.modulus := by
  obtain ⟨there, -, hitem⟩ := item_eq_ok h
  cases kind with
  | side =>
    have hlt := signTwist_lt htwist
    obtain ⟨-, -, _, _, -, rfl⟩ := sideItem_eq_ok hitem
    refine ⟨?_, hlt⟩
    show (if c.items.isEmpty then 0 else twist) < 4
    split
    · decide
    · exact hlt
  | edge =>
    obtain ⟨hsign, hitem⟩ := hitem
    obtain ⟨-, -, _, -, rfl⟩ := edgeItem_eq_ok hitem
    refine ⟨?_, ?_⟩
    · show (if _ then 0 else 1) < 2
      split <;> decide
    · rcases hsign with rfl | rfl
      all_goals
        cases htwist
        decide
  | corner =>
    obtain ⟨hsign, hitem⟩ := hitem
    refine ⟨⟨location_lt_of_cornerItem hitem, (cornerItem_eq_ok hitem).2.1⟩, ?_⟩
    unfold signTwist at htwist
    split at htwist
    all_goals
      cases htwist
      try decide

/-- What an accepted part keeps of a well-formed cycle. -/
theorem WellFormed.accepted (h : c.WellFormed)
    (hadd : addItem kind sign faces number layerCount c = .ok () c') : c'.WellFormed := by
  have hnodup : c'.locations.Nodup := nodup_after_addItem hadd h.nodup
  obtain ⟨hbefore, twist, item, htwist, hitem, rfl⟩ := eq_of_addItem hadd
  obtain ⟨hof, hlt⟩ := isOf_of_item htwist hitem
  have hkind : c.items ≠ [] → c.kind = some kind := by
    intro hne
    obtain ⟨kind', hkind'⟩ := h.exists_kind hne
    exact hbefore.resolve_left (by simp [hkind'])
  refine ⟨hnodup, ?_, ?_, ?_, fun _ => ⟨kind, rfl, ?_⟩⟩
  · intro there hthere
    refine ⟨kind, rfl, ?_⟩
    rcases List.mem_append.mp hthere with hthere | hthere
    · obtain ⟨kind', hkind', hthere'⟩ := h.isOf there hthere
      obtain rfl := Option.some.inj ((hkind (List.ne_nil_of_mem hthere)).symm.trans hkind')
      exact hthere'
    · obtain rfl := List.mem_singleton.mp hthere
      exact hof
  · intro hcorner
    obtain rfl := Option.some.inj hcorner
    obtain ⟨there, -, -, hcornerItem⟩ := item_eq_ok hitem
    have hsame := (cornerItem_eq_ok hcornerItem).2.2
    simp only [List.mem_append, List.mem_singleton]
    rintro a (ha | rfl) b (hb | rfl)
    · exact h.sameWay (hkind (List.ne_nil_of_mem ha)) a ha b hb
    · exact hsame a ha
    · exact (hsame b hb).symm
    · rfl
  · intro hside
    obtain rfl := Option.some.inj hside
    by_cases hempty : c.items = []
    · obtain ⟨there, -, hsideItem⟩ := item_eq_ok hitem
      obtain ⟨-, -, _, _, -, rfl⟩ := sideItem_eq_ok hsideItem
      simp [hempty]
    · dsimp only
      rw [List.head?_append_of_ne_nil _ hempty]
      exact h.first (hkind hempty)
  · dsimp only
    split
    · exact hlt
    · rename_i hempty
      obtain ⟨kind', hkind', hsign⟩ := h.sign hempty
      obtain rfl := Option.some.inj ((hkind hempty).symm.trans hkind')
      exact hsign

/-! ### Where accepted parts are -/

/-- The faces of a location that is found are those that are looked for. -/
theorem mem_iff_of_locationOf? {table : List (List Face)} {faces : List Face} {i : Nat}
    (h : locationOf? table faces = some i) (face : Face) :
    face ∈ table.getD i [] ↔ face ∈ faces := by
  obtain ⟨hlt, hfound, -⟩ := List.findIdx?_eq_some_iff_getElem.mp h
  simp only [Bool.and_eq_true, List.all_eq_true, List.contains_iff_mem] at hfound
  have hthere : table.getD i [] = table[i] := by simp [hlt]
  rw [hthere]
  exact ⟨hfound.1 face, hfound.2 face⟩

/-- Symbols that are all faces are those of the faces. -/
theorem eq_map_symbol {faces : List Symbol} {there : List Face}
    (h : faces.mapM Face.ofSymbol? = some there) : faces = there.map Face.symbol := by
  have hface : ∀ s face, Face.ofSymbol? s = some face → s = face.symbol := by
    intro s face hs
    cases s
    all_goals
      cases hs
      try rfl
  induction faces generalizing there with
  | nil =>
    cases h
    rfl
  | cons s faces ih =>
    simp only [List.mapM_cons, Option.bind_eq_bind, Option.bind_eq_some_iff] at h
    obtain ⟨face, hs, rest, hrest, hall⟩ := h
    cases hall
    rw [List.map_cons, ← hface s face hs, ← ih hrest]

theorem symbol_mem_map_iff {face : Face} {faces : List Face} :
    face.symbol ∈ faces.map Face.symbol ↔ face ∈ faces := by
  have hinjective : Function.Injective Face.symbol := by
    intro x y h
    cases x <;> cases y <;> first | rfl | contradiction
  exact List.mem_map_of_injective hinjective

/-- The location of an accepted part is that of the part that is named. -/
theorem isAt_of_item {a : Addition}
    (h : c.item a.kind a.sign twist a.faces a.number a.layerCount = .ok item) :
    a.IsAt item.location := by
  obtain ⟨kind, sign, faces, number, layerCount⟩ := a
  dsimp only at h
  obtain ⟨there, hthere, hitem⟩ := item_eq_ok h
  obtain rfl := eq_map_symbol hthere
  cases kind with
  | side =>
    obtain ⟨hlow, -, face, rest, rfl, rfl⟩ := sideItem_eq_ok hitem
    have hlt : face.index < 6 := by cases face <;> decide
    refine ⟨fun face' => ?_, nofun, fun _ => ?_⟩
    · have hface : Face.ofIndex (face.index + 6 * number.toNat) = face := by
        unfold Face.ofIndex
        rw [Nat.add_mul_mod_self_left]
        cases face <;> rfl
      show face' ∈ [_] ↔ _ ∈ [face].map Face.symbol
      rw [hface, symbol_mem_map_iff]
    · show ((face.index + 6 * number.toNat) / 6 : Nat) = number
      omega
  | edge =>
    obtain ⟨hlow, -, i, hi, rfl⟩ := edgeItem_eq_ok hitem.2
    have hlt : i < 12 := lt_of_locationOf? hi
    refine ⟨fun face => ?_, fun _ => ?_, nofun⟩
    · show face ∈ edgeFaces.getD ((i + 12 * number.toNat) % 12) [] ↔ _ ∈ there.map Face.symbol
      rw [Nat.add_mul_mod_self_left, Nat.mod_eq_of_lt hlt, symbol_mem_map_iff]
      exact mem_iff_of_locationOf? hi face
    · show ((i + 12 * number.toNat) / 12 : Nat) = number
      omega
  | corner =>
    refine ⟨fun face => ?_, nofun, nofun⟩
    show face ∈ cornerFaces.getD item.location [] ↔ _ ∈ there.map Face.symbol
    rw [symbol_mem_map_iff]
    exact mem_iff_of_locationOf? (cornerItem_eq_ok hitem.2).1 face

/-! ## All calls -/

/-- The items of a cycle are the parts of some calls, one for one, and these name its kind. -/
def MadeBy (additions : List Addition) (c : PartCycle) : Prop :=
  List.Forall₂ (fun a item => c.kind = some a.kind ∧ a.IsAt item.location) additions c.items

/-- A call that is made with a well-formed cycle leaves one, and adds a part if it is accepted. -/
theorem WellFormed.make {before : List Addition} (h : c.WellFormed) (hmade : c.MadeBy before)
    (a : Addition) : (stateAfter (a.make c)).WellFormed ∧
      (stateAfter (a.make c)).MadeBy (before ++ Addition.accepted c [a]) := by
  cases hadd : a.make c with
  | ok u c' =>
    have haccepted : Addition.accepted c [a] = [a] := by simp [Addition.accepted, hadd]
    refine ⟨h.accepted hadd, ?_⟩
    obtain ⟨hbefore, twist, item, -, hitem, rfl⟩ := eq_of_addItem hadd
    rw [haccepted]
    refine List.rel_append (hmade.imp fun b there hthere => ⟨?_, hthere.2⟩)
      (.cons ⟨rfl, isAt_of_item hitem⟩ .nil)
    rw [← hthere.1]
    exact (hbefore.resolve_left (by simp [hthere.1])).symm
  | error fault c' =>
    have haccepted : Addition.accepted c [a] = [] := by simp [Addition.accepted, hadd]
    refine ⟨h.refused hadd, ?_⟩
    obtain ⟨sign', rfl, -⟩ := eq_of_addItem_error hadd
    rw [haccepted, List.append_nil]
    refine hmade.imp fun b there hthere => ⟨?_, hthere.2⟩
    show (c.kind <|> some a.kind) = some b.kind
    rw [hthere.1]
    rfl

theorem WellFormed.build {before : List Addition} (h : c.WellFormed) (hmade : c.MadeBy before)
    (additions : List Addition) : (Addition.build c additions).WellFormed ∧
      (Addition.build c additions).MadeBy (before ++ Addition.accepted c additions) := by
  induction additions generalizing c before with
  | nil => exact ⟨h, by rwa [Addition.accepted, List.append_nil]⟩
  | cons a additions ih =>
    obtain ⟨hnext, hmade'⟩ := h.make hmade a
    have hsplit : Addition.accepted c (a :: additions) =
        Addition.accepted c [a] ++ Addition.accepted (stateAfter (a.make c)) additions := by
      simp only [Addition.accepted]
      cases a.make c <;> rfl
    rw [hsplit, ← List.append_assoc]
    exact ih hnext hmade'

/-- **A cycle under construction is well formed.** After any calls that add parts to the empty
cycle, accepted or refused, no location is named twice, and each item is a part of the kind of the
cycle: the one that the accepted call in its place names. All corners are named the same way round,
the first side part is not twisted, and with a part in the cycle its sign is a twist of its kind. A
further call that is refused leaves the items, and with a part in the cycle all of it. -/
theorem wellFormed_after_additions (additions : List Addition) :
    (Addition.build {} additions).WellFormed ∧
    (Addition.build {} additions).MadeBy (Addition.accepted {} additions) ∧
    ∀ (a : Addition) fault c', a.make (Addition.build {} additions) = .error fault c' →
      c'.items = (Addition.build {} additions).items ∧
      ((Addition.build {} additions).items ≠ [] → c' = Addition.build {} additions) := by
  have hnone : MadeBy [] {} := List.Forall₂.nil
  obtain ⟨hbuilt, hmade⟩ := wellFormed_empty.build hnone additions
  refine ⟨hbuilt, hmade, fun a fault c' hadd => ⟨?_, fun hne => hbuilt.eq_of_refused hne hadd⟩⟩
  obtain ⟨sign', rfl, -⟩ := eq_of_addItem_error hadd
  rfl

/-- An edge is refused between two corners, and a corner that is there already. -/
theorem wellFormed_after_refused_additions :
    let additions : List Addition := [
      ⟨.corner, some .permutationPlus, [.faceR, .faceU, .faceF], 0, 3⟩,
      ⟨.edge, none, [.faceR, .faceU], 0, 3⟩,
      ⟨.corner, none, [.faceU, .faceL, .faceF], 7, 0⟩]
    let again : Addition := ⟨.corner, none, [.faceL, .faceF, .faceU], 0, 3⟩
    (Addition.build {} additions).items.length = 2 ∧ (Addition.build {} additions).WellFormed ∧
      again.make (Addition.build {} additions) =
        .error .repeatedPart (Addition.build {} additions) ∧
      stateAfter (again.make (Addition.build {} additions)) = Addition.build {} additions := by
  intro additions again
  have hrefused : again.make (Addition.build {} additions) =
      .error .repeatedPart (Addition.build {} additions) := rfl
  obtain ⟨hformed, -, hkeeps⟩ := wellFormed_after_additions additions
  refine ⟨by decide, hformed, hrefused, ?_⟩
  rw [hrefused]
  exact (hkeeps again _ _ hrefused).2 (by decide)

end CubeLang.PartCycle
