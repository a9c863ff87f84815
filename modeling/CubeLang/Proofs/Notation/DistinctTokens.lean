import CubeLang.Proofs.Notation.MoveTokens
import Mathlib.Data.List.Nodup

/-!
# The built-in notation says nothing twice

The groups of layers have labels of their own: the first letter of a label says its family, and the
numbers behind it say which group of the family it is. The letter of a face and the mark behind a
label say which move it is, so that no token of a move is listed twice. Other tokens hold no capital
letter.
-/

set_option autoImplicit false

namespace CubeLang.Notation

open LayerMask

variable {n : Nat} {g : LayerGroup}

/-- Lists put together for the members of a list hold nothing twice if each of them holds nothing
twice and what they hold says for which member it is. -/
theorem nodup_flatMap_of_key {α β γ : Type} {l : List α} {f : α → List β} (key : α → γ)
    (read : β → γ) (hl : (l.map key).Nodup) (hf : ∀ a ∈ l, (f a).Nodup)
    (hread : ∀ a ∈ l, ∀ b ∈ f a, read b = key a) : (l.flatMap f).Nodup := by
  rw [List.nodup_flatMap]
  refine ⟨hf, (List.pairwise_map.mp hl).imp_of_mem fun ha hb hne x hxa hxb => ?_⟩
  exact hne ((hread _ ha x hxa).symm.trans (hread _ hb x hxb))

/-! ## Labels -/

/-- The groups of layers, family by family. -/
def families (n : Nat) : List (Nat × List LayerGroup) := [
  (0, [⟨"", single 0⟩]),
  (1, [⟨"C", all n⟩]),
  (2, (numbers 1 (n - 2)).flatMap (numbered "M" 1 (middleBlock n))),
  (3, if 2 < n then [⟨"W", block 1 (n - 2)⟩] else []),
  (4, (numbers 1 n).flatMap (numbered "T" 2 (block 0))),
  (5, (numbers 1 (n - 1)).flatMap (numbered "N" 2 fun k => single (k - 1))),
  (6, (innerRanges n).map fun r => ⟨s!"N{r.1}-{r.2}", block (r.1 - 1) (r.2 + 1 - r.1)⟩),
  (7, (numbers 2 (n - 1)).flatMap (numbered "V" 2 (block 1))),
  (8, (numbers 1 ((n - 1) / 2)).flatMap
    (numbered "S" 1 fun k => complement n (block k (n - 2 * k)))),
  (9, (innerRanges n).map fun r =>
    ⟨s!"S{r.1}-{r.2}", complement n (block (r.1 - 1) (r.2 + 1 - r.1))⟩)]

theorem layerGroups_eq (n : Nat) : layerGroups n = (families n).flatMap Prod.snd := by
  simp [layerGroups, families]

/-- The family that a label says. -/
def familyOfLabel : List Char → Nat
  | [] => 0
  | 'C' :: _ => 1
  | 'M' :: _ => 2
  | 'W' :: _ => 3
  | 'T' :: _ => 4
  | 'N' :: cs => if '-' ∈ cs then 6 else 5
  | 'V' :: _ => 7
  | _ :: cs => if '-' ∈ cs then 9 else 8

theorem nodup_numbers (first last : Nat) : (numbers first last).Nodup :=
  List.nodup_range'

/-- No two numbered groups of a family have the same label. -/
theorem nodup_numbered (letter : String) (short : Nat) (mask : Nat → Nat) (first last : Nat) :
    (((numbers first last).flatMap (numbered letter short mask)).map LayerGroup.label).Nodup := by
  rw [List.map_flatMap]
  refine nodup_flatMap_of_key id
    (fun label : String => numberOr short (label.toList.drop letter.toList.length))
    (by simpa using nodup_numbers first last) ?_ ?_
  · intro k _
    have hlonger : letter ≠ letter ++ toString k := by
      intro h
      have hempty := congrArg String.toList h
      rw [String.toList_append, List.self_eq_append_right] at hempty
      exact Text.Integer.toList_toString_ne_nil k hempty
    by_cases hk : k = short
    · simpa [numbered, hk] using hk ▸ hlonger
    · simp [numbered, hk]
  · intro k _ label hlabel
    obtain ⟨g, hg, rfl⟩ := List.mem_map.mp hlabel
    obtain ⟨cs, hlabel, hnumber, -⟩ := label_of_mem_numbered hg
    rw [hlabel, List.drop_left, hnumber, id]

theorem nodup_innerRanges (n : Nat) : (innerRanges n).Nodup := by
  refine nodup_flatMap_of_key id Prod.fst (by simpa using nodup_numbers 2 (n - 2)) ?_ ?_
  · intro first _
    exact (nodup_numbers first (n - 1)).map fun _ _ h => (Prod.mk.inj h).2
  · intro first _ r hr
    obtain ⟨last, -, rfl⟩ := List.mem_map.mp hr
    rfl

/-- No two ranges of layers have the same label. -/
theorem nodup_ranges (letter : String) (mask : Nat × Nat → Nat) :
    (((innerRanges n).map fun r => LayerGroup.mk (letter ++ toString r.1 ++ "-" ++ toString r.2)
      (mask r)).map LayerGroup.label).Nodup := by
  rw [List.map_map]
  refine (nodup_innerRanges n).map fun r r' h => ?_
  obtain ⟨cs, hlabel, hrange, -⟩ := label_of_range letter r
  obtain ⟨cs', hlabel', hrange', -⟩ := label_of_range letter r'
  have hsame : letter.toList ++ cs = letter.toList ++ cs' := by
    rw [← hlabel, ← hlabel']
    exact congrArg String.toList h
  rw [← hrange, ← hrange', List.append_cancel_left hsame]

/-- No two groups of a family have the same label. -/
theorem nodup_family : ∀ family ∈ families n, (family.2.map LayerGroup.label).Nodup := by
  simp only [families, List.forall_mem_cons, List.not_mem_nil, false_implies, implies_true,
    and_true]
  refine ⟨List.nodup_singleton _, List.nodup_singleton _, nodup_numbered "M" 1 _ _ _, ?_,
    nodup_numbered "T" 2 _ _ _, nodup_numbered "N" 2 _ _ _, nodup_ranges "N" _,
    nodup_numbered "V" 2 _ _ _, nodup_numbered "S" 1 _ _ _, nodup_ranges "S" _⟩
  split
  · exact List.nodup_singleton _
  · exact List.nodup_nil

theorem familyOfLabel_of_numbered {letter : String} {short first last family : Nat}
    {mask : Nat → Nat} (h : ∀ cs, '-' ∉ cs → familyOfLabel (letter.toList ++ cs) = family) :
    ∀ g ∈ (numbers first last).flatMap (numbered letter short mask),
      familyOfLabel g.label.toList = family := by
  intro g hg
  obtain ⟨k, -, hg⟩ := List.mem_flatMap.mp hg
  obtain ⟨cs, hlabel, -, hdash⟩ := label_of_mem_numbered hg
  rw [hlabel, h cs hdash]

theorem familyOfLabel_of_range {letter : String} {family : Nat} {mask : Nat × Nat → Nat}
    (h : ∀ cs, '-' ∈ cs → familyOfLabel (letter.toList ++ cs) = family) :
    ∀ g ∈ (innerRanges n).map fun r =>
      LayerGroup.mk (letter ++ toString r.1 ++ "-" ++ toString r.2) (mask r),
      familyOfLabel g.label.toList = family := by
  intro g hg
  obtain ⟨r, -, rfl⟩ := List.mem_map.mp hg
  obtain ⟨cs, hlabel, -, hdash⟩ := label_of_range letter r
  rw [hlabel, h cs hdash]

/-- The label of a group says the family. -/
theorem familyOfLabel_eq : ∀ family ∈ families n, ∀ g ∈ family.2,
    familyOfLabel g.label.toList = family.1 := by
  simp only [families, List.forall_mem_cons, List.not_mem_nil, false_implies, implies_true,
    and_true]
  refine ⟨rfl, rfl, familyOfLabel_of_numbered fun _ _ => rfl, fun g hg => ?_,
    familyOfLabel_of_numbered fun _ _ => rfl, familyOfLabel_of_numbered fun _ h => if_neg h,
    familyOfLabel_of_range fun _ h => if_pos h, familyOfLabel_of_numbered fun _ _ => rfl,
    familyOfLabel_of_numbered fun _ h => if_neg h, familyOfLabel_of_range fun _ h => if_pos h⟩
  obtain ⟨-, hg⟩ := List.mem_ite_nil_right.mp hg
  obtain rfl := List.mem_singleton.mp hg
  exact (rfl : familyOfLabel "W".toList = 3)

/-- No two groups of layers have the same label. -/
theorem nodup_labels (n : Nat) : ((layerGroups n).map LayerGroup.label).Nodup := by
  rw [layerGroups_eq, List.map_flatMap]
  refine nodup_flatMap_of_key Prod.fst (fun label : String => familyOfLabel label.toList)
    (by simp [families]) nodup_family fun family hfamily label hlabel => ?_
  obtain ⟨g, hg, rfl⟩ := List.mem_map.mp hlabel
  exact familyOfLabel_eq family hfamily g hg

/-! ## Tokens -/

theorem defaultMoves_eq (n : Nat) : defaultMoves n =
    turnMarks.flatMap fun m => (layerGroups n).flatMap (groupMoves n m.1 m.2) := by
  simp [defaultMoves, turnMarks]

/-- No token of a move is listed twice. -/
theorem nodup_keys_defaultMoves (n : Nat) : ((defaultMoves n).map Prod.fst).Nodup := by
  rw [defaultMoves_eq, List.map_flatMap]
  refine nodup_flatMap_of_key (fun m => m.2.toList)
    (fun token : String => (token.toList.dropWhile notFace).tail) (by decide) ?_ ?_
  · intro m _
    rw [List.map_flatMap]
    refine nodup_flatMap_of_key (fun g => g.label.toList)
      (fun token : String => token.toList.takeWhile notFace) ?_ ?_ ?_
    · have hlabels := (nodup_labels n).map fun _ _ h => String.toList_inj.mp h
      rwa [List.map_map] at hlabels
    · intro g hg
      rw [groupMoves_eq, List.map_map]
      refine List.Nodup.map_on ?_ (by decide : faceLetters.Nodup)
      intro face hface other hother h
      have hsame : faceToken g.label face m.2 = faceToken g.label other m.2 := h
      have hbehind := (parts_faceToken hg hface m.2).2
      rw [hsame, (parts_faceToken hg hother m.2).2] at hbehind
      exact (List.cons.inj hbehind).1.symm
    · intro g hg token htoken
      rw [groupMoves_eq, List.map_map] at htoken
      obtain ⟨face, hface, rfl⟩ := List.mem_map.mp htoken
      exact (parts_faceToken hg hface m.2).1
  · intro m _ token htoken
    obtain ⟨e, he, rfl⟩ := List.mem_map.mp htoken
    obtain ⟨g, hg, he⟩ := List.mem_flatMap.mp he
    rw [groupMoves_eq] at he
    obtain ⟨face, hface, rfl⟩ := List.mem_map.mp he
    rw [(parts_faceToken hg hface m.2).2, List.tail_cons]

end CubeLang.Notation
