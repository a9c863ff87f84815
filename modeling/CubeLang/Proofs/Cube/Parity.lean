import CubeLang.Proofs.Cube.Core
import Mathlib

/-!
# Parities

The parity of some parts is the number of pairs of them that stand in the wrong order, modulo two.
As it is the sign of a permutation, parities add up when one arrangement follows another. The parts
of the core move as those of the cube with three layers, where every turn can be looked at: it
changes the parities of an even number of kinds, and the twists of the parts in the middle of the
faces by as much as the parity of the corners.
-/

set_option autoImplicit false

namespace CubeLang

/-- The number of pairs of a list whose first number is greater than the second. -/
def inversions : List Nat → Nat
  | [] => 0
  | x :: xs => xs.countP (fun y => y < x) + inversions xs

theorem neg_one_pow_countP {α : Type} (p : α → Bool) (l : List α) :
    (-1 : ℤˣ) ^ l.countP p = (l.map fun a => if p a then -1 else 1).prod := by
  induction l with
  | nil => rfl
  | cons a l ih =>
    cases h : p a with
    | false => simp [h, ih]
    | true => simp [h, ih, pow_succ]

/-- The pairs of different numbers in the wrong order, counted one first number after the other. -/
theorem neg_one_pow_inversions {d : Nat} (f : Fin d → Nat) (hf : Function.Injective f) :
    (-1 : ℤˣ) ^ inversions (List.ofFn f) =
      ∏ i, ∏ j ∈ Finset.Ioi i, if f i < f j then 1 else -1 := by
  induction d with
  | zero => rfl
  | succ d ih =>
    have hfirst : (-1 : ℤˣ) ^ (List.ofFn fun i : Fin d => f i.succ).countP (fun y => y < f 0) =
        ∏ j ∈ Finset.Ioi (0 : Fin (d + 1)), if f 0 < f j then 1 else -1 := by
      rw [neg_one_pow_countP, List.map_ofFn, List.prod_ofFn, Fin.prod_Ioi_zero]
      refine Finset.prod_congr rfl ?_
      intro j _
      have hne : f 0 ≠ f j.succ := fun h => Fin.succ_ne_zero j (hf h).symm
      by_cases hlt : f 0 < f j.succ
      · simp [hlt, Nat.not_lt_of_lt hlt]
      · have hgt : f j.succ < f 0 := by omega
        simp [hlt, hgt]
    have hrest := ih (fun i => f i.succ) (hf.comp (Fin.succ_injective d))
    rw [List.ofFn_succ, inversions, pow_add, hfirst, hrest, Fin.prod_univ_succ]
    simp only [Fin.prod_Ioi_succ]

/-- The parity of a permutation is its sign. -/
theorem neg_one_pow_inversions_perm {d : Nat} (σ : Equiv.Perm (Fin d)) :
    (-1 : ℤˣ) ^ inversions (List.ofFn fun i => (σ i : Nat)) = σ.sign := by
  rw [σ.sign_eq_prod_prod_Ioi]
  exact neg_one_pow_inversions _ (Fin.val_injective.comp σ.injective)

theorem natCast_eq_of_neg_one_pow {a b : Nat} (h : (-1 : ℤˣ) ^ a = (-1) ^ b) :
    (a : ZMod 2) = b := by
  rw [Int.units_pow_eq_pow_mod_two, Int.units_pow_eq_pow_mod_two _ b] at h
  rw [ZMod.natCast_eq_natCast_iff']
  rcases Nat.mod_two_eq_zero_or_one a with ha | ha <;>
    rcases Nat.mod_two_eq_zero_or_one b with hb | hb <;> rw [ha, hb] at h ⊢
  · exact absurd h (by decide)
  · exact absurd h (by decide)

namespace Arrangement

variable {kind : PartKind} {count m : Nat} {a b : Arrangement}

/-- The parity of the order in which the first parts stand. -/
def parity (d : Nat) (a : Arrangement) : ZMod 2 := inversions (a.parts.take d)

/-- Whether the first locations hold the first parts. -/
def KeepsFirst (d : Nat) (a : Arrangement) : Prop :=
  a.sources (Finset.range d) = Finset.range d

theorem keepsFirst_solved (d : Nat) : (solved count).KeepsFirst d := by
  simp [KeepsFirst, sources]

theorem KeepsFirst.part_lt {d : Nat} (h : a.KeepsFirst d) {i : Nat} (hi : i < d) :
    (a.slot i).part < d := by
  have hmem : (a.slot i).part ∈ a.sources (Finset.range d) :=
    Finset.mem_image_of_mem _ (Finset.mem_range.mpr hi)
  rw [h] at hmem
  exact Finset.mem_range.mp hmem

theorem sources_andThen {S : Finset Nat} (hS : ∀ i ∈ S, i < b.size) :
    (a.andThen m b).sources S = a.sources (b.sources S) := by
  unfold sources
  rw [Finset.image_image]
  refine Finset.image_congr ?_
  intro i hi
  simp [slot_andThen (hS i hi)]

theorem KeepsFirst.andThen {d : Nat} (ha : a.KeepsFirst d) (hb : b.KeepsFirst d)
    (hd : d ≤ b.size) : (a.andThen m b).KeepsFirst d := by
  have hlt : ∀ i ∈ Finset.range d, i < b.size :=
    fun i hi => lt_of_lt_of_le (Finset.mem_range.mp hi) hd
  rw [KeepsFirst, sources_andThen hlt, hb, ha]

theorem length_parts (a : Arrangement) : a.parts.length = a.size := by
  simp [parts]

theorem take_parts {d : Nat} (hd : d ≤ a.size) :
    a.parts.take d = List.ofFn fun i : Fin d => (a.slot i).part := by
  refine List.ext_getElem (by simp [parts, hd]) ?_
  intro i hi hi'
  have hlt : i < a.size := by
    simp [parts] at hi
    omega
  simp [parts, slot_eq_getElem hlt]

/-- The first parts stand as a permutation has them, if the first locations hold them. -/
theorem KeepsFirst.exists_perm {d : Nat} (h : a.KeepsFirst d) :
    ∃ σ : Equiv.Perm (Fin d), ∀ i, (σ i : Nat) = (a.slot i).part := by
  let f : Fin d → Fin d := fun i => ⟨(a.slot i).part, h.part_lt i.isLt⟩
  have hsurjective : Function.Surjective f := by
    intro p
    have hp : (p : Nat) ∈ a.sources (Finset.range d) := by
      rw [h]
      exact Finset.mem_range.mpr p.isLt
    obtain ⟨i, hi, heq⟩ := Finset.mem_image.mp hp
    exact ⟨⟨i, Finset.mem_range.mp hi⟩, Fin.ext heq⟩
  exact ⟨Equiv.ofBijective f (Finite.surjective_iff_bijective.mp hsurjective), fun _ => rfl⟩

theorem KeepsFirst.take_parts_perm {d : Nat} (h : a.KeepsFirst d) (hd : d ≤ a.size) :
    (a.parts.take d).Perm (List.range d) := by
  obtain ⟨σ, hσ⟩ := h.exists_perm
  have hrange : List.range d = List.ofFn fun i : Fin d => (i : Nat) := by
    simp [List.ofFn_eq_map]
  rw [take_parts hd, hrange]
  simp only [← hσ]
  exact Equiv.Perm.ofFn_comp_perm σ _

/-- The parities of two arrangements, one after the other, add up. -/
theorem KeepsFirst.parity_andThen {d : Nat} (ha : a.KeepsFirst d) (hb : b.KeepsFirst d)
    (had : d ≤ a.size) (hbd : d ≤ b.size) :
    (a.andThen m b).parity d = a.parity d + b.parity d := by
  obtain ⟨σ, hσ⟩ := ha.exists_perm
  obtain ⟨τ, hτ⟩ := hb.exists_perm
  have hboth : ∀ i : Fin d, ((a.andThen m b).slot i).part = ((σ * τ) i : Nat) := by
    intro i
    rw [slot_andThen (lt_of_lt_of_le i.isLt hbd), Equiv.Perm.mul_apply, hσ, hτ]
  have hsize : d ≤ (a.andThen m b).size := by rwa [size_andThen]
  unfold parity
  rw [take_parts had, take_parts hbd, take_parts hsize, ← Nat.cast_add]
  refine natCast_eq_of_neg_one_pow ?_
  simp only [hboth, ← hσ, ← hτ]
  rw [pow_add, neg_one_pow_inversions_perm, neg_one_pow_inversions_perm,
    neg_one_pow_inversions_perm, Equiv.Perm.sign_mul]

theorem parity_solved {d : Nat} (hd : d ≤ count) : (solved count).parity d = 0 := by
  have hsize : d ≤ (solved count).size := by rwa [size_solved]
  have hkeeps : (solved count).KeepsFirst d := keepsFirst_solved d
  have hvalid : (solved count).Valid .side count := valid_solved
  have htwice := hkeeps.parity_andThen (m := PartKind.modulus .side) hkeeps hsize hsize
  rw [hvalid.solved_andThen] at htwice
  exact left_eq_add.mp htwice

end Arrangement

end CubeLang
