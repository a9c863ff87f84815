import CubeLang.Cube.Order
import Mathlib.Data.List.Rotate
import Mathlib.Dynamics.PeriodicPts.Defs

/-!
# Least periods

The least period of a list is found by trying the periods below its length. It divides exactly those
numbers of places by which the list can be turned round onto itself, so that it does not matter from
where on the list is written.
-/

set_option autoImplicit false

namespace CubeLang

variable {l : List Nat} {p : Nat}

/-- A list that goes on after a period as it began repeats its first period over and over. -/
theorem getElem?_mod_of_drop_eq_take (hdrop : l.drop p = l.take (l.length - p)) :
    ∀ i < l.length, l[i]? = l[i % p]? := by
  intro i
  induction i using Nat.strong_induction_on with
  | _ i ih =>
    intro hi
    by_cases hip : i < p
    · rw [Nat.mod_eq_of_lt hip]
    · rcases Nat.eq_zero_or_pos p with rfl | hp
      · rw [Nat.mod_zero]
      · have hback : l[i]? = l[i - p]? := by
          have hget := congrArg (fun t => t[i - p]?) hdrop
          rw [List.getElem?_drop, List.getElem?_take_of_lt (by omega)] at hget
          rwa [Nat.add_sub_cancel' (by omega)] at hget
        rw [hback, ih (i - p) (by omega) (by omega), ← Nat.mod_eq_sub_mod (by omega)]

/-- A list has a period that divides its length if it can be turned round by it onto itself. -/
theorem hasPeriod_iff (hp : p ≤ l.length) :
    hasPeriod l p = true ↔ p ∣ l.length ∧ l.rotate p = l := by
  unfold hasPeriod
  simp only [Bool.and_eq_true, decide_eq_true_eq, ← Nat.dvd_iff_mod_eq_zero]
  refine and_congr_right ?_
  intro hdvd
  constructor
  · intro hdrop
    apply List.ext_getElem?
    intro i
    by_cases hi : i < l.length
    · have hmod : (i + p) % l.length < l.length := Nat.mod_lt _ (by omega)
      rw [List.getElem?_rotate hi, getElem?_mod_of_drop_eq_take hdrop _ hmod,
        Nat.mod_mod_of_dvd _ hdvd, Nat.add_mod_right, ← getElem?_mod_of_drop_eq_take hdrop i hi]
    · rw [List.getElem?_eq_none (by simpa using hi), List.getElem?_eq_none (by omega)]
  · intro hrotate
    rw [List.rotate_eq_drop_append_take hp] at hrotate
    have htake := congrArg (List.take (l.length - p)) hrotate
    rwa [List.take_left' (by simp)] at htake

/-- Turning a list round place by place. -/
theorem rotate_eq_iterate (l : List Nat) (k : Nat) : l.rotate k = (fun t => t.rotate 1)^[k] l := by
  induction k with
  | zero => simp
  | succ k ih => rw [Function.iterate_succ_apply', ← ih, List.rotate_rotate]

/-- The least period divides exactly the numbers of places by which a list can be turned round onto
itself. -/
theorem leastPeriod_dvd_iff (hl : l ≠ []) (k : Nat) : leastPeriod l ∣ k ↔ l.rotate k = l := by
  let turn := fun t : List Nat => t.rotate 1
  have hlength : 0 < l.length := List.length_pos_iff.mpr hl
  have hiff : ∀ k, l.rotate k = l ↔ Function.minimalPeriod turn l ∣ k := by
    intro k
    rw [rotate_eq_iterate]
    exact Function.isPeriodicPt_iff_minimalPeriod_dvd
  have hdvd : Function.minimalPeriod turn l ∣ l.length := (hiff _).mp (List.rotate_length l)
  have hle : Function.minimalPeriod turn l ≤ l.length := Nat.le_of_dvd hlength hdvd
  have hpos : 0 < Function.minimalPeriod turn l := Nat.pos_of_dvd_of_pos hdvd hlength
  have hperiod : hasPeriod l (Function.minimalPeriod turn l) = true :=
    (hasPeriod_iff hle).mpr ⟨hdvd, (hiff _).mpr (Nat.dvd_refl _)⟩
  have hleast : leastPeriod l = Function.minimalPeriod turn l := by
    unfold leastPeriod
    cases hfind : (List.range' 1 (l.length - 1)).find? (hasPeriod l) with
    | none =>
      -- No lesser period than the length, which then is the least one.
      have hnone := List.find?_range'_eq_none.mp hfind _ hpos
      by_contra hne
      have hlt : Function.minimalPeriod turn l < 1 + (l.length - 1) := by
        simp only [Option.getD_none] at hne
        omega
      simp [hperiod] at hnone
      omega
    | some q =>
      obtain ⟨hq, hmem, hless⟩ := List.find?_range'_eq_some.mp hfind
      rw [List.mem_range'_1] at hmem
      have hqdvd : Function.minimalPeriod turn l ∣ q :=
        (hiff q).mp ((hasPeriod_iff (by omega)).mp hq).2
      have hge : Function.minimalPeriod turn l ≤ q := Nat.le_of_dvd (by omega) hqdvd
      rw [Option.getD_some]
      rcases Nat.lt_or_eq_of_le hge with hlt | heq
      · have := hless _ hpos hlt
        simp [hperiod] at this
      · exact heq.symm
  rw [hleast, hiff]

end CubeLang
