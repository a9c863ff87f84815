import CubeLang.Table
import Mathlib.Data.List.Nodup

/-!
# Keys and entries of tables

What is written to a new key stands at the end, and what is written to a key that is there changes no
key. If no key stands twice, a key holds what stands beside it in the entries.
-/

set_option autoImplicit false

namespace CubeLang.Table

variable {κ ν : Type} [DecidableEq κ] {t : Table κ ν} {k k' : κ} {v : ν}

/-- Writing to a new key adds an entry at the end. -/
theorem put_of_notMem (h : k ∉ t.keys) (v : ν) : t.put k v = ⟨t.entries ++ [(k, v)]⟩ := by
  obtain ⟨es⟩ := t
  refine congrArg Table.mk ?_
  unfold keys at h
  dsimp only at h ⊢
  induction es with
  | nil => rfl
  | cons e es ih =>
    obtain ⟨hne, hes⟩ := not_or.mp (mt List.mem_cons.mpr h)
    have hentry : putEntry k v (e :: es) = e :: putEntry k v es := if_neg (Ne.symm hne)
    exact hentry.trans (congrArg (e :: ·) (ih hes))

/-- Writing to a key that is there changes no key. -/
theorem keys_put_of_mem (h : k ∈ t.keys) (v : ν) : (t.put k v).keys = t.keys := by
  obtain ⟨es⟩ := t
  unfold put keys at *
  induction es with
  | nil => contradiction
  | cons e es ih =>
    by_cases he : e.1 = k
    · simp [putEntry, he]
    · have hes : k ∈ es.map Prod.fst := by simpa [Ne.symm he] using h
      simpa [putEntry, he] using ih hes

theorem keys_put (t : Table κ ν) (k : κ) (v : ν) :
    (t.put k v).keys = if k ∈ t.keys then t.keys else t.keys ++ [k] := by
  split
  · exact keys_put_of_mem ‹_› v
  · rw [put_of_notMem ‹_› v]
    exact List.map_append

theorem keys_erase (t : Table κ ν) (k : κ) : (t.erase k).keys = t.keys.filter (· ≠ k) := by
  unfold erase keys
  rw [List.filter_map]
  rfl

theorem erase_of_notMem (h : k ∉ t.keys) : t.erase k = t := by
  obtain ⟨es⟩ := t
  refine congrArg Table.mk (List.filter_eq_self.mpr fun e he => decide_eq_true ?_)
  rintro rfl
  exact h (List.mem_map_of_mem he)

theorem mem_keys_put : k' ∈ (t.put k v).keys ↔ k = k' ∨ k' ∈ t.keys := by
  rw [← contains_iff_mem_keys, ← contains_iff_mem_keys, contains, contains, get?_put]
  by_cases h : k = k' <;> simp [h]

theorem mem_keys_putAll {pairs : List (κ × ν)} :
    k ∈ (t.putAll pairs).keys ↔ k ∈ pairs.map Prod.fst ∨ k ∈ t.keys := by
  induction pairs generalizing t with
  | nil => simp [putAll]
  | cons e pairs ih =>
    have hstep : t.putAll (e :: pairs) = (t.put e.1 e.2).putAll pairs := rfl
    rw [hstep, ih, mem_keys_put, List.map_cons, List.mem_cons, or_left_comm, ← or_assoc,
      eq_comm (a := k)]

theorem get?_eq_some_iff_mem (h : t.keys.Nodup) : t.get? k = some v ↔ (k, v) ∈ t.entries := by
  unfold get?
  constructor
  · intro hfound
    obtain ⟨e, he, rfl⟩ := Option.map_eq_some_iff.mp hfound
    obtain rfl : e.1 = k := by simpa using List.find?_some he
    exact List.mem_of_find?_eq_some he
  · intro hmem
    cases hfound : t.entries.find? fun e => e.1 = k with
    | none =>
      have hnone := List.find?_eq_none.mp hfound _ hmem
      simp at hnone
    | some e =>
      have hkey : e.1 = k := by simpa using List.find?_some hfound
      have hsame := List.inj_on_of_nodup_map h (List.mem_of_find?_eq_some hfound) hmem hkey
      rw [hsame]
      rfl

end CubeLang.Table
