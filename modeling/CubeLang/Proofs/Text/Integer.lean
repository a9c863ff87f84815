import CubeLang.Text.Integer

/-!
# The digits of a number

Decimal digits of any script are read as the number that they write, and a number written in decimal
digits is read as that number again.
-/

set_option autoImplicit false

namespace CubeLang.Text.Integer

variable {c : Char} {cs : List Char}

/-- Whether a character is a decimal digit of some script. -/
def Decimal (c : Char) : Prop := (DecimalDigit.value? c).isSome = true

instance (c : Char) : Decidable (Decimal c) := inferInstanceAs (Decidable (_ = true))

/-- The number that digits write behind those of `value`. -/
def valueFrom (value : Nat) (digits : List Char) : Nat :=
  digits.foldl (fun value c => 10 * value + (DecimalDigit.value? c).getD 0) value

/-! ## Decimal digits -/

/-- The digits of a script stand in a row. -/
theorem Decimal.exists_zero (h : Decimal c) :
    ∃ z ∈ DecimalDigit.zeros, z ≤ c.toNat ∧ c.toNat < z + 10 := by
  obtain ⟨d, hd⟩ := Option.isSome_iff_exists.mp h
  obtain ⟨z, hz, -⟩ := Option.map_eq_some_iff.mp hd
  refine ⟨z, List.mem_of_find?_eq_some hz, ?_⟩
  simpa using List.find?_some hz

/-- No row of digits holds a blank or the underscore, and all are behind the signs. -/
theorem zeros_apart : ∀ z ∈ DecimalDigit.zeros, 48 ≤ z ∧ (z + 10 ≤ 0x2000 ∨ 0x202F < z) ∧
    ∀ other ∈ [95, 0x85, 0xA0, 0x1680, 0x205F, 0x3000], z + 10 ≤ other ∨ other < z := by
  decide

theorem Decimal.not_isPadding (h : Decimal c) : isPadding c = false := by
  obtain ⟨z, hz, hlow, hhigh⟩ := h.exists_zero
  obtain ⟨hsigns, hspaces, hothers⟩ := zeros_apart z hz
  simp only [List.forall_mem_cons, List.not_mem_nil, false_implies, implies_true, and_true]
    at hothers
  unfold isPadding isBlank
  simp only [Bool.and_eq_false_iff, Bool.or_eq_false_iff, Bool.not_eq_false', Bool.and_eq_true,
    decide_eq_true_eq, decide_eq_false_iff_not, beq_eq_false_iff_ne, ne_eq]
  omega

theorem Decimal.ne (h : Decimal c) : c ≠ '_' ∧ c ≠ '+' ∧ c ≠ '-' := by
  refine ⟨?_, ?_, ?_⟩
  all_goals
    rintro rfl
    exact absurd h (by decide)

theorem toNat_of_isDigit (h : c.isDigit = true) : 48 ≤ c.toNat ∧ c.toNat ≤ 57 :=
  Char.isDigit_iff_toNat.mp h

theorem value?_of_isDigit (h : c.isDigit = true) :
    DecimalDigit.value? c = some (c.toNat - '0'.toNat) := by
  obtain ⟨hlow, hhigh⟩ := toNat_of_isDigit h
  unfold DecimalDigit.value? DecimalDigit.zeros
  rw [List.find?_cons_of_pos]
  · rfl
  · simp only [Bool.and_eq_true, decide_eq_true_eq]
    omega

theorem decimal_of_isDigit (h : c.isDigit = true) : Decimal c := by
  rw [Decimal, value?_of_isDigit h]
  rfl

/-! ## Numbers -/

theorem continued?_of_decimal (h : ∀ c ∈ cs, Decimal c) (value : Nat) :
    continued? value cs = some (valueFrom value cs) := by
  induction cs generalizing value with
  | nil => rw [continued?, valueFrom, List.foldl_nil]
  | cons c cs ih =>
    have hc : Decimal c := h c List.mem_cons_self
    have hcs : ∀ c ∈ cs, Decimal c := fun d hd => h d (List.mem_cons_of_mem _ hd)
    obtain ⟨d, hd⟩ := Option.isSome_iff_exists.mp hc
    have hstep : continued? value (c :: cs) =
        (DecimalDigit.value? c).bind fun d => continued? (10 * value + d) cs := by
      rw [continued?]
      rintro d ds rfl
      exact absurd rfl hc.ne.1
    rw [hstep, valueFrom, List.foldl_cons, hd, Option.bind_some, ih hcs, Option.getD_some,
      valueFrom]

theorem natural?_of_decimal (hne : cs ≠ []) (h : ∀ c ∈ cs, Decimal c) :
    natural? cs = some (valueFrom 0 cs) := by
  cases cs with
  | nil => contradiction
  | cons c cs =>
    have hcs : ∀ c ∈ cs, Decimal c := fun d hd => h d (List.mem_cons_of_mem _ hd)
    obtain ⟨d, hd⟩ := Option.isSome_iff_exists.mp (h c List.mem_cons_self)
    rw [natural?, hd, Option.bind_some, continued?_of_decimal hcs, valueFrom, valueFrom,
      List.foldl_cons, hd, Option.getD_some, Nat.mul_zero, Nat.zero_add]

theorem dropWhile_isPadding_of_decimal (h : ∀ c ∈ cs, Decimal c) : cs.dropWhile isPadding = cs := by
  cases cs with
  | nil => rfl
  | cons c cs => simp [(h c List.mem_cons_self).not_isPadding]

/-- Decimal digits are read as the number that they write. -/
theorem parse?_of_decimal (hne : cs ≠ []) (h : ∀ c ∈ cs, Decimal c) :
    parse? cs = some (valueFrom 0 cs : Int) := by
  have hreverse : ∀ c ∈ cs.reverse, Decimal c := fun c hc => h c (List.mem_reverse.mp hc)
  unfold parse?
  rw [dropWhile_isPadding_of_decimal h, dropWhile_isPadding_of_decimal hreverse,
    List.reverse_reverse]
  have hsigned : signed? cs = (natural? cs).map Int.ofNat := by
    cases cs with
    | nil => contradiction
    | cons c cs =>
      have hc := (h c List.mem_cons_self).ne
      unfold signed?
      split <;> simp_all
  rw [hsigned, natural?_of_decimal hne h]
  rfl

/-- No other character is a number by itself. -/
theorem decimal_of_parse?_singleton (h : (parse? [c]).isSome = true) : Decimal c := by
  have hsigned : (signed? [c]).isSome = true → Decimal c := by
    intro hsome
    unfold signed? at hsome
    split at hsome
    · rename_i heq
      obtain ⟨-, rfl⟩ := List.cons.inj heq
      contradiction
    · rename_i heq
      obtain ⟨-, rfl⟩ := List.cons.inj heq
      contradiction
    · rw [Option.isSome_map, natural?] at hsome
      exact Option.isSome_of_isSome_bind hsome
  unfold parse? at h
  cases hpadding : isPadding c with
  | true =>
    simp [hpadding, signed?, natural?] at h
  | false =>
    rw [List.dropWhile_cons_of_neg (by simp [hpadding]), List.reverse_singleton,
      List.dropWhile_cons_of_neg (by simp [hpadding]), List.reverse_singleton] at h
    exact hsigned h

theorem valueFrom_of_isDigit (h : ∀ c ∈ cs, c.isDigit = true) (value : Nat) :
    valueFrom value cs = Nat.ofDigitChars 10 cs value := by
  induction cs generalizing value with
  | nil => rw [valueFrom, List.foldl_nil, Nat.ofDigitChars_nil]
  | cons c cs ih =>
    have hcs : ∀ c ∈ cs, c.isDigit = true := fun d hd => h d (List.mem_cons_of_mem _ hd)
    rw [valueFrom, List.foldl_cons, value?_of_isDigit (h c List.mem_cons_self), Option.getD_some,
      ← valueFrom, ih hcs, Nat.ofDigitChars_cons]

/-- Digits are read as the number that they write. -/
theorem parse?_of_isDigit (hne : cs ≠ []) (h : ∀ c ∈ cs, c.isDigit = true) :
    parse? cs = some ((Nat.ofDigitChars 10 cs 0 : Nat) : Int) := by
  rw [parse?_of_decimal hne fun c hc => decimal_of_isDigit (h c hc), valueFrom_of_isDigit h]

theorem isDigit_of_mem_toString {k : Nat} (h : c ∈ (toString k).toList) : c.isDigit = true := by
  rw [Nat.toString_eq_repr, Nat.toList_repr] at h
  exact Nat.isDigit_of_mem_toDigits (by decide) (by decide) h

theorem toList_toString_ne_nil (k : Nat) : (toString k).toList ≠ [] := by
  rw [Nat.toString_eq_repr, Nat.toList_repr]
  exact Nat.toDigits_ne_nil

/-- The digits of a number are read as the number. -/
theorem parse?_toString (k : Nat) : parse? (toString k).toList = some (k : Int) := by
  rw [parse?_of_isDigit (toList_toString_ne_nil k) fun c hc => isDigit_of_mem_toString hc,
    Nat.toString_eq_repr, Nat.toList_repr, Nat.ofDigitChars_ten_toDigits]

end CubeLang.Text.Integer
