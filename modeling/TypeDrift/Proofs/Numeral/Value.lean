import Mathlib.Data.List.Induction
import TypeDrift.Proofs.Numeral.Nearest
import TypeDrift.Proofs.Token.Numeral

/-! # The values of numerals

A decimal numeral writes a number, and is read as the double nearest to that.  Whether this is a whole
number is decided without writing out powers of ten that lie far outside the range of doubles: there,
the numeral is read as infinity or as zero (`isWhole_iff`).
-/
namespace TypeDrift.Decimal

open Double

/-! ## Digits -/

theorem ofDigits_concat (digits : List Char) (c : Char) :
    ofDigits (digits ++ [c]) = ofDigits digits * 10 + (c.toNat - '0'.toNat) := by
  rw [ofDigits, List.foldl_append]
  rfl

theorem ofDigits_append (front digits : List Char) :
    ofDigits (front ++ digits) = ofDigits front * 10 ^ digits.length + ofDigits digits := by
  induction digits using List.reverseRecOn with
  | nil => simp [ofDigits]
  | append_singleton digits c ih =>
    rw [← List.append_assoc, ofDigits_concat, ofDigits_concat, ih, List.length_append,
      List.length_singleton, pow_succ]
    ring

/-- So many digits write a number below the power of ten. -/
theorem ofDigits_lt {digits : List Char} (h : ∀ c ∈ digits, Text.isDigit c = true) :
    ofDigits digits < 10 ^ digits.length := by
  induction digits using List.reverseRecOn with
  | nil => simp [ofDigits]
  | append_singleton digits c ih =>
    obtain ⟨hdigits, hc⟩ := List.forall_mem_append.mp h
    have hdigit : c.toNat ≤ 57 := by
      have hrange := hc c (List.mem_singleton_self c)
      simp only [Text.isDigit, Bool.and_eq_true, decide_eq_true_eq, Char.le_def,
        UInt32.le_iff_toNat_le] at hrange
      exact hrange.2
    have hzero : '0'.toNat = 48 := rfl
    have hfront := ih hdigits
    rw [ofDigits_concat, List.length_append, List.length_singleton, pow_succ]
    omega

/-! ## Scaled digits -/

/-- A power of ten that is not computed is larger than all doubles. -/
theorem two_pow_lt_ten_pow {power : ℕ} (h : farBelow < power) : (2 : ℚ) ^ 1075 < 10 ^ power := by
  have height : (8 : ℚ) = 2 ^ 3 := by norm_num
  calc (2 : ℚ) ^ 1075 ≤ 2 ^ (3 * 401) := pow_le_pow_right₀ one_le_two (by norm_num)
    _ = 8 ^ 401 := by rw [height, pow_mul]
    _ < 10 ^ 401 := pow_lt_pow_left₀ (by norm_num) (by norm_num) (by norm_num)
    _ ≤ 10 ^ power := pow_le_pow_right₀ (by norm_num) h

/-- So large a number is read as infinity. -/
theorem not_isWhole_of_far {digits power : ℕ} (hdigits : 0 < digits) (hpower : farBelow < power)
    {f : Floating} (h : IsNearest (digits * 10 ^ power) f) : ¬f.IsWhole := by
  have hone : (1 : ℚ) ≤ digits := by exact_mod_cast hdigits
  have hlarge : (overflow : ℚ) ≤ digits * 10 ^ power :=
    calc (overflow : ℚ) ≤ 2 ^ 1024 := overflow_le
      _ ≤ 2 ^ 1075 := pow_le_pow_right₀ one_le_two (by norm_num)
      _ ≤ 10 ^ power := (two_pow_lt_ten_pow hpower).le
      _ ≤ digits * 10 ^ power := le_mul_of_one_le_left (pow_nonneg (by norm_num) _) hone
  exact fun hwhole => hlarge.not_gt (h.isFinite_iff.mp hwhole.1)

/-- So small a number is read as zero. -/
theorem value_eq_zero_of_far {digits width power : ℕ} (hwidth : digits < 10 ^ width)
    (hpower : width + farBelow < power) {f : Floating}
    (h : IsNearest (digits / 10 ^ (power + 1)) f) : f.value = 0 := by
  have hten (e : ℕ) : (0 : ℚ) < 10 ^ e := pow_pos (by norm_num) e
  have htwo : (0 : ℚ) < 2 ^ 1075 := pow_pos two_pos 1075
  have hhalf : (2 : ℚ) ^ (-1074 : ℤ) / 2 = (2 ^ 1075)⁻¹ := by
    rw [← zpow_natCast, ← zpow_neg, div_eq_mul_inv, ← zpow_sub_one₀ two_ne_zero]
    rfl
  have hsplit : power + 1 = width + (power + 1 - width) := by omega
  refine h.value_eq_zero (div_nonneg (Nat.cast_nonneg _) (hten _).le) ?_
  rw [hhalf, div_lt_iff₀ (hten _), ← div_eq_inv_mul, lt_div_iff₀ htwo]
  calc (digits : ℚ) * 2 ^ 1075 ≤ 10 ^ width * 2 ^ 1075 :=
        mul_le_mul_of_nonneg_right (by exact_mod_cast hwidth.le) htwo.le
    _ < 10 ^ width * 10 ^ (power + 1 - width) :=
        mul_lt_mul_of_pos_left (two_pow_lt_ten_pow (by omega)) (hten _)
    _ = 10 ^ (power + 1) := by rw [← pow_add, ← hsplit]

/-- Digits moved by a power of ten count as a whole number if the nearest double is one. -/
theorem scaledIsWhole_iff {digits width : ℕ} {scale : ℤ} (hwidth : digits < 10 ^ width)
    {f : Floating} (h : IsNearest (digits * 10 ^ scale) f) :
    scaledIsWhole digits width scale = true ↔ f.IsWhole := by
  rcases Nat.eq_zero_or_pos digits with rfl | hdigits
  · have hzero : f.value = 0 := by
      rw [Nat.cast_zero, zero_mul] at h
      exact h.value_eq_zero le_rfl (half_pos (Floating.two_zpow_pos _))
    exact iff_of_true (by cases scale <;> rfl) (Floating.isWhole_of_value_eq_zero hzero)
  have hne : (digits == 0) = false := beq_eq_false_iff_ne.mpr hdigits.ne'
  cases scale with
  | ofNat power =>
    rw [Int.ofNat_eq_natCast, zpow_natCast] at h
    rw [scaledIsWhole, hne, Bool.false_or, Bool.and_eq_true, decide_eq_true_eq]
    by_cases hpower : power ≤ farBelow
    · rw [and_iff_right hpower]
      refine nearestIsWhole_iff one_pos ?_
      rw [Nat.pow_eq]
      push_cast
      rwa [div_one]
    · exact iff_of_false (fun hboth => hpower hboth.1) (not_isWhole_of_far hdigits (not_le.mp hpower) h)
  | negSucc power =>
    rw [zpow_negSucc, ← div_eq_mul_inv] at h
    rw [scaledIsWhole, hne, Bool.false_or, Bool.or_eq_true, decide_eq_true_eq]
    by_cases hpower : width + farBelow < power
    · exact iff_of_true (.inl hpower)
        (Floating.isWhole_of_value_eq_zero (value_eq_zero_of_far hwidth hpower h))
    · rw [or_iff_right hpower]
      refine nearestIsWhole_iff (Nat.pow_pos (by norm_num)) ?_
      push_cast
      exact h

/-! ## Numerals -/

/-- The number that a numeral writes.  It is meant for one exponent at most. -/
def value (decimal : Decimal) : ℚ :=
  (ofDigits decimal.whole +
      ofDigits (decimal.fraction.getD []) / 10 ^ (decimal.fraction.getD []).length) *
    10 ^ (decimal.exponents.map Exponent.value).sum

theorem value_nonneg (decimal : Decimal) : 0 ≤ decimal.value := by
  have hten (e : ℤ) : (0 : ℚ) < 10 ^ e := zpow_pos (by norm_num) e
  exact mul_nonneg (by positivity) (hten _).le

theorem value_eq (decimal : Decimal) : decimal.value =
    ofDigits (decimal.whole ++ decimal.fraction.getD []) *
      10 ^ ((decimal.exponents.map Exponent.value).sum - (decimal.fraction.getD []).length) := by
  have hpow : (10 : ℚ) ^ (decimal.fraction.getD []).length ≠ 0 := pow_ne_zero _ (by norm_num)
  rw [value, ofDigits_append, zpow_sub₀ (by norm_num), zpow_natCast]
  push_cast
  field_simp

/-- **A numeral counts as whole if the double nearest to its value is a whole number.** -/
theorem isWhole_iff {decimal : Decimal} (hproper : decimal.Proper)
    (hexponents : decimal.exponents.length ≤ 1) {f : Floating} (h : IsNearest decimal.value f) :
    decimal.isWhole = true ↔ f.IsWhole := by
  rw [value_eq] at h
  have hdigits : ∀ c ∈ decimal.whole ++ decimal.fraction.getD [], Text.isDigit c = true := by
    refine List.forall_mem_append.mpr ⟨hproper.whole, ?_⟩
    cases hfraction : decimal.fraction with
    | none => exact fun c hc => absurd hc List.not_mem_nil
    | some digits => exact hproper.fraction digits hfraction
  have hscaled := scaledIsWhole_iff (ofDigits_lt hdigits) h
  rw [isWhole]
  match hread : decimal.exponents, hexponents with
  | [], _ | [exponent], _ =>
    rw [hread] at hscaled
    simpa using hscaled

end TypeDrift.Decimal
