import Mathlib.Algebra.Order.Floor.Ring
import Mathlib.Data.Int.Log
import Mathlib.Data.Rat.Floor
import Mathlib.Tactic.FieldSimp
import Mathlib.Tactic.Linarith
import Mathlib.Tactic.NormNum
import TypeDrift.Numeral.Double

/-! # The nearest double

Rounding goes to the nearest of the numbers that a double can be, and of two equally near ones to the one
with an even last digit; and it goes on as if exponents had no upper bound, so that what arrives at
2 ^ 1024 or beyond is infinity.  These numbers are those of `Floating`, and `IsNearest` is the rule.
There is exactly one nearest number (`existsUnique_isNearest`): the numbers as large as a given one, or
larger, lie on a grid, and those that do not are smaller than a point of the grid below it
(`Binade.isNearest_iff`).  Hence the nearest number is found by rounding to a whole number of steps of
the grid.

Whether it is a whole number, and not infinity, is what `nearestIsWhole` decides
(`nearestIsWhole_iff`).
-/
namespace TypeDrift.Double

/-! ## Rounding to whole numbers -/

/-- The whole number nearest to a number; of two equally near ones, the even one. -/
structure IsRounded (y : ℚ) (k : ℕ) : Prop where
  near : |y - k| ≤ 1 / 2
  even : |y - k| = 1 / 2 → Even k

namespace IsRounded
variable {y : ℚ} {j k : ℕ}

/-- Two whole numbers have at least a distance of one. -/
theorem one_le_of_ne (hne : j ≠ k) : (1 : ℚ) ≤ |(j : ℚ) - k| := by
  have hint : (1 : ℤ) ≤ |(j : ℤ) - k| := Int.one_le_abs (sub_ne_zero.mpr (by exact_mod_cast hne))
  exact_mod_cast hint

/-- Any other whole number is no nearer, and as near only at half a step. -/
theorem half_le_of_ne (h : IsRounded y k) (hne : j ≠ k) : 1 / 2 ≤ |y - j| := by
  have hstep := one_le_of_ne hne
  have htriangle := abs_sub_le (j : ℚ) y k
  have hnear := h.near
  rw [abs_sub_comm (j : ℚ) y] at htriangle
  linarith

theorem le (h : IsRounded y k) (j : ℕ) : |y - k| ≤ |y - j| := by
  by_cases hne : j = k
  · rw [hne]
  · exact h.near.trans (h.half_le_of_ne hne)

theorem unique (hj : IsRounded y j) (hk : IsRounded y k) : j = k := by
  by_contra hne
  have hnear := hk.half_le_of_ne hne
  have hnear' := hj.half_le_of_ne (Ne.symm hne)
  have heven := hj.even (le_antisymm hj.near hnear)
  have heven' := hk.even (le_antisymm hk.near hnear')
  -- Two even numbers have a distance of two, which is more than twice half a step.
  have hdistance : |(j : ℚ) - k| ≤ 1 := by
    have htriangle := abs_sub_le (j : ℚ) y k
    rw [abs_sub_comm (j : ℚ) y] at htriangle
    linarith [hj.near, hk.near]
  have hint : |(j : ℤ) - k| ≤ 1 := by exact_mod_cast hdistance
  rw [abs_le] at hint
  obtain ⟨m, rfl⟩ := heven
  obtain ⟨n, rfl⟩ := heven'
  omega

end IsRounded

theorem isRounded_roundHalfEven {num den : ℕ} (hden : 0 < den) :
    IsRounded (num / den) (roundHalfEven num den) := by
  have hdenq : (0 : ℚ) < den := by exact_mod_cast hden
  obtain ⟨quotient, hquotient⟩ : ∃ quotient, quotient = num / den := ⟨_, rfl⟩
  obtain ⟨part, hpart⟩ : ∃ part : ℚ, part = (num % den : ℕ) / den := ⟨_, rfl⟩
  have hratio : (num : ℚ) / den = quotient + part := by
    have hdivision : (num : ℚ) = den * (num / den : ℕ) + (num % den : ℕ) := by
      exact_mod_cast (Nat.div_add_mod num den).symm
    rw [hquotient, hpart, hdivision]
    field_simp
  have hnonneg : 0 ≤ part := by rw [hpart]; positivity
  have hbelowOne : part < 1 := by
    rw [hpart, div_lt_one hdenq]
    exact_mod_cast Nat.mod_lt num hden
  have hbelow : 2 * (num % den) < den ↔ part < 1 / 2 := by
    rw [hpart, div_lt_iff₀ hdenq, ← Nat.cast_lt (α := ℚ), Nat.cast_mul, Nat.cast_two]
    constructor <;> intro h <;> linarith
  have habove : den < 2 * (num % den) ↔ 1 / 2 < part := by
    rw [hpart, lt_div_iff₀ hdenq, ← Nat.cast_lt (α := ℚ), Nat.cast_mul, Nat.cast_two]
    constructor <;> intro h <;> linarith
  have hdown : |(quotient : ℚ) + part - quotient| = part := by
    rw [add_sub_cancel_left, abs_of_nonneg hnonneg]
  have hup : |(quotient : ℚ) + part - (quotient + 1 : ℕ)| = 1 - part := by
    rw [Nat.cast_succ, add_sub_add_left_eq_sub, abs_sub_comm, abs_of_nonneg (by linarith)]
  simp only [roundHalfEven, hbelow, habove, ← hquotient, hratio]
  split
  · exact ⟨by linarith, fun h => by linarith⟩
  · split
    · exact ⟨by linarith, fun h => by linarith⟩
    · split
      · next heven => exact ⟨by linarith, fun _ => Nat.even_iff.mpr heven⟩
      · next hodd =>
        exact ⟨by linarith, fun _ => Nat.even_add_one.mpr fun heven => hodd (Nat.even_iff.mp heven)⟩

theorem exists_isRounded {y : ℚ} (hy : 0 ≤ y) : ∃ k, IsRounded y k := by
  have hnum : ((y.num.toNat : ℕ) : ℚ) = y.num := by
    exact_mod_cast Int.toNat_of_nonneg (Rat.num_nonneg.mpr hy)
  have hrounded : IsRounded ((y.num.toNat : ℕ) / y.den) _ := isRounded_roundHalfEven y.den_pos
  rw [hnum, Rat.num_div_den] at hrounded
  exact ⟨_, hrounded⟩

/-! ## The numbers that rounding goes to -/

/-- A number with at most 53 binary digits and no place below the 1074th, in the form in which a double
holds it: all digits are used, or it has its last digit in the least place. -/
structure Floating where
  digits : ℕ
  scale : ℤ
  fits : digits < 2 ^ 53
  least : -1074 ≤ scale
  normal : 2 ^ 52 ≤ digits ∨ scale = -1074

namespace Floating

/-- The number itself. -/
def value (f : Floating) : ℚ := f.digits * 2 ^ f.scale

/-- A number from here on is no double, and counts as infinity. -/
def IsFinite (f : Floating) : Prop := f.value < 2 ^ 1024

/-- A double, and a whole number. -/
def IsWhole (f : Floating) : Prop := f.IsFinite ∧ ∃ number : ℕ, f.value = number

theorem two_zpow_pos (s : ℤ) : (0 : ℚ) < 2 ^ s := zpow_pos two_pos s

theorem value_nonneg (f : Floating) : 0 ≤ f.value :=
  mul_nonneg (Nat.cast_nonneg _) (two_zpow_pos _).le

theorem value_lt (f : Floating) : f.value < 2 ^ 53 * 2 ^ f.scale :=
  mul_lt_mul_of_pos_right (by exact_mod_cast f.fits) (two_zpow_pos _)

theorem isWhole_of_value_eq_zero {f : Floating} (h : f.value = 0) : f.IsWhole :=
  ⟨h.trans_lt (pow_pos two_pos 1024), 0, by rw [h, Nat.cast_zero]⟩

/-- A number with a higher last place is a multiple of a lower one. -/
theorem exists_multiple {f : Floating} {s : ℤ} (h : s ≤ f.scale) :
    f.value = (f.digits * 2 ^ (f.scale - s).toNat : ℕ) * 2 ^ s := by
  have hscale : f.scale = (f.scale - s).toNat + s := by omega
  rw [value, Nat.cast_mul, Nat.cast_pow, Nat.cast_two, mul_assoc]
  congr 1
  rw [← zpow_natCast, ← zpow_add₀ two_ne_zero, ← hscale]

/-- The form of a number is determined by it. -/
theorem ext_value {f g : Floating} (h : f.value = g.value) : f = g := by
  wlog hle : f.scale ≤ g.scale generalizing f g
  · exact (this h.symm (by omega)).symm
  have hdigits : f.digits = g.digits * 2 ^ (g.scale - f.scale).toNat := by
    rw [exists_multiple hle, value] at h
    exact_mod_cast mul_right_cancel₀ (two_zpow_pos f.scale).ne' h
  have hscale : f.scale = g.scale := by
    by_contra hne
    -- Otherwise the digits of the one would be twice those of the other or more, which are too many.
    have hnormal : 2 ^ 52 ≤ g.digits := g.normal.resolve_right (by have := f.least; omega)
    obtain ⟨n, hn⟩ : ∃ n, (g.scale - f.scale).toNat = n + 1 := ⟨(g.scale - f.scale).toNat - 1, by omega⟩
    have hpow : 1 ≤ 2 ^ n := Nat.one_le_two_pow
    have hfits := f.fits
    rw [hn, pow_succ] at hdigits
    nlinarith
  have hsame : f.digits = g.digits := by simpa [hscale] using hdigits
  cases f
  cases g
  simp_all

/-- Numbers of steps of a grid on which the last place of a number lies. -/
def OnGrid (k : ℕ) (s : ℤ) : Prop := k ≤ 2 ^ 53 ∧ -1074 ≤ s ∧ (2 ^ 52 ≤ k ∨ s = -1074)

theorem exists_of_onGrid {k : ℕ} {s : ℤ} (h : OnGrid k s) :
    ∃ f : Floating, f.value = k * 2 ^ s ∧ (Even f.digits ↔ Even k) := by
  obtain ⟨hk, hs, hnormal⟩ := h
  rcases hk.lt_or_eq with hlt | heq
  · exact ⟨⟨k, s, hlt, hs, hnormal⟩, rfl, Iff.rfl⟩
  · refine ⟨⟨2 ^ 52, s + 1, by norm_num, by omega, .inl le_rfl⟩, ?_, ?_⟩
    · rw [value, heq, zpow_add_one₀ two_ne_zero]
      push_cast
      ring
    · rw [heq]
      have heven : Even (2 ^ 52) := by decide
      exact iff_of_true heven (by decide)

end Floating

/-! ## Rounding -/

open Floating

/-- The nearest number; of two equally near ones, the one with an even last digit. -/
structure IsNearest (x : ℚ) (f : Floating) : Prop where
  least : ∀ g : Floating, |x - f.value| ≤ |x - g.value|
  even : ∀ g : Floating, g.value ≠ f.value → |x - g.value| = |x - f.value| → Even f.digits

/-- The last place of the numbers as large as `x`. -/
structure Binade (x : ℚ) (s : ℤ) : Prop where
  nonneg : 0 ≤ x
  least : -1074 ≤ s
  above : x < 2 ^ 53 * 2 ^ s
  below : 2 ^ 52 * 2 ^ s ≤ x ∨ s = -1074

theorem exists_binade {x : ℚ} (hx : 0 ≤ x) : ∃ s, Binade x s := by
  have hcombine (e : ℕ) (s : ℤ) : (2 : ℚ) ^ e * 2 ^ s = 2 ^ (e + s) := by
    rw [zpow_add₀ two_ne_zero, zpow_natCast]
  have hle {s t : ℤ} (h : s ≤ t) : (2 : ℚ) ^ s ≤ 2 ^ t := zpow_le_zpow_right₀ one_le_two h
  rcases hx.eq_or_lt with rfl | hpos
  · exact ⟨-1074, le_rfl, le_rfl, mul_pos (by norm_num) (two_zpow_pos _), .inr rfl⟩
  · have hlog := Int.zpow_log_le_self (b := 2) one_lt_two hpos
    have hlog' := Int.lt_zpow_succ_log_self (b := 2) one_lt_two x
    rw [Nat.cast_two] at hlog hlog'
    refine ⟨max (-1074) (Int.log 2 x - 52), hx, le_max_left _ _, ?_, ?_⟩
    · rw [hcombine]
      exact hlog'.trans_le (hle (by omega))
    · rw [hcombine]
      rcases le_total (-1074) (Int.log 2 x - 52) with h | h
      · exact .inl ((hle (by omega)).trans hlog)
      · exact .inr (max_eq_left h)

namespace Binade
variable {x : ℚ} {s : ℤ} (h : Binade x s)
include h

theorem steps_nonneg : 0 ≤ x / 2 ^ s := div_nonneg h.nonneg (two_zpow_pos s).le

theorem steps_lt : x / 2 ^ s < 2 ^ 53 := (div_lt_iff₀ (two_zpow_pos s)).mpr h.above

omit h in
/-- Distances are counted in steps of the grid. -/
theorem distance (k : ℕ) : |x - k * 2 ^ s| = |x / 2 ^ s - k| * 2 ^ s := by
  have hpos := two_zpow_pos s
  calc |x - k * 2 ^ s| = |(x / 2 ^ s - k) * 2 ^ s| := by
        rw [sub_mul, div_mul_cancel₀ _ hpos.ne']
    _ = |x / 2 ^ s - k| * 2 ^ s := by rw [abs_mul, abs_of_pos hpos]

/-- The points of the grid that are nearest are all numbers that rounding can go to. -/
theorem onGrid {k : ℕ} (hk : |x / 2 ^ s - k| ≤ 1 / 2) : OnGrid k s := by
  have hlt := h.steps_lt
  rw [abs_le] at hk
  refine ⟨?_, h.least, h.below.imp_left fun hbelow => ?_⟩
  · have hk' : (k : ℚ) < (2 ^ 53 + 1 : ℕ) := by push_cast; linarith
    exact Nat.lt_succ_iff.mp (by exact_mod_cast hk')
  · have hsteps : 2 ^ 52 ≤ x / 2 ^ s := (le_div_iff₀ (two_zpow_pos s)).mpr hbelow
    have hk' : ((2 ^ 52 : ℕ) : ℚ) < (k + 1 : ℕ) := by push_cast; linarith
    exact Nat.lt_succ_iff.mp (by exact_mod_cast hk')

/-- A number that is on no point of the grid lies below one that is no larger than `x`. -/
theorem multiple_or_below (g : Floating) :
    (∃ j : ℕ, g.value = j * 2 ^ s) ∨ g.value < 2 ^ 52 * 2 ^ s ∧ 2 ^ 52 * 2 ^ s ≤ x := by
  rcases le_or_gt s g.scale with hle | hlt
  · exact .inl ⟨_, exists_multiple hle⟩
  · have hbelow := h.below.resolve_right (by have := g.least; omega)
    have hstep : (2 : ℚ) ^ g.scale * 2 ≤ 2 ^ s := by
      rw [← zpow_add_one₀ two_ne_zero]
      exact zpow_le_zpow_right₀ one_le_two (by omega)
    have hvalue := g.value_lt
    exact .inr ⟨by linarith, hbelow⟩

omit h in
/-- A point of the grid that is a nearest one is nearer than the numbers on none. -/
theorem lt_of_below {k : ℕ} (hk : IsRounded (x / 2 ^ s) k) {g : Floating}
    (hg : g.value < 2 ^ 52 * 2 ^ s) (hx : 2 ^ 52 * 2 ^ s ≤ x) : |x - k * 2 ^ s| < |x - g.value| := by
  calc |x - k * 2 ^ s| = |x / 2 ^ s - k| * 2 ^ s := distance k
    _ ≤ |x / 2 ^ s - (2 ^ 52 : ℕ)| * 2 ^ s :=
        mul_le_mul_of_nonneg_right (hk.le _) (two_zpow_pos s).le
    _ = |x - (2 ^ 52 : ℕ) * 2 ^ s| := (distance _).symm
    _ = x - 2 ^ 52 * 2 ^ s := by
        rw [Nat.cast_pow, Nat.cast_two, abs_of_nonneg (sub_nonneg.mpr hx)]
    _ < x - g.value := sub_lt_sub_left hg x
    _ ≤ |x - g.value| := le_abs_self _

/-- **The nearest number is that with the nearest whole number of steps.** -/
theorem isNearest_iff {f : Floating} :
    IsNearest x f ↔ ∃ k, IsRounded (x / 2 ^ s) k ∧ f.value = k * 2 ^ s := by
  have hpos := two_zpow_pos s
  have hsteps {j k : ℕ} : |x - j * 2 ^ s| ≤ |x - k * 2 ^ s| ↔
      |x / 2 ^ s - j| ≤ |x / 2 ^ s - k| := by
    rw [distance, distance, mul_le_mul_iff_of_pos_right hpos]
  constructor
  · intro hf
    obtain ⟨k, hk⟩ := exists_isRounded h.steps_nonneg
    obtain ⟨g, hg, -⟩ := exists_of_onGrid (h.onGrid hk.near)
    have hleast := hf.least g
    rw [hg] at hleast
    rcases h.multiple_or_below f with ⟨j, hj⟩ | ⟨hbelow, hx⟩
    · rw [hj, hsteps] at hleast
      have hnear : |x / 2 ^ s - j| ≤ 1 / 2 := hleast.trans hk.near
      refine ⟨j, ⟨hnear, fun hhalf => ?_⟩, hj⟩
      by_cases hkj : k = j
      · exact hkj ▸ hk.even (hkj ▸ hhalf)
      · -- The other point at half a step is as near, so that the last digit is even.
        obtain ⟨f', hf', hparity⟩ := exists_of_onGrid (h.onGrid hnear)
        obtain rfl : f' = f := ext_value (hf'.trans hj.symm)
        refine hparity.mp (hf.even g ?_ ?_)
        · rw [hg, hj]
          exact fun heq => hkj (Nat.cast_injective (mul_right_cancel₀ hpos.ne' heq))
        · rw [hg, hj, distance, distance, hhalf]
          congr 1
          exact le_antisymm hk.near (hhalf ▸ hleast)
    · exact absurd hleast (lt_of_below hk hbelow hx).not_ge
  · rintro ⟨k, hk, hf⟩
    obtain ⟨f', hf', hparity⟩ := exists_of_onGrid (h.onGrid hk.near)
    obtain rfl : f' = f := ext_value (hf'.trans hf.symm)
    constructor
    · intro g
      rcases h.multiple_or_below g with ⟨j, hj⟩ | ⟨hbelow, hx⟩
      · rw [hf, hj, hsteps]
        exact hk.le j
      · rw [hf]
        exact (lt_of_below hk hbelow hx).le
    · intro g hne htie
      rcases h.multiple_or_below g with ⟨j, hj⟩ | ⟨hbelow, hx⟩
      · have hjk : j ≠ k := fun heq => hne (by rw [hj, hf, heq])
        rw [hf, hj, distance, distance, mul_left_inj' hpos.ne'] at htie
        exact hparity.mpr (hk.even (le_antisymm hk.near (htie ▸ hk.half_le_of_ne hjk)))
      · rw [hf] at htie
        exact absurd htie (lt_of_below hk hbelow hx).ne'

end Binade

/-- **There is exactly one nearest number.** -/
theorem existsUnique_isNearest {x : ℚ} (hx : 0 ≤ x) : ∃! f, IsNearest x f := by
  obtain ⟨s, h⟩ := exists_binade hx
  obtain ⟨k, hk⟩ := exists_isRounded h.steps_nonneg
  obtain ⟨f, hf, -⟩ := exists_of_onGrid (h.onGrid hk.near)
  refine ⟨f, h.isNearest_iff.mpr ⟨k, hk, hf⟩, fun g hg => ext_value ?_⟩
  obtain ⟨j, hj, hvalue⟩ := h.isNearest_iff.mp hg
  rw [hvalue, hf, hj.unique hk]

/-! ## Infinity -/

namespace Floating

/-- The largest double. -/
def largest : Floating := ⟨2 ^ 53 - 1, 971, by norm_num, by norm_num, .inl (by norm_num)⟩

/-- The number behind it, which is none. -/
def beyond : Floating := ⟨2 ^ 52, 972, by norm_num, by norm_num, .inl le_rfl⟩

theorem value_largest : largest.value = (2 ^ 54 - 2) * 2 ^ 970 := by
  have hscale : (2 : ℚ) ^ (971 : ℤ) = 2 * 2 ^ 970 := by
    rw [← pow_succ']
    exact zpow_natCast 2 971
  rw [value, largest, hscale]
  generalize (2 : ℚ) ^ 970 = unit
  norm_num
  ring

theorem two_pow_1024 : (2 : ℚ) ^ 1024 = 2 ^ 54 * 2 ^ 970 := (pow_add 2 54 970)

theorem value_beyond : beyond.value = 2 ^ 54 * 2 ^ 970 := by
  have hscale : (2 : ℚ) ^ (972 : ℤ) = 2 ^ 2 * 2 ^ 970 := by
    rw [← pow_add]
    exact zpow_natCast 2 972
  rw [value, beyond, hscale]
  generalize (2 : ℚ) ^ 970 = unit
  norm_num
  ring

theorem IsFinite.le_largest {f : Floating} (h : f.IsFinite) : f.value ≤ largest.value := by
  have hscale : f.scale ≤ 971 := by
    by_contra hlarge
    have hdigits : 2 ^ 52 ≤ f.digits := f.normal.resolve_right (by omega)
    have hpow : (2 : ℚ) ^ (972 : ℤ) ≤ 2 ^ f.scale := zpow_le_zpow_right₀ one_le_two (by omega)
    have hbeyond : beyond.value ≤ f.value :=
      mul_le_mul (by exact_mod_cast hdigits) hpow (two_zpow_pos _).le (Nat.cast_nonneg _)
    rw [value_beyond, ← two_pow_1024] at hbeyond
    exact absurd h hbeyond.not_gt
  have hdigits : f.digits ≤ 2 ^ 53 - 1 := Nat.le_sub_one_of_lt f.fits
  have hpow : (2 : ℚ) ^ f.scale ≤ 2 ^ (971 : ℤ) := zpow_le_zpow_right₀ one_le_two hscale
  exact mul_le_mul (by exact_mod_cast hdigits) hpow (two_zpow_pos _).le (Nat.cast_nonneg _)

end Floating

theorem cast_overflow : (overflow : ℚ) = (2 ^ 54 - 1) * 2 ^ 970 := by
  unfold overflow
  generalize 970 = e
  rw [Nat.pow_eq, Nat.pow_eq, Nat.cast_mul, Nat.cast_pow 2 e, Nat.cast_two]
  norm_num

theorem overflow_le : (overflow : ℚ) ≤ 2 ^ 1024 := by
  rw [cast_overflow, two_pow_1024]
  exact mul_le_mul_of_nonneg_right (by norm_num) (pow_pos two_pos 970).le

/-- **Rounding arrives at infinity from `overflow` on**, which lies half-way between the largest double
and the number behind it. -/
theorem IsNearest.isFinite_iff {x : ℚ} {f : Floating} (h : IsNearest x f) :
    f.IsFinite ↔ x < overflow := by
  have hbeyond := h.least beyond
  have hlargest := h.least largest
  have hfinite : f.IsFinite → f.value ≤ largest.value := IsFinite.le_largest
  have hinfinite : ¬f.IsFinite → beyond.value ≤ f.value := by
    rw [value_beyond, ← two_pow_1024]
    exact not_lt.mp
  have hodd : f.value = largest.value → ¬Even f.digits := by
    intro heq
    rw [ext_value heq]
    decide
  rw [cast_overflow]
  have hpos : (0 : ℚ) < 2 ^ 970 := pow_pos two_pos 970
  have heven := h.even beyond
  rw [value_beyond] at hbeyond hinfinite heven
  rw [value_largest] at hlargest hfinite hodd
  generalize (2 : ℚ) ^ 970 = unit at *
  constructor
  · intro hf
    by_contra hover
    have hbelow := hfinite hf
    have hdown : |x - f.value| = x - f.value := abs_of_nonneg (by linarith)
    rw [hdown] at hbeyond heven
    rcases le_total (2 ^ 54 * unit) x with hx | hx
    · rw [abs_of_nonneg (sub_nonneg.mpr hx)] at hbeyond
      linarith
    · -- Half-way between the two, the last digit of the largest double decides.
      rw [abs_of_nonpos (sub_nonpos.mpr hx)] at hbeyond heven
      exact hodd (by linarith) (heven (by linarith) (by linarith))
  · intro hx
    by_contra hf
    have habove := hinfinite hf
    have hup : |x - f.value| = f.value - x := by
      rw [abs_of_nonpos (by linarith), neg_sub]
    rw [hup] at hlargest
    have hless : |x - (2 ^ 54 - 2) * unit| < f.value - x := by
      rw [abs_lt]
      constructor <;> linarith
    exact hlargest.not_gt hless

/-! ## Whole numbers -/

/-- From the place before the point on, numbers are whole. -/
theorem Binade.exists_whole {x : ℚ} {s : ℤ} (hs : Binade x s) (hscale : 0 ≤ s) {f : Floating}
    (h : IsNearest x f) : ∃ number : ℕ, f.value = number := by
  obtain ⟨k, -, hvalue⟩ := hs.isNearest_iff.mp h
  refine ⟨k * 2 ^ s.toNat, ?_⟩
  rw [hvalue, Nat.cast_mul, Nat.cast_pow, Nat.cast_two, ← zpow_natCast, Int.toNat_of_nonneg hscale]

/-- A number from 2 ^ 52 on has no places behind its point. -/
theorem IsNearest.exists_whole {x : ℚ} {f : Floating} (h : IsNearest x f) (hx : 2 ^ 52 ≤ x) :
    ∃ number : ℕ, f.value = number := by
  obtain ⟨s, hs⟩ := exists_binade ((by norm_num : (0 : ℚ) ≤ 2 ^ 52).trans hx)
  refine hs.exists_whole ?_ h
  by_contra hneg
  have hpow : (2 : ℚ) ^ s ≤ 2 ^ (-1 : ℤ) := zpow_le_zpow_right₀ one_le_two (by omega)
  have habove := hs.above
  norm_num at hpow
  linarith

/-- A whole number is rounded to a whole number. -/
theorem IsNearest.exists_whole_of_nat {number : ℕ} {f : Floating} (h : IsNearest number f) :
    ∃ number : ℕ, f.value = number := by
  obtain ⟨s, hs⟩ := exists_binade (Nat.cast_nonneg (α := ℚ) number)
  rcases le_or_gt 0 s with hscale | hscale
  · exact hs.exists_whole hscale h
  · -- Its steps are counted without a rest.
    have hsteps : (number : ℚ) / 2 ^ s = (number * 2 ^ (-s).toNat : ℕ) := by
      rw [Nat.cast_mul, Nat.cast_pow, Nat.cast_two, ← zpow_natCast, Int.toNat_of_nonneg (by omega),
        zpow_neg, div_eq_mul_inv]
    have hself : IsRounded ((number * 2 ^ (-s).toNat : ℕ) : ℚ) (number * 2 ^ (-s).toNat) := by
      refine ⟨by norm_num, fun hhalf => ?_⟩
      rw [sub_self, abs_zero] at hhalf
      norm_num at hhalf
    obtain ⟨k, hk, hvalue⟩ := hs.isNearest_iff.mp h
    rw [hsteps] at hk
    refine ⟨number, ?_⟩
    rw [hvalue, hk.unique hself, ← hsteps, div_mul_cancel₀ _ (two_zpow_pos s).ne']

/-- The places of a ratio bring it to 53 binary digits, unless there are none or no more. -/
theorem places_spec (num den most : ℕ) :
    (2 ^ 52 * den ≤ num * 2 ^ places num den most ∨ places num den most = most) ∧
      (0 < places num den most → num * 2 ^ places num den most < 2 ^ 53 * den) := by
  induction most generalizing num with
  | zero => exact ⟨.inr rfl, fun h => absurd h (lt_irrefl 0)⟩
  | succ most ih =>
    unfold places
    split
    · next henough => exact ⟨.inl (by simpa using henough), fun h => absurd h (lt_irrefl 0)⟩
    · next hfew =>
      obtain ⟨henough, hfits⟩ := ih (2 * num)
      have hmoved : num * 2 ^ (places (2 * num) den most + 1) =
          2 * num * 2 ^ places (2 * num) den most := by ring
      rw [hmoved]
      refine ⟨henough.imp_right (congrArg (· + 1)), fun _ => ?_⟩
      rcases Nat.eq_zero_or_pos (places (2 * num) den most) with hnone | hsome
      · have hfew : num < 2 ^ 52 * den := not_le.mp hfew
        rw [hnone]
        omega
      · exact hfits hsome

/-- A ratio is counted in steps by moving its places before the point. -/
theorem ratio_div_step (num den p : ℕ) :
    (num : ℚ) / den / 2 ^ (-(p : ℤ)) = (num * 2 ^ p : ℕ) / den := by
  rw [zpow_neg, zpow_natCast, div_inv_eq_mul, Nat.cast_mul, Nat.cast_pow, Nat.cast_two]
  ring

/-- The places of a ratio reach to the last place of the numbers as large as it. -/
theorem binade_places {num den : ℕ} (hden : 0 < den) (hp : 0 < places num den mostPlaces) :
    Binade (num / den) (-(places num den mostPlaces : ℤ)) := by
  have hdenq : (0 : ℚ) < den := by exact_mod_cast hden
  obtain ⟨henough, hfits⟩ := places_spec num den mostPlaces
  have hmost : places num den mostPlaces ≤ 1074 := places_le num den mostPlaces
  have hpos := two_zpow_pos (-(places num den mostPlaces : ℤ))
  refine ⟨by positivity, by omega, ?_, henough.imp (fun henough => ?_) fun hall => ?_⟩
  · rw [← div_lt_iff₀ hpos, ratio_div_step, div_lt_iff₀ hdenq]
    exact_mod_cast hfits hp
  · rw [← le_div_iff₀ hpos, ratio_div_step, le_div_iff₀ hdenq]
    exact_mod_cast henough
  · rw [hall]
    rfl

theorem exists_nat_eq_steps_iff {k p : ℕ} :
    (∃ number : ℕ, (k : ℚ) * 2 ^ (-(p : ℤ)) = number) ↔ 2 ^ p ∣ k := by
  have hpow : (2 : ℚ) ^ p ≠ 0 := pow_ne_zero p two_ne_zero
  simp only [zpow_neg, zpow_natCast, mul_inv_eq_iff_eq_mul₀ hpow]
  constructor
  · rintro ⟨number, hnumber⟩
    refine ⟨number, ?_⟩
    rw [mul_comm] at hnumber
    exact_mod_cast hnumber
  · rintro ⟨number, rfl⟩
    exact ⟨number, by push_cast; ring⟩

/-- **`nearestIsWhole` tells whether the nearest number is a double and a whole number.** -/
theorem nearestIsWhole_iff {num den : ℕ} (hden : 0 < den) {f : Floating}
    (h : IsNearest (num / den) f) : nearestIsWhole num den = true ↔ f.IsWhole := by
  have hdenq : (0 : ℚ) < den := by exact_mod_cast hden
  have hover : overflow * den ≤ num ↔ ¬f.IsFinite := by
    rw [h.isFinite_iff, not_lt, le_div_iff₀ hdenq]
    exact_mod_cast Iff.rfl
  rw [nearestIsWhole, Floating.IsWhole]
  split
  · next hinfinite => exact iff_of_false Bool.false_ne_true fun hwhole => hover.mp hinfinite hwhole.1
  · next hfinite =>
    rw [hover, not_not] at hfinite
    rw [and_iff_right hfinite, beq_iff_eq]
    rcases Nat.eq_zero_or_pos (places num den mostPlaces) with hnone | hsome
    · have hlarge := (places_spec num den mostPlaces).1.resolve_right (by rw [hnone]; decide)
      have hx : 2 ^ 52 ≤ (num : ℚ) / den := by
        rw [hnone, pow_zero, mul_one] at hlarge
        rw [le_div_iff₀ hdenq]
        exact_mod_cast hlarge
      rw [hnone]
      exact iff_of_true (Nat.mod_one _) (h.exists_whole hx)
    · obtain ⟨k, hk, hvalue⟩ := (binade_places hden hsome).isNearest_iff.mp h
      rw [ratio_div_step] at hk
      rw [Nat.pow_eq, (isRounded_roundHalfEven hden).unique hk, hvalue, exists_nat_eq_steps_iff,
        ← Nat.dvd_iff_mod_eq_zero]

/-- A number below half of the least double rounds to zero. -/
theorem IsNearest.value_eq_zero {x : ℚ} {f : Floating} (h : IsNearest x f) (hx : 0 ≤ x)
    (hsmall : x < 2 ^ (-1074 : ℤ) / 2) : f.value = 0 := by
  have hpos := two_zpow_pos (-1074)
  have hbinade : Binade x (-1074) := ⟨hx, le_rfl, by linarith, .inr rfl⟩
  have hsteps : x / 2 ^ (-1074 : ℤ) < 1 / 2 := by
    rw [div_lt_iff₀ hpos]
    linarith
  have hzero : IsRounded (x / 2 ^ (-1074 : ℤ)) 0 := by
    have habs : |x / 2 ^ (-1074 : ℤ) - (0 : ℕ)| = x / 2 ^ (-1074 : ℤ) := by
      rw [Nat.cast_zero, sub_zero, abs_of_nonneg hbinade.steps_nonneg]
    exact ⟨by rw [habs]; exact hsteps.le, fun hhalf => absurd (habs ▸ hhalf) hsteps.ne⟩
  obtain ⟨k, hk, hvalue⟩ := hbinade.isNearest_iff.mp h
  rw [hvalue, hk.unique hzero, Nat.cast_zero, zero_mul]

end TypeDrift.Double
