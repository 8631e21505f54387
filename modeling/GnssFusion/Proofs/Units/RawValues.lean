import GnssFusion.Proofs.Binary64.NearestInteger
import GnssFusion.Units

/-!
Raw values of the receiver and the numbers made of them. A conversion is a division with at
most two roundings, done alike for either sign (`Scales`). Whole numbers of 32 bits lie further
apart than these roundings, so no two of them are made one, and each is returned by
multiplying again and going to the nearest integer (`conversions_keep_raw_values`). Of
millimetres that do not fit 32 bits with a sign the greatest that do are returned
(`millimetres_of_metres`).
-/

namespace GnssFusion.Units

open Binary64

/-- A conversion that divides by `perUnit`. Besides the two roundings nothing is lost, and the
sign is put on afterwards. -/
structure Scales (convert : ℤ → Binary64) (perUnit : ℕ) : Prop where
  pos : 0 < perUnit
  small : perUnit ≤ 10 ^ 15
  within : ∀ n : ℕ, n ≤ 2 ^ 32 → Within 2 (convert n) ((n : ℚ) / perUnit)
  neg : ∀ z, z ≠ 0 → convert (-z) = -convert z

namespace Scales

variable {convert : ℤ → Binary64} {perUnit : ℕ} (h : Scales convert perUnit)
include h

theorem zero : convert 0 = .zero false := by
  have hnone : Within 2 (convert 0) ((0 : ℕ) / perUnit) := h.within 0 (Nat.zero_le _)
  rw [Nat.cast_zero, zero_div] at hnone
  exact hnone.eq_zero

theorem exists_units {n : ℕ} (hpos : 0 < n) (hn : n ≤ 2 ^ 32) :
    ∃ u hu, convert n = finite false u hu ∧ 0 < u := by
  obtain ⟨u, hu, hvalue, hnear⟩ := h.within n hn
  refine ⟨u, hu, hvalue, pos_of_near hnear ?_⟩
  exact div_pos (by exact_mod_cast hpos) (by exact_mod_cast h.pos)

theorem sign_natCast {n : ℕ} (hn : n ≤ 2 ^ 32) :
    (convert n).isFinite ∧ sign? (convert n) = some (n : ℤ).sign := by
  obtain rfl | hpos := Nat.eq_zero_or_pos n
  · rw [Nat.cast_zero, h.zero]
    exact ⟨rfl, rfl⟩
  · obtain ⟨u, hu, hvalue, hunits⟩ := h.exists_units hpos hn
    rw [hvalue, sign?_finite, sign_signed _ hunits,
      Int.sign_eq_one_of_pos (by exact_mod_cast hpos)]
    exact ⟨rfl, rfl⟩

theorem sign {z : ℤ} (hz : z.natAbs ≤ 2 ^ 32) :
    (convert z).isFinite ∧ sign? (convert z) = some z.sign := by
  obtain ⟨n, rfl | rfl⟩ := z.eq_nat_or_neg
  · exact h.sign_natCast hz
  · obtain hzero | hne := eq_or_ne (n : ℤ) 0
    · rw [hzero, neg_zero, h.zero]
      exact ⟨rfl, rfl⟩
    · obtain ⟨hfinite, hsign⟩ := h.sign_natCast (n := n) (by omega)
      rw [h.neg n hne, Int.sign_neg]
      exact ⟨isFinite_neg hfinite, sign?_neg hsign⟩

theorem lt_natCast {m n : ℕ} (hlt : m < n) (hn : n ≤ 2 ^ 32) : (convert m).lt (convert n) := by
  refine (h.within m (hlt.le.trans hn)).lt (h.within n hn) ?_
  have hpos : (0 : ℚ) < perUnit := by exact_mod_cast h.pos
  rw [div_mul_eq_mul_div, div_lt_div_iff_of_pos_right hpos]
  exact natCast_lt_mul_slack_pow (by decide) hlt hn

theorem lt {a b : ℤ} (ha : a.natAbs ≤ 2 ^ 32) (hb : b.natAbs ≤ 2 ^ 32) (hlt : a < b) :
    (convert a).lt (convert b) := by
  obtain hneg | hnonneg := lt_or_ge a 0
  · obtain hneg' | hnonneg' := lt_or_ge b 0
    · -- Of two numbers below zero the one of the greater size is less.
      obtain ⟨m, rfl⟩ := Int.exists_eq_neg_ofNat hneg.le
      obtain ⟨n, rfl⟩ := Int.exists_eq_neg_ofNat hneg'.le
      rw [h.neg m (by omega), h.neg n (by omega)]
      exact neg_lt_neg_of_lt (h.lt_natCast (by omega) (by omega))
    · exact lt_of_neg_of_nonneg (h.sign ha).2 (h.sign hb).2
        (by rw [Int.sign_eq_neg_one_of_neg hneg]; decide) (Int.sign_nonneg_iff.mpr hnonneg')
  · obtain ⟨m, rfl⟩ := Int.eq_ofNat_of_zero_le hnonneg
    obtain ⟨n, rfl⟩ := Int.eq_ofNat_of_zero_le (hnonneg.trans hlt.le)
    exact h.lt_natCast (by omega) hb

theorem nearest {z : ℤ} (hz : z.natAbs ≤ 2 ^ 32) (low high : ℤ) :
    nearestInt low high (convert z * .ofNat perUnit) = clamp low high z := by
  have hsize {n : ℕ} (hn : n ≤ 2 ^ 32) : n ≤ 10 ^ 15 := hn.trans (by decide)
  obtain hneg | hnonneg := lt_or_ge z 0
  · obtain ⟨n, rfl⟩ := Int.exists_eq_neg_ofNat hneg.le
    have hn : n ≤ 2 ^ 32 := by omega
    rw [h.neg n (by omega)]
    exact nearestInt_neg_mul_ofNat (h.within n hn) (hsize hn) h.pos h.small low high
  · obtain ⟨n, rfl⟩ := Int.eq_ofNat_of_zero_le hnonneg
    exact nearestInt_mul_ofNat (h.within n hz) (hsize hz) h.pos h.small low high

end Scales

/-! The conversions. -/

theorem thousandth_eq : thousandth = ofNat 1 / ofNat 1000 := by decide +kernel

theorem tenMillionth_eq : tenMillionth = ofNat 1 / ofNat (10 ^ 7) := by decide +kernel

/-- The fraction that is multiplied with is rounded, and so is the product. -/
theorem scales_mul {fraction : Binary64} {perUnit : ℕ}
    (hfraction : fraction = ofNat 1 / ofNat perUnit) (hpos : 0 < perUnit)
    (hsmall : perUnit ≤ 10 ^ 15) : Scales (fun z => ofInt z * fraction) perUnit where
  pos := hpos
  small := hsmall
  within n hn := by
    have hnear : Within 1 fraction ((1 : ℕ) / perUnit) := by
      rw [hfraction]
      exact .ratio (by decide) hpos hsmall
    rw [Nat.cast_one] at hnear
    have hvalue : (n : ℚ) * (1 / perUnit) = n / perUnit := mul_one_div _ _
    rw [← hvalue]
    refine (Within.ofNat (hn.trans (by decide))).mul hnear (Nat.cast_nonneg n)
      (one_div_nonneg.mpr (Nat.cast_nonneg perUnit)) ?_ (by decide)
    rw [hvalue]
    exact ordinary_ratio (hn.trans (by decide)) hpos hsmall
  neg z hz := by rw [ofInt_neg hz, Binary64.neg_mul]

theorem scales_degrees : Scales degrees (10 ^ 7) :=
  scales_mul tenMillionth_eq (by decide) (by decide)

theorem scales_metresOfInt : Scales metresOfInt 1000 :=
  scales_mul thousandth_eq (by decide) (by decide)

theorem metresPerSecond_neg {speed : ℤ} (h : speed ≠ 0) :
    metresPerSecond (-speed) = -metresPerSecond speed := by
  rw [metresPerSecond, metresPerSecond, ofInt_neg h, Binary64.neg_div]

theorem scales_metresPerSecond : Scales metresPerSecond 100 where
  pos := by decide
  small := by decide
  within n hn := by
    have hratio : Within 1 (ofNat n / ofNat 100) ((n : ℚ) / (100 : ℕ)) :=
      .ratio (hn.trans (by decide)) (by decide) (by decide)
    exact hratio.mono (by decide) (div_nonneg (Nat.cast_nonneg n) (Nat.cast_nonneg 100))
  neg _ hz := metresPerSecond_neg hz

/-! Raw values. -/

/-- What is asked of a conversion so that no raw value of a type is lost by it. -/
structure KeepsRawValues {α : Type} (raw : α → ℤ) (convert : ℤ → Binary64) (perUnit : ℕ) :
    Prop where
  increasing : ∀ a b, raw a < raw b → (convert (raw a)).lt (convert (raw b))
  zero : convert 0 = .zero false
  sign : ∀ a, (convert (raw a)).isFinite ∧ sign? (convert (raw a)) = some (raw a).sign
  negation : ∀ a b, raw a ≠ 0 → raw b = -raw a → convert (raw b) = -convert (raw a)
  /-- The range that the nearest integer is held to does not matter as long as it has the raw
  value. -/
  nearest : ∀ a low high, low ≤ raw a → raw a ≤ high →
    nearestInt low high (convert (raw a) * .ofNat perUnit) = raw a

theorem Scales.keepsRawValues {α : Type} {raw : α → ℤ} {convert : ℤ → Binary64} {perUnit : ℕ}
    (h : Scales convert perUnit) (hraw : ∀ a, (raw a).natAbs ≤ 2 ^ 32) :
    KeepsRawValues raw convert perUnit where
  increasing a b hlt := h.lt (hraw a) (hraw b) hlt
  zero := h.zero
  sign a := h.sign (hraw a)
  negation a b hne hb := by rw [hb, h.neg (raw a) hne]
  nearest a low high hlow hhigh := by rw [h.nearest (hraw a), clamp_of_mem hlow hhigh]

theorem natAbs_toInt_le (a : Int32) : a.toInt.natAbs ≤ 2 ^ 32 := by
  have hlow := a.le_toInt
  have hhigh := a.toInt_lt
  omega

theorem natAbs_toNat_le (a : UInt32) : (a.toNat : ℤ).natAbs ≤ 2 ^ 32 := a.toNat_lt.le

/-- Angles, speeds and lengths keep their order, their zero and their signs, and are read back
by going to the nearest integer, lengths also where they have no sign. -/
theorem conversions_keep_raw_values :
    KeepsRawValues Int32.toInt degrees (10 ^ 7) ∧
    KeepsRawValues Int32.toInt metresPerSecond 100 ∧
    KeepsRawValues Int32.toInt metresOfInt 1000 ∧
    KeepsRawValues (fun a : UInt32 => (a.toNat : ℤ)) metresOfInt 1000 :=
  ⟨scales_degrees.keepsRawValues natAbs_toInt_le,
    scales_metresPerSecond.keepsRawValues natAbs_toInt_le,
    scales_metresOfInt.keepsRawValues natAbs_toInt_le,
    scales_metresOfInt.keepsRawValues natAbs_toNat_le⟩

/-! Millimetres to metres and back. -/

theorem millimetres_metresOfInt {z : ℤ} (hz : z.natAbs ≤ 2 ^ 32) :
    millimetres (metresOfInt z) =
      Int32.ofInt (clamp Int32.minValue.toInt Int32.maxValue.toInt z) := by
  rw [millimetres, scales_metresOfInt.nearest hz]

/-- A length in millimetres is returned by the way to metres and back, and one that is too long
for 32 bits with a sign is held to the longest that is not. -/
theorem millimetres_of_metres :
    (∀ length : Int32, millimetres (metresOfInt length.toInt) = length) ∧
    ∀ length : UInt32, (millimetres (metresOfInt length.toNat)).toInt =
      min (length.toNat : ℤ) Int32.maxValue.toInt := by
  constructor
  · intro length
    rw [millimetres_metresOfInt (natAbs_toInt_le length),
      clamp_of_mem length.minValue_le_toInt length.toInt_le, Int32.ofInt_toInt]
  · intro length
    have hlowest : Int32.minValue.toInt = -2 ^ 31 := rfl
    have hhighest : Int32.maxValue.toInt = 2 ^ 31 - 1 := rfl
    rw [millimetres_metresOfInt (natAbs_toNat_le length), clamp, hlowest, hhighest,
      Int32.toInt_ofInt_of_le (by omega) (by omega)]
    omega

end GnssFusion.Units
