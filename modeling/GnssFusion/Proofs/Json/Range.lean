import GnssFusion.Proofs.Binary64.Overflow
import GnssFusion.Proofs.Json.Document
import GnssFusion.Proofs.Json.Significand

/-!
Which literals are numbers. A literal whose digits do not fit 64 bits, or that has a fraction
or an exponent, is a whole number of 64 bits times a power of ten (`float?_eq`). Digits, power
and product are rounded, so a literal is taken if its magnitude is below the bound by four
roundings (`ofText?_isSome`), and not taken if it is above by as many (`ofText?_eq_none`). No
number is infinite (`isFinite_of_ofText?`), as quotients by powers of ten stay small.
-/

namespace GnssFusion

namespace Json.Number

open Binary64 (bound slack slack_pow_le_one Near)

theorem within_powerOfTen {n : ℕ} (h : n ≤ 308) :
    Binary64.Within 1 (powerOfTen n) (10 ^ n) := by
  have hvalue : powerOfTen n = .ofQuotient false (10 ^ n * Binary64.one) 1 := by
    have hplaces : ((Nat.toDigits 10 1).length : ℤ) = 1 := rfl
    rw [powerOfTen, Binary64.ofDecimal]
    dsimp only
    rw [hplaces, if_neg (by omega), if_neg (by omega), Decimal.numerator, Decimal.denominator]
    dsimp only
    rw [Int.toNat_natCast, Nat.one_mul, Nat.mul_comm, Int.toNat_of_nonpos (by omega), Nat.pow_zero]
  have hpos : 0 < 10 ^ n := Nat.pow_pos (by decide)
  have hwhole := Binary64.within_whole hpos (Binary64.power_lt_bound h)
  rw [hvalue]
  exact_mod_cast hwhole

theorem wordLimit_lt_bound : wordLimit < bound :=
  Nat.lt_of_mul_lt_mul_right (Binary64.word_lt_bound.trans_le (Nat.mul_le_mul_left _ (by decide)))

section
variable {s n : ℕ}

theorem ofNat_ne_zero (hpos : 0 < s) (h : s < wordLimit) : Binary64.ofNat s ≠ .zero false := by
  obtain ⟨units, hunits, hvalue, hnear⟩ := Binary64.within_ofNat hpos h
  rw [hvalue]
  rintro ⟨⟩
  have hunits := hnear.pos (by exact_mod_cast hpos)
  rw [Nat.cast_zero, zero_div] at hunits
  exact lt_irrefl 0 hunits

theorem power_le_scaled (hpos : 0 < s) (n : ℕ) : (10 : ℚ) ^ n ≤ s * 10 ^ n := by
  have hs : (1 : ℚ) ≤ s := by exact_mod_cast hpos
  exact le_mul_of_one_le_left (by positivity) hs

theorem one_le_scaled (hpos : 0 < s) (n : ℕ) : (1 : ℚ) ≤ s * 10 ^ n :=
  (one_le_pow₀ (by norm_num)).trans (power_le_scaled hpos n)

theorem multiplyByPower?_isSome (hpos : 0 < s) (h : s < wordLimit)
    (hvalue : (s : ℚ) * 10 ^ n < bound * slack ^ 3) :
    (multiplyByPower? (.ofNat s) n).isSome := by
  have hn : n ≤ 308 := by
    by_contra hn
    have hbound : (bound : ℚ) ≤ 10 ^ n := by
      exact_mod_cast Binary64.bound_le_power (Nat.lt_of_not_le hn)
    have hslack : (bound : ℚ) * slack ^ 3 ≤ bound :=
      mul_le_of_le_one_right (Nat.cast_nonneg _) (slack_pow_le_one 3)
    exact absurd hvalue ((hslack.trans hbound).trans (power_le_scaled hpos n)).not_gt
  have hfinite := Binary64.isFinite_mul (Binary64.within_ofNat hpos h)
    (within_powerOfTen hn) (by positivity) (by positivity) (one_le_scaled hpos n)
    (by omega) hvalue
  rw [multiplyByPower?, if_neg (ofNat_ne_zero hpos h), if_neg (by omega)]
  simp [hfinite]

theorem multiplyByPower?_eq_none (hpos : 0 < s) (h : s < wordLimit)
    (hvalue : bound ≤ (s : ℚ) * 10 ^ n * slack ^ 3) :
    multiplyByPower? (.ofNat s) n = none := by
  rw [multiplyByPower?, if_neg (ofNat_ne_zero hpos h)]
  split
  case isTrue => rfl
  case isFalse hn =>
    have hfinite := Binary64.not_isFinite_mul (Binary64.within_ofNat hpos h)
      (within_powerOfTen (Nat.le_of_not_lt hn)) (by positivity) (by positivity)
      (one_le_scaled hpos n) (by omega) hvalue
    simp [hfinite]

theorem ofNat_zero : Binary64.ofNat 0 = .zero false := by
  rw [Binary64.ofNat, Binary64.ofInt, Nat.cast_zero, zero_mul, Binary64.ofUnits, if_pos rfl]

/-- Whether a whole number of 64 bits times a power of ten is taken is decided by its size, save
where its three roundings lie between it and the bound. -/
theorem scaled?_isSome {e : ℤ} (h : s < wordLimit)
    (hvalue : (s : ℚ) * 10 ^ e < bound * slack ^ 3) : (scaled? s e).isSome := by
  rw [scaled?]
  split
  case isFalse => rfl
  case isTrue he =>
    obtain ⟨n, rfl⟩ := Int.eq_ofNat_of_zero_le he
    obtain rfl | hpos := Nat.eq_zero_or_pos s
    · rw [ofNat_zero, multiplyByPower?, if_pos rfl]
      rfl
    · rw [zpow_natCast] at hvalue
      exact multiplyByPower?_isSome hpos h hvalue

theorem scaled?_eq_none {e : ℤ} (h : s < wordLimit)
    (hvalue : bound ≤ (s : ℚ) * 10 ^ e * slack ^ 3) : scaled? s e = none := by
  have hword : (s : ℚ) < bound := by exact_mod_cast h.trans wordLimit_lt_bound
  rw [scaled?]
  split
  case isTrue he =>
    obtain ⟨n, rfl⟩ := Int.eq_ofNat_of_zero_le he
    have hpos : 0 < s := by
      by_contra hs
      obtain rfl : s = 0 := Nat.eq_zero_of_not_pos hs
      rw [Nat.cast_zero] at hword
      rw [Nat.cast_zero, zero_mul, zero_mul] at hvalue
      exact hvalue.not_gt hword
    rw [zpow_natCast] at hvalue
    exact multiplyByPower?_eq_none hpos h hvalue
  case isFalse he =>
    have hpower : (10 : ℚ) ^ e ≤ 1 := zpow_le_one_of_nonpos₀ (by norm_num) (by omega)
    have hs : (s : ℚ) * 10 ^ e ≤ s := mul_le_of_le_one_right (Nat.cast_nonneg s) hpower
    have hscaled : (s : ℚ) * 10 ^ e * slack ^ 3 ≤ s * 10 ^ e :=
      mul_le_of_le_one_right (mul_nonneg (Nat.cast_nonneg s) (zpow_nonneg (by norm_num) e))
        (slack_pow_le_one 3)
    have hle : (bound : ℚ) ≤ s := hvalue.trans (hscaled.trans hs)
    exact absurd hword hle.not_gt

end

end Json.Number

/-! Literals. -/

namespace Json.NumberText

def fractionDigits (literal : NumberText) : List Char := literal.fraction.getD []

def power (literal : NumberText) : ℤ :=
  literal.exponent.elim 0 fun (negative, digits) =>
    if negative then -(digitsValue digits : ℤ) else digitsValue digits

/-- The exact value, without its sign. -/
def magnitude (literal : NumberText) : ℚ :=
  digitsValue (literal.whole ++ literal.fractionDigits)
    * 10 ^ (literal.power - literal.fractionDigits.length)

theorem magnitude_eq (literal : NumberText) :
    literal.magnitude = digitsValue (literal.whole ++ literal.fractionDigits)
      * 10 ^ (-literal.fractionDigits.length : ℤ) * 10 ^ literal.power := by
  rw [magnitude, mul_assoc, ← zpow_add₀ (by norm_num), neg_add_eq_sub]

end Json.NumberText

namespace Json.Number

open Binary64 (bound slack slack_pow_le_one Near)

variable {literal : NumberText}

theorem one_lt_bound : 1 < bound := lt_trans (by decide) wordLimit_lt_bound

theorem bound_pos : (0 : ℚ) < bound := by
  exact_mod_cast Nat.zero_lt_of_lt one_lt_bound

/-- The part of a literal that does not depend on its exponent. -/
def significand (literal : NumberText) : ℕ :=
  (append (append 0 literal.whole).1 literal.fractionDigits).1

def shift (literal : NumberText) : ℤ :=
  (append 0 literal.whole).2.length
    - (literal.fractionDigits.length
      - (append (append 0 literal.whole).1 literal.fractionDigits).2.length : ℕ)

def signedAs (negative : Bool) (x : Binary64) : Binary64 := if negative then -x else x

/-- The magnitude that the parts of a literal have. -/
def read? (significand : ℕ) (shift power : ℤ) : Option Binary64 :=
  if exponentLimit ≤ power.natAbs then
    if significand ≠ 0 ∧ 0 < power then none else some (.zero false)
  else scaled? significand (shift + power)

theorem float?_eq (literal : NumberText) :
    float? literal (append 0 literal.whole).1 (append 0 literal.whole).2
      = (read? (significand literal) (shift literal) literal.power).map
        (signedAs literal.negative) := by
  obtain ⟨negative, whole, fraction, exponent⟩ := literal
  simp only [float?, read?, significand, shift, NumberText.power, NumberText.fractionDigits]
  have hlimit : 0 < exponentLimit := by decide
  cases exponent with
  | none =>
      have hnone : digitsValue [] = 0 := rfl
      simp [hlimit.ne', hnone]
      generalize scaled? _ _ = x
      cases x <;> rfl
  | some exponent =>
      obtain ⟨smaller, digits⟩ := exponent
      by_cases hpower : exponentLimit ≤ digitsValue digits
      · have hpos := hlimit.trans_le hpower
        by_cases hs : (append (append 0 whole).1 (fraction.getD [])).1 = 0 <;> cases smaller <;>
          simp [hpower, hpos, hs, signedAs]
      · cases smaller <;> simp [hpower] <;> generalize scaled? _ _ = x <;> cases x <;> rfl

section
variable {text : List Char} (h : SpellsNumber literal text)
include h

theorem allDigits_whole : AllDigits literal.whole := by
  cases h with
  | mk hwhole => exact hwhole.all

theorem allDigits_fraction : AllDigits literal.fractionDigits := by
  cases h with
  | mk hwhole zero hfraction =>
      cases hfraction with
      | none => exact nofun
      | some hdigits => exact hdigits.all

theorem length_le : literal.whole.length + literal.fractionDigits.length ≤ text.length := by
  cases h with
  | mk hwhole zero hfraction =>
      cases hfraction with
      | none =>
          simp [NumberText.fractionDigits]
          omega
      | some hdigits =>
          simp [NumberText.fractionDigits]
          omega

theorem near_magnitude :
    Near 1 (significand literal * 10 ^ (shift literal + literal.power)) literal.magnitude := by
  have hnear := near_significand (allDigits_whole h) (allDigits_fraction h)
  have hpower : (0 : ℚ) ≤ 10 ^ literal.power := zpow_nonneg (by norm_num) _
  have hdigits : (0 : ℚ) ≤ digitsValue (literal.whole ++ literal.fractionDigits)
      * 10 ^ (-literal.fractionDigits.length : ℤ) :=
    mul_nonneg (Nat.cast_nonneg _) (zpow_nonneg (by norm_num) _)
  rw [literal.magnitude_eq, zpow_add₀ (by norm_num), ← mul_assoc]
  exact hnear.mul Near.rfl hdigits hpower

omit h in
theorem significand_lt : significand literal < wordLimit :=
  append_lt (append_lt (by decide) _) _

/-- A literal is below the power of ten that its digits and its exponent make together. -/
theorem magnitude_le_zpow {e : ℤ} (he : text.length + literal.power ≤ e) :
    literal.magnitude ≤ 10 ^ e := by
  have hdigits : (digitsValue (literal.whole ++ literal.fractionDigits) : ℚ)
      ≤ 10 ^ ((literal.whole ++ literal.fractionDigits).length : ℤ) := by
    rw [zpow_natCast]
    exact_mod_cast (digitsValue_lt ((allDigits_whole h).append (allDigits_fraction h))).le
  have hlen := length_le h
  calc literal.magnitude
      ≤ 10 ^ ((literal.whole ++ literal.fractionDigits).length : ℤ)
        * 10 ^ (literal.power - literal.fractionDigits.length) :=
        mul_le_mul_of_nonneg_right hdigits (zpow_nonneg (by norm_num) _)
    _ = 10 ^ (((literal.whole ++ literal.fractionDigits).length : ℤ)
        + (literal.power - literal.fractionDigits.length)) := by rw [zpow_add₀ (by norm_num)]
    _ ≤ 10 ^ e := by
        refine zpow_le_zpow_right₀ (by norm_num) ?_
        rw [List.length_append]
        omega

/-- A great exponent outweighs the places of a text, if any digit is not zero. -/
theorem le_magnitude (hlength : text.length ≤ 2 ^ 30) (hpower : 2 ^ 31 ≤ literal.power)
    (hpos : significand literal ≠ 0) : bound ≤ literal.magnitude := by
  have hscaled : (0 : ℚ) < significand literal * 10 ^ (shift literal + literal.power) :=
    mul_pos (by exact_mod_cast Nat.pos_of_ne_zero hpos) (zpow_pos (by norm_num) _)
  have hmagnitude : 0 < literal.magnitude := (near_magnitude h).symm.pos hscaled
  have hdigits : (1 : ℚ) ≤ digitsValue (literal.whole ++ literal.fractionDigits) := by
    have hne : digitsValue (literal.whole ++ literal.fractionDigits) ≠ 0 := by
      intro hzero
      rw [NumberText.magnitude, hzero, Nat.cast_zero, zero_mul] at hmagnitude
      exact lt_irrefl 0 hmagnitude
    exact_mod_cast Nat.one_le_iff_ne_zero.mpr hne
  have hlen := length_le h
  obtain ⟨n, hn⟩ := Int.eq_ofNat_of_zero_le
    (show 0 ≤ literal.power - literal.fractionDigits.length by omega)
  have hbound : (bound : ℚ) ≤ 10 ^ n := by
    exact_mod_cast Binary64.bound_le_power (show 308 < n by omega)
  calc (bound : ℚ) ≤ 10 ^ (literal.power - literal.fractionDigits.length) := by
        rwa [hn, zpow_natCast]
    _ ≤ literal.magnitude := le_mul_of_one_le_left (zpow_nonneg (by norm_num) _) hdigits

theorem read?_isSome (hlength : text.length ≤ 2 ^ 30)
    (hvalue : literal.magnitude < bound * slack ^ 4) :
    (read? (significand literal) (shift literal) literal.power).isSome := by
  rw [read?]
  split
  case isTrue hpower =>
    simp only [exponentLimit] at hpower
    split
    case isTrue hbeyond =>
      have hle := le_magnitude h hlength (by omega) hbeyond.1
      have hslack : (bound : ℚ) * slack ^ 4 ≤ bound :=
        mul_le_of_le_one_right bound_pos.le (slack_pow_le_one 4)
      exact absurd (hvalue.trans_le hslack) hle.not_gt
    case isFalse => rfl
  case isFalse =>
    refine scaled?_isSome significand_lt ?_
    have hscaled := (near_magnitude h).2.trans_lt hvalue
    rw [pow_succ slack 3, ← mul_assoc, pow_one] at hscaled
    exact lt_of_mul_lt_mul_right hscaled Binary64.slack_pos.le

theorem bound_le_scaled (hvalue : bound ≤ literal.magnitude * slack ^ 4) :
    (bound : ℚ) ≤ significand literal * 10 ^ (shift literal + literal.power) * slack ^ 3 := by
  calc (bound : ℚ) ≤ literal.magnitude * slack ^ 1 * slack ^ 3 := by
        rw [mul_assoc, ← pow_add]
        exact hvalue
    _ ≤ _ := mul_le_mul_of_nonneg_right (near_magnitude h).1 (Binary64.slack_pow_pos 3).le

theorem read?_eq_none (hlength : text.length ≤ 2 ^ 30)
    (hvalue : bound ≤ literal.magnitude * slack ^ 4) :
    read? (significand literal) (shift literal) literal.power = none := by
  have hscaled := bound_le_scaled h hvalue
  rw [read?]
  split
  case isFalse => exact scaled?_eq_none significand_lt hscaled
  case isTrue hpower =>
    simp only [exponentLimit] at hpower
    split
    case isTrue => rfl
    case isFalse hwithin =>
      exfalso
      by_cases hpos : significand literal = 0
      · rw [hpos, Nat.cast_zero, zero_mul, zero_mul] at hscaled
        exact bound_pos.not_ge hscaled
      · -- A great negative exponent outweighs the digits of the text.
        have hsmall : literal.magnitude ≤ 10 ^ (0 : ℤ) := magnitude_le_zpow h (by omega)
        have hone : (1 : ℚ) < bound := by exact_mod_cast one_lt_bound
        rw [zpow_zero] at hsmall
        have hslack : literal.magnitude * slack ^ 4 ≤ 1 * 1 :=
          mul_le_mul hsmall (slack_pow_le_one 4) (Binary64.slack_pow_pos 4).le one_pos.le
        rw [one_mul] at hslack
        exact hone.not_ge (hvalue.trans hslack)

omit h in
theorem ofText?_of_float (hfloat : ¬ (literal.fraction.isNone ∧ literal.exponent.isNone
    ∧ (append 0 literal.whole).2 = [])) :
    ofText? literal = ((read? (significand literal) (shift literal) literal.power).map
      (signedAs literal.negative)).map .float := by
  rw [← float?_eq]
  exact if_neg hfloat

omit h in
theorem ofText?_of_whole (hwhole : literal.fraction.isNone ∧ literal.exponent.isNone
    ∧ (append 0 literal.whole).2 = []) : (ofText? literal).isSome := by
  have hinteger : ofText? literal = _ := if_pos hwhole
  rw [hinteger]
  split
  · rfl
  · split <;> rfl

omit h in
/-- A literal that is a whole number has nothing behind its digits. -/
theorem parts_of_whole (hwhole : literal.fraction.isNone ∧ literal.exponent.isNone
    ∧ (append 0 literal.whole).2 = []) :
    significand literal = (append 0 literal.whole).1 ∧ shift literal + literal.power = 0 := by
  obtain ⟨hfraction, hexponent, hmore⟩ := hwhole
  rw [Option.isNone_iff_eq_none] at hfraction hexponent
  simp [significand, shift, NumberText.power, NumberText.fractionDigits, hfraction, hexponent,
    hmore, append]

/-- A literal is taken if it is clear of the bound. -/
theorem ofText?_isSome (hlength : text.length ≤ 2 ^ 30)
    (hvalue : literal.magnitude < bound * slack ^ 4) : (ofText? literal).isSome := by
  by_cases hwhole : literal.fraction.isNone ∧ literal.exponent.isNone
      ∧ (append 0 literal.whole).2 = []
  · exact ofText?_of_whole hwhole
  · rw [ofText?_of_float hwhole, Option.isSome_map, Option.isSome_map]
    exact read?_isSome h hlength hvalue

/-- No literal from the bound on is taken, save where its roundings decide. -/
theorem ofText?_eq_none (hlength : text.length ≤ 2 ^ 30)
    (hvalue : bound ≤ literal.magnitude * slack ^ 4) : ofText? literal = none := by
  by_cases hwhole : literal.fraction.isNone ∧ literal.exponent.isNone
      ∧ (append 0 literal.whole).2 = []
  · obtain ⟨-, hscale⟩ := parts_of_whole hwhole
    have hscaled := bound_le_scaled h hvalue
    rw [hscale, zpow_zero, mul_one] at hscaled
    have hle : (bound : ℚ) ≤ significand literal :=
      hscaled.trans (mul_le_of_le_one_right (Nat.cast_nonneg _) (slack_pow_le_one 3))
    have hword : significand literal < wordLimit := significand_lt
    exact absurd hle (not_le.mpr (by exact_mod_cast hword.trans wordLimit_lt_bound))
  · rw [ofText?_of_float hwhole, read?_eq_none h hlength hvalue]
    rfl

end

/-! Numbers are finite. -/

/-- A number without sign of at most so many units. -/
def UpTo (most : ℕ) (x : Binary64) : Prop :=
  ∃ units hunits, x = .finite false units hunits ∧ units ≤ most

theorem UpTo.isFinite {most : ℕ} {x : Binary64} (h : UpTo most x) : x.isFinite := by
  obtain ⟨units, hunits, rfl, -⟩ := h
  rfl

theorem powerOfTen_units {n : ℕ} (h : n ≤ 308) :
    ∃ units hunits, powerOfTen n = .finite false units hunits ∧ Binary64.one ≤ 2 * units
      ∧ (0 < n → 4 * Binary64.one ≤ units) := by
  obtain ⟨units, hunits, hvalue, hnear⟩ := within_powerOfTen h
  have hlow : (10 : ℚ) ^ n * slack * Binary64.one ≤ units := by
    have hle := hnear.1
    rwa [pow_one, le_div_iff₀ Binary64.cast_one_pos] at hle
  have hone : (0 : ℚ) < (Binary64.one : ℕ) := Binary64.cast_one_pos
  have hslack : (1 : ℚ) / 2 ≤ slack := by norm_num [slack]
  refine ⟨units, hunits, hvalue, ?_, fun hn => ?_⟩
  · have hpower : (1 : ℚ) ≤ 10 ^ n := one_le_pow₀ (by norm_num)
    have hshare : (1 : ℚ) / 2 ≤ 10 ^ n * slack := by nlinarith
    have hunits : (Binary64.one : ℚ) ≤ 2 * units := by nlinarith
    exact_mod_cast hunits
  · have hpower : (10 : ℚ) ≤ 10 ^ n := le_self_pow₀ (by norm_num) hn.ne'
    have hshare : (4 : ℚ) ≤ 10 ^ n * slack := by nlinarith
    have hunits : (4 : ℚ) * Binary64.one ≤ units := by nlinarith
    exact_mod_cast hunits

section
variable {most : ℕ} {x : Binary64}

theorem upTo_ofQuotient {num den : ℕ} (h : 2 * (num / den) + 1 ≤ most)
    (hmost : most < Binary64.limit) : UpTo most (.ofQuotient false num den) := by
  have hround := (Binary64.round_le num den).trans h
  exact ⟨_, _, dif_pos (hround.trans_lt hmost), hround⟩

theorem upTo_div (h : UpTo most x) (hmost : 4 * most + 1 < Binary64.limit) {n : ℕ} (hn : n ≤ 308) :
    UpTo (4 * most + 1) (x / powerOfTen n) := by
  obtain ⟨a, ha, rfl, hle⟩ := h
  obtain ⟨b, hb, hvalue, hlow, -⟩ := powerOfTen_units hn
  have hone := Binary64.oneUnits_pos
  rw [hvalue, Binary64.finite_div_finite ha hb (by omega)]
  refine upTo_ofQuotient ?_ hmost
  have hquotient : a * Binary64.one / b ≤ 2 * a := by
    refine Nat.div_le_of_le_mul ?_
    calc a * Binary64.one ≤ a * (2 * b) := Nat.mul_le_mul_left a hlow
      _ = b * (2 * a) := by ring
  omega

/-- Divided by the greatest power of ten, a number is no greater than before. -/
theorem upTo_div_greatest (h : UpTo most x) (hpos : 0 < most) (hmost : most < Binary64.limit) :
    UpTo most (x / powerOfTen 308) := by
  obtain ⟨a, ha, rfl, hle⟩ := h
  obtain ⟨b, hb, hvalue, hlow, hhigh⟩ := powerOfTen_units (le_refl 308)
  have hone := Binary64.oneUnits_pos
  have hlarge := hhigh (by decide)
  rw [hvalue, Binary64.finite_div_finite ha hb (by omega)]
  refine upTo_ofQuotient ?_ hmost
  have hquotient : a * Binary64.one / b ≤ a / 4 := by
    calc a * Binary64.one / b ≤ a * Binary64.one / (4 * Binary64.one) :=
          Nat.div_le_div_left hlarge (Nat.mul_pos (by decide) hone)
      _ = a / 4 := Nat.mul_div_mul_right a 4 hone
  omega

theorem divideByPower_isFinite (hpos : 0 < most) (hmost : 4 * most + 1 < Binary64.limit) (n : ℕ)
    (h : UpTo most x) : (divideByPower x n).isFinite := by
  induction n using Nat.strong_induction_on generalizing x with
  | _ n ih =>
      rw [divideByPower]
      split
      case isTrue hn => exact (upTo_div h hmost hn).isFinite
      case isFalse hn =>
        split
        case isTrue hzero => exact h.isFinite
        case isFalse hne => exact ih (n - 308) (by omega) (upTo_div_greatest h hpos (by omega))

end

theorem ofNat_upTo {n : ℕ} (h : n < wordLimit) :
    ∃ most, 0 < most ∧ 4 * most + 1 < Binary64.limit ∧ UpTo most (.ofNat n) := by
  obtain ⟨units, hunits, hvalue, hle⟩ := Binary64.ofNat_eq_finite_le h
  have hmost {u l : ℕ} (hu : 0 < u) (hl : u * 2 ^ 70 < l) :
      4 * (2 * (2 ^ 64 * u) + 1) + 1 < l := by
    omega
  exact ⟨2 * (2 ^ 64 * Binary64.one) + 1, Nat.succ_pos _,
    hmost Binary64.oneUnits_pos (Binary64.one_mul_two_pow_lt_limit (by decide)), units, hunits,
    hvalue, hle⟩

theorem scaled?_isFinite {s : ℕ} {e : ℤ} {x : Binary64} (hs : s < wordLimit)
    (h : scaled? s e = some x) : x.isFinite := by
  obtain ⟨most, hpos, hmost, hupTo⟩ := ofNat_upTo hs
  rw [scaled?] at h
  split at h
  · rw [multiplyByPower?] at h
    split at h
    · obtain rfl := Option.some.inj h
      exact hupTo.isFinite
    · split at h
      · cases h
      · simp only [Option.ite_none_right_eq_some, Option.some.injEq] at h
        obtain ⟨hfinite, rfl⟩ := h
        exact hfinite
  · obtain rfl := Option.some.inj h
    exact divideByPower_isFinite hpos hmost _ hupTo

theorem isFinite_of_ofText? {literal : NumberText} {number : Number}
    (h : ofText? literal = some number) : number.toFloat.isFinite := by
  by_cases hwhole : literal.fraction.isNone ∧ literal.exponent.isNone
      ∧ (append 0 literal.whole).2 = []
  · have hinteger : ofText? literal = _ := if_pos hwhole
    rw [hinteger] at h
    have hword : (append 0 literal.whole).1 < wordLimit := append_lt (by decide) _
    obtain ⟨most, -, -, hupTo⟩ := ofNat_upTo hword
    split at h
    · obtain rfl := Option.some.inj h
      exact hupTo.isFinite
    · split at h
      · obtain rfl := Option.some.inj h
        exact Binary64.isFinite_neg hupTo.isFinite
      · obtain rfl := Option.some.inj h
        rw [toFloat, Binary64.ofInt_neg (by omega)]
        exact Binary64.isFinite_neg hupTo.isFinite
  · rw [ofText?_of_float hwhole, Option.map_map, Option.map_eq_some_iff] at h
    obtain ⟨x, hx, rfl⟩ := h
    have hfinite : x.isFinite := by
      rw [read?] at hx
      split at hx
      · rw [Option.ite_none_left_eq_some] at hx
        obtain rfl := Option.some.inj hx.2
        rfl
      · exact scaled?_isFinite significand_lt hx
    change (signedAs literal.negative x).isFinite
    rw [signedAs]
    split
    · exact Binary64.isFinite_neg hfinite
    · exact hfinite

end Json.Number
end GnssFusion
