import GnssFusion.Proofs.Json.Range

/-!
How accurate the numbers of literals are. A rounding moves a number by one part in `2 ^ 53`, or
by half a unit where the units are too few for that (`close_round`). So a quotient by a power of
ten is within half a unit and as many roundings as led to it (`closeTo_div`), and one by two
powers within a unit. A third one has nothing left to divide (`divideByPower_small`). All in
all the number of a literal is within six roundings and one unit of the literal
(`exists_units_of_ofText?`).
-/

namespace GnssFusion

namespace Binary64

/-- Two numbers that at most `k` roundings and a distance lie between. -/
def Close (k : ℕ) (distance u w : ℚ) : Prop :=
  w * slack ^ k ≤ u + distance ∧ u * slack ^ k ≤ w + distance

section
variable {j k : ℕ} {c d u v w : ℚ}

theorem Near.close (h : Near k u w) : Close k 0 u w := by
  rw [Close, add_zero, add_zero]
  exact h

namespace Close

theorem trans (huv : Close j c u v) (hvw : Close k d v w) (hc : 0 ≤ c) (hd : 0 ≤ d) :
    Close (j + k) (c + d) u w := by
  have hshare {e : ℚ} (he : 0 ≤ e) (i : ℕ) : e * slack ^ i ≤ e :=
    mul_le_of_le_one_right he (slack_pow_le_one i)
  constructor
  · calc w * slack ^ (j + k) = w * slack ^ k * slack ^ j := by ring
      _ ≤ (v + d) * slack ^ j := mul_le_mul_of_nonneg_right hvw.1 (slack_pow_pos j).le
      _ = v * slack ^ j + d * slack ^ j := add_mul _ _ _
      _ ≤ u + c + d := add_le_add huv.1 (hshare hd j)
      _ = u + (c + d) := add_assoc _ _ _
  · calc u * slack ^ (j + k) = u * slack ^ j * slack ^ k := by ring
      _ ≤ (v + c) * slack ^ k := mul_le_mul_of_nonneg_right huv.2 (slack_pow_pos k).le
      _ = v * slack ^ k + c * slack ^ k := add_mul _ _ _
      _ ≤ w + d + c := add_le_add hvw.2 (hshare hc k)
      _ = w + (c + d) := by ring

theorem mono (h : Close j c u w) (hjk : j ≤ k) (hcd : c ≤ d) (hu : 0 ≤ u) (hw : 0 ≤ w) :
    Close k d u w := by
  constructor
  · calc w * slack ^ k ≤ w * slack ^ j := mul_le_mul_of_nonneg_left (slack_pow_le hjk) hw
      _ ≤ u + c := h.1
      _ ≤ u + d := add_le_add_right hcd u
  · calc u * slack ^ k ≤ u * slack ^ j := mul_le_mul_of_nonneg_left (slack_pow_le hjk) hu
      _ ≤ w + c := h.2
      _ ≤ w + d := add_le_add_right hcd w

theorem div (h : Close k c u w) {p : ℚ} (hp : 0 < p) : Close k (c / p) (u / p) (w / p) := by
  constructor
  · rw [div_mul_eq_mul_div, ← add_div]
    exact div_le_div_of_nonneg_right h.1 hp.le
  · rw [div_mul_eq_mul_div, ← add_div]
    exact div_le_div_of_nonneg_right h.2 hp.le

end Close

/-- Below the numbers with the widest significands the spacing is one unit. -/
theorem close_round (num : ℕ) {den : ℕ} (hden : 0 < den) :
    Close 1 (1 / 2) (round num den) ((num : ℚ) / den) := by
  have hd : (0 : ℚ) < den := by exact_mod_cast hden
  have hquotient : (0 : ℚ) ≤ num / den := by positivity
  by_cases hlarge : 2 ^ 52 ≤ num / den
  · exact (near_round hden hlarge).close.mono le_rfl (by norm_num) (Nat.cast_nonneg _) hquotient
  · have hspacing : spacing (num / den) = 0 := by
      by_cases hzero : num / den = 0
      · rw [hzero]
        rfl
      · have hlog := (Nat.log2_lt hzero).mpr (Nat.lt_of_not_le hlarge)
        unfold spacing
        omega
    have hround : round num den = nearestEven num den := by
      rw [round, hspacing, Nat.pow_zero, Nat.mul_one, Nat.mul_one]
    obtain ⟨hlow, hhigh⟩ := nearestEven_half num hden
    rw [← hround] at hlow hhigh
    have hbelow : (num : ℚ) / den ≤ round num den + 1 / 2 := by
      rw [div_le_iff₀ hd]
      have hcast : (2 * num : ℚ) ≤ 2 * (den * round num den) + den := by exact_mod_cast hlow
      linarith
    have habove : (round num den : ℚ) ≤ num / den + 1 / 2 := by
      rw [← sub_le_iff_le_add, le_div_iff₀ hd]
      have hcast : (2 * (den * round num den) : ℚ) ≤ 2 * num + den := by exact_mod_cast hhigh
      linarith
    constructor
    · exact (mul_le_of_le_one_right hquotient (slack_pow_le_one 1)).trans hbelow
    · exact (mul_le_of_le_one_right (Nat.cast_nonneg _) (slack_pow_le_one 1)).trans habove

end

/-- A number without sign whose units are close to an exact number of them. -/
def CloseTo (k : ℕ) (distance : ℚ) (x : Binary64) (w : ℚ) : Prop :=
  ∃ units hunits, x = .finite false units hunits ∧ Close k distance units w

section
variable {j k : ℕ} {c d v w : ℚ} {x : Binary64}

theorem CloseTo.mono (h : CloseTo j c x w) (hjk : j ≤ k) (hcd : c ≤ d) (hw : 0 ≤ w) :
    CloseTo k d x w := by
  obtain ⟨units, hunits, rfl, hclose⟩ := h
  exact ⟨units, hunits, rfl, hclose.mono hjk hcd (Nat.cast_nonneg units) hw⟩

theorem CloseTo.trans (h : CloseTo j c x v) (hvw : Close k d v w) (hc : 0 ≤ c) (hd : 0 ≤ d) :
    CloseTo (j + k) (c + d) x w := by
  obtain ⟨units, hunits, rfl, hclose⟩ := h
  exact ⟨units, hunits, rfl, hclose.trans hvw hc hd⟩

theorem Near.close_units {u : ℚ} (h : Near k (u / one) v) : Close k 0 u (v * one) := by
  obtain ⟨hlow, hhigh⟩ := h
  rw [le_div_iff₀ cast_one_pos] at hlow
  rw [div_mul_eq_mul_div, div_le_iff₀ cast_one_pos] at hhigh
  have hunits : Near k u (v * one) := ⟨by rwa [mul_right_comm], hhigh⟩
  exact hunits.close

theorem Within.closeTo (h : Within k x v) : CloseTo k 0 x (v * one) := by
  obtain ⟨units, hunits, rfl, hnear⟩ := h
  exact ⟨units, hunits, rfl, hnear.close_units⟩

theorem closeTo_zero_self (k : ℕ) : CloseTo k 0 (zero false) 0 := by
  refine ⟨0, representable_zero, rfl, ?_⟩
  rw [Nat.cast_zero]
  exact (Near.rfl.mono (Nat.zero_le k) le_rfl).close

/-- Zero is close to everything up to one unit. -/
theorem closeTo_zero (hw : 0 ≤ w) (hsmall : w ≤ 1) : CloseTo k 1 (zero false) w := by
  refine ⟨0, representable_zero, rfl, ?_, ?_⟩
  · rw [Nat.cast_zero, zero_add]
    exact (mul_le_of_le_one_right hw (slack_pow_le_one k)).trans hsmall
  · rw [Nat.cast_zero, zero_mul]
    linarith

theorem ofQuotient_of_isFinite {negative : Bool} {num den : ℕ}
    (h : (ofQuotient negative num den).isFinite) :
    ∃ hunits, ofQuotient negative num den = finite negative (round num den) hunits := by
  by_cases hlimit : round num den < limit
  · exact ⟨_, dif_pos hlimit⟩
  · have hinfinite : ofQuotient negative num den = infinite negative := dif_neg hlimit
    rw [hinfinite] at h
    cases h

end
end Binary64

namespace Json.Number

open Binary64 (slack Near Close CloseTo closeTo_zero closeTo_zero_self cast_one_pos)

variable {c w : ℚ} {k n s : ℕ} {x : Binary64}

theorem closeTo_div (hn : n ≤ 308) (h : CloseTo k c x w) (hc : 0 ≤ c)
    (hfinite : (x / powerOfTen n).isFinite) :
    CloseTo (k + 2) (c / 10 ^ n + 1 / 2) (x / powerOfTen n) (w / 10 ^ n) := by
  obtain ⟨a, ha, rfl, hclose⟩ := h
  obtain ⟨b, hb, hvalue, hnear⟩ := within_powerOfTen hn
  have hpower : (0 : ℚ) < 10 ^ n := by positivity
  have hpos : 0 < b := Binary64.pos_of_near hnear hpower
  rw [hvalue, Binary64.finite_div_finite ha hb hpos.ne'] at hfinite ⊢
  obtain ⟨hunits, hquotient⟩ := Binary64.ofQuotient_of_isFinite hfinite
  refine ⟨_, hunits, hquotient, ?_⟩
  have hround := Binary64.close_round (a * Binary64.one) hpos
  -- The divisor is itself a rounded power of ten.
  have hdivisor : Close 1 0 (((a * Binary64.one : ℕ) : ℚ) / b) (a / 10 ^ n) := by
    have hexact : ((a * Binary64.one : ℕ) : ℚ) / b = a / (b / Binary64.one) := by
      rw [div_div_eq_mul_div, Nat.cast_mul]
    rw [hexact]
    exact (Near.rfl.div hnear (Nat.cast_nonneg a) hpower).close
  have hall := (hround.trans hdivisor (by norm_num) le_rfl).trans (hclose.div hpower)
    (by norm_num) (div_nonneg hc hpower.le)
  rw [add_zero, add_comm (1 / 2 : ℚ), add_comm (1 + 1) k] at hall
  exact hall

theorem closeTo_ofNat (h : s < wordLimit) : CloseTo 1 0 (.ofNat s) (s * Binary64.one) := by
  obtain rfl | hpos := Nat.eq_zero_or_pos s
  · rw [ofNat_zero, Nat.cast_zero, zero_mul]
    exact closeTo_zero_self 1
  · exact (Binary64.within_ofNat hpos h).closeTo

/-! Products and quotients. -/

theorem closeTo_multiplyByPower? (h : s < wordLimit)
    (hx : multiplyByPower? (.ofNat s) n = some x) :
    CloseTo 3 0 x (s * 10 ^ n * Binary64.one) := by
  obtain rfl | hpos := Nat.eq_zero_or_pos s
  · rw [ofNat_zero, multiplyByPower?, if_pos rfl] at hx
    obtain rfl := Option.some.inj hx
    rw [Nat.cast_zero, zero_mul, zero_mul]
    exact closeTo_zero_self 3
  · rw [multiplyByPower?, if_neg (ofNat_ne_zero hpos h)] at hx
    split at hx
    case isTrue => cases hx
    case isFalse hn =>
      simp only [Option.ite_none_right_eq_some, Option.some.injEq] at hx
      obtain ⟨hfinite, rfl⟩ := hx
      obtain ⟨num, hproduct, hnear⟩ := Binary64.mul_eq_of_within (Binary64.within_ofNat hpos h)
        (within_powerOfTen (Nat.le_of_not_lt hn)) (by positivity) (by positivity)
      rw [hproduct] at hfinite ⊢
      obtain ⟨hunits, hquotient⟩ := Binary64.ofQuotient_of_isFinite hfinite
      have hround := Binary64.near_round_of_near Binary64.oneUnits_pos hnear
        (one_le_scaled hpos n) (by norm_num)
      exact ⟨_, hunits, hquotient, hround.close_units⟩

theorem divideByPower_zero (n : ℕ) : divideByPower (.zero false) n = .zero false := by
  rw [divideByPower]
  split
  case isFalse => exact if_pos rfl
  case isTrue hn =>
    obtain ⟨b, hb, hvalue, hnear⟩ := within_powerOfTen hn
    have hpos : 0 < b := Binary64.pos_of_near hnear (by positivity)
    have hunits : Binary64.round (0 * Binary64.one) b = 0 := by
      rw [Nat.zero_mul, Binary64.round_zero]
    rw [hvalue, Binary64.zero, Binary64.finite_div_finite Binary64.representable_zero hb hpos.ne',
      Binary64.ofQuotient, dif_pos (by rw [hunits]; exact Binary64.limit_pos)]
    simp only [hunits]
    rfl

theorem cast_le_power {m e : ℕ} (h : m ≤ 10 ^ e) : (m : ℚ) ≤ 10 ^ e := by
  exact_mod_cast h

theorem one_le_power : Binary64.one ≤ 10 ^ 324 := by
  rw [Binary64.one_eq]
  decide +kernel

/-- The units of a whole number of 64 bits, below a power of ten. -/
theorem units_le (h : s < wordLimit) : (s : ℚ) * Binary64.one ≤ 10 ^ 350 := by
  have hs : s ≤ 10 ^ 26 := h.le.trans (by decide)
  calc (s : ℚ) * Binary64.one ≤ 10 ^ 26 * 10 ^ 324 :=
        mul_le_mul (cast_le_power hs) (cast_le_power one_le_power) cast_one_pos.le (by positivity)
    _ = 10 ^ 350 := (pow_add _ _ _).symm

/-- After two divisions by the greatest power of ten there is nothing left. -/
theorem divided_small (h : s < wordLimit) :
    (s : ℚ) * Binary64.one / 10 ^ 308 / 10 ^ 308 ≤ 1 / 8 := by
  have hgreatest : (10 : ℚ) ^ 308 * 10 ^ 308 = 10 ^ 350 * 10 ^ 266 := by
    rw [← pow_add, ← pow_add]
  have hlarge : (1 : ℚ) ≤ 1 / 8 * 10 ^ 266 := by
    calc (1 : ℚ) ≤ 1 / 8 * 10 := by norm_num
      _ ≤ 1 / 8 * 10 ^ 266 :=
        mul_le_mul_of_nonneg_left (le_self_pow₀ (by norm_num) (by norm_num)) (by norm_num)
  rw [div_div, div_le_iff₀ (by positivity), hgreatest, mul_left_comm]
  exact (units_le h).trans (le_mul_of_one_le_right (by positivity) hlarge)

theorem units_div_nonneg (s n : ℕ) : (0 : ℚ) ≤ s * Binary64.one / 10 ^ n :=
  div_nonneg (mul_nonneg (Nat.cast_nonneg s) cast_one_pos.le) (by positivity)

theorem eq_zero_of_closeTo (h : CloseTo 5 (5 / 8) x w) (hw : w ≤ 1 / 8) : x = .zero false := by
  obtain ⟨units, hunits, rfl, -, hclose⟩ := h
  have hslack : (7 : ℚ) / 8 ≤ slack ^ 5 := by norm_num [slack]
  have hless : (units : ℚ) < 1 := by
    by_contra hone
    have hshare := mul_le_mul_of_nonneg_right (not_lt.mp hone) (Binary64.slack_pow_pos 5).le
    linarith
  have hnone : units = 0 := Nat.lt_one_iff.mp (by exact_mod_cast hless)
  subst hnone
  rfl

section
variable (h : s < wordLimit)
include h

theorem closeTo_divideByPower_of_le (hn : n ≤ 308) :
    CloseTo 5 1 (divideByPower (.ofNat s) n) (s * Binary64.one / 10 ^ n) := by
  obtain ⟨most, -, hmost, hupTo⟩ := ofNat_upTo h
  rw [divideByPower, if_pos hn]
  have hquotient := closeTo_div hn (closeTo_ofNat h) le_rfl (upTo_div hupTo hmost hn).isFinite
  exact hquotient.mono (by norm_num) (by norm_num) (units_div_nonneg s n)

/-- What was divided by the greatest power is zero after a second division by it. -/
theorem divideByPower_small {most : ℕ} (hx : CloseTo 3 (1 / 2) x (s * Binary64.one / 10 ^ 308))
    (hupTo : UpTo most x) (hpos : 0 < most) (hmost : most < Binary64.limit) (hn : 308 < n) :
    divideByPower x n = .zero false := by
  rw [divideByPower, if_neg hn.not_ge]
  split
  case isTrue hzero => exact hzero
  case isFalse =>
    have hfinite := (upTo_div_greatest hupTo hpos hmost).isFinite
    have hdistance : (1 : ℚ) / 2 / 10 ^ 308 + 1 / 2 ≤ 5 / 8 := by
      have hpower : (10 : ℚ) ≤ 10 ^ 308 := le_self_pow₀ (by norm_num) (by norm_num)
      have hshare : (1 : ℚ) / 2 / 10 ^ 308 ≤ 1 / 2 / 10 :=
        div_le_div_of_nonneg_left (by norm_num) (by norm_num) hpower
      generalize (1 : ℚ) / 2 / 10 ^ 308 = share at hshare ⊢
      linarith
    have hsecond := (closeTo_div le_rfl hx (by norm_num) hfinite).mono le_rfl hdistance
      (div_nonneg (units_div_nonneg s 308) (by positivity))
    rw [eq_zero_of_closeTo hsecond (divided_small h), divideByPower_zero]

/-- Two divisions are within half a unit each, and beyond them there is nothing left. -/
theorem closeTo_divideByPower_of_lt (hs : 0 < s) (hn : 308 < n) :
    CloseTo 5 1 (divideByPower (.ofNat s) n) (s * Binary64.one / 10 ^ n) := by
  obtain ⟨most, hpos, hmost, hupTo⟩ := ofNat_upTo h
  have hfirst := upTo_div_greatest hupTo hpos (by omega)
  have hcloseTo := closeTo_div le_rfl (closeTo_ofNat h) le_rfl hfirst.isFinite
  have hunits : (s : ℚ) * Binary64.one / 10 ^ n =
      s * Binary64.one / 10 ^ 308 / 10 ^ (n - 308) := by
    rw [div_div, ← pow_add, Nat.add_sub_cancel' hn.le]
  rw [zero_div, zero_add] at hcloseTo
  rw [divideByPower, if_neg hn.not_ge, if_neg (ofNat_ne_zero hs h)]
  have hpositive : (0 : ℚ) ≤ s * Binary64.one / 10 ^ 308 / 10 ^ (n - 308) :=
    hunits ▸ units_div_nonneg s n
  rw [hunits]
  by_cases hrest : n - 308 ≤ 308
  · rw [divideByPower, if_pos hrest]
    have hfinite := (upTo_div hfirst hmost hrest).isFinite
    have hquotient := closeTo_div hrest hcloseTo (by norm_num) hfinite
    refine hquotient.mono le_rfl ?_ hpositive
    have hpower : (1 : ℚ) ≤ 10 ^ (n - 308) := one_le_pow₀ (by norm_num)
    linarith [div_le_self (show (0 : ℚ) ≤ 1 / 2 by norm_num) hpower]
  · have hless := Nat.lt_of_not_le hrest
    rw [divideByPower_small h hcloseTo hfirst hpos (by omega) hless]
    refine closeTo_zero hpositive ?_
    calc (s : ℚ) * Binary64.one / 10 ^ 308 / 10 ^ (n - 308)
        ≤ s * Binary64.one / 10 ^ 308 / 10 ^ 308 :=
          div_le_div_of_nonneg_left (units_div_nonneg s 308) (by positivity)
            (pow_le_pow_right₀ (by norm_num) hless.le)
      _ ≤ 1 / 8 := divided_small h
      _ ≤ 1 := by norm_num

/-- Each division rounds the power and the quotient, and before them the number is rounded. -/
theorem closeTo_divideByPower (n : ℕ) :
    CloseTo 5 1 (divideByPower (.ofNat s) n) (s * Binary64.one / 10 ^ n) := by
  by_cases hn : n ≤ 308
  · exact closeTo_divideByPower_of_le h hn
  · obtain rfl | hs := Nat.eq_zero_or_pos s
    · rw [ofNat_zero, divideByPower_zero, Nat.cast_zero, zero_mul, zero_div]
      exact closeTo_zero le_rfl zero_le_one
    · exact closeTo_divideByPower_of_lt h hs (Nat.lt_of_not_le hn)

/-- A whole number of 64 bits times a power of ten. -/
theorem closeTo_scaled? {e : ℤ} (hx : scaled? s e = some x) :
    CloseTo 5 1 x (s * 10 ^ e * Binary64.one) := by
  have hunits : (0 : ℚ) ≤ s * 10 ^ e * Binary64.one :=
    mul_nonneg (mul_nonneg (Nat.cast_nonneg s) (zpow_nonneg (by norm_num) e)) cast_one_pos.le
  rw [scaled?] at hx
  split at hx
  case isTrue he =>
    obtain ⟨n, rfl⟩ := Int.eq_ofNat_of_zero_le he
    have hproduct := closeTo_multiplyByPower? h hx
    rw [zpow_natCast] at hunits ⊢
    exact hproduct.mono (by norm_num) zero_le_one hunits
  case isFalse he =>
    obtain rfl := Option.some.inj hx
    have hscaled : (s : ℚ) * 10 ^ e * Binary64.one = s * Binary64.one / 10 ^ e.natAbs := by
      have hexponent : e = -(e.natAbs : ℤ) := by omega
      rw [mul_right_comm, div_eq_mul_inv, ← zpow_natCast, ← zpow_neg, ← hexponent]
    rw [hscaled]
    exact closeTo_divideByPower h e.natAbs

end

/-! Literals. -/

section
variable {literal : NumberText} {text : List Char} (h : SpellsNumber literal text)
include h

omit h in
theorem magnitude_nonneg : 0 ≤ literal.magnitude :=
  mul_nonneg (Nat.cast_nonneg _) (zpow_nonneg (by norm_num) _)

omit h in
theorem units_nonneg : 0 ≤ literal.magnitude * Binary64.one :=
  mul_nonneg magnitude_nonneg cast_one_pos.le

/-- The significand that is read, in units. -/
theorem close_significand :
    Close 1 0 (significand literal * 10 ^ (shift literal + literal.power) * Binary64.one)
      (literal.magnitude * Binary64.one) := by
  have hunits := (near_magnitude h).mul (Near.rfl (a := (Binary64.one : ℚ))) magnitude_nonneg
    cast_one_pos.le
  exact hunits.close

/-- A great negative exponent leaves less than one unit of a literal. -/
theorem units_le_one (hlength : text.length ≤ 2 ^ 30) (hpower : literal.power ≤ -2 ^ 31) :
    literal.magnitude * Binary64.one ≤ 1 := by
  have hsmall : literal.magnitude ≤ 10 ^ (-324 : ℤ) := magnitude_le_zpow h (by omega)
  calc literal.magnitude * Binary64.one ≤ 10 ^ (-324 : ℤ) * 10 ^ 324 :=
        mul_le_mul hsmall (cast_le_power one_le_power) cast_one_pos.le
          (zpow_nonneg (by norm_num) _)
    _ = 1 := by
      rw [← zpow_natCast, ← zpow_add₀ (by norm_num)]
      rfl

theorem closeTo_read? (hlength : text.length ≤ 2 ^ 30)
    (hx : read? (significand literal) (shift literal) literal.power = some x) :
    CloseTo 6 1 x (literal.magnitude * Binary64.one) := by
  rw [read?] at hx
  split at hx
  case isTrue hpower =>
    simp only [exponentLimit] at hpower
    rw [Option.ite_none_left_eq_some] at hx
    obtain ⟨hwithin, hx⟩ := hx
    obtain rfl := Option.some.inj hx
    refine closeTo_zero units_nonneg ?_
    by_cases hdigits : significand literal = 0
    · have hnear := near_magnitude h
      rw [hdigits, Nat.cast_zero, zero_mul] at hnear
      rw [hnear.symm.eq_zero, zero_mul]
      exact zero_le_one
    · exact units_le_one h hlength (by omega)
  case isFalse =>
    have hcloseTo : CloseTo 6 (1 + 0) x (literal.magnitude * Binary64.one) :=
      (closeTo_scaled? significand_lt hx).trans (close_significand h) zero_le_one le_rfl
    rwa [add_zero] at hcloseTo

omit h in
theorem toFloat_of_whole (hwhole : literal.fraction.isNone ∧ literal.exponent.isNone
    ∧ (append 0 literal.whole).2 = []) {number : Number}
    (hnumber : ofText? literal = some number) :
    number.toFloat = signedAs literal.negative (.ofNat (significand literal)) := by
  have hinteger : ofText? literal = _ := if_pos hwhole
  rw [hinteger] at hnumber
  rw [(parts_of_whole hwhole).1, signedAs]
  generalize (append 0 literal.whole).1 = n at hnumber ⊢
  cases hnegative : literal.negative with
  | false =>
      rw [hnegative, Bool.not_false, if_pos rfl] at hnumber
      obtain rfl := Option.some.inj hnumber
      rw [toFloat, if_neg Bool.false_ne_true, Binary64.ofNat]
  | true =>
      rw [hnegative, Bool.not_true, if_neg Bool.false_ne_true] at hnumber
      rw [if_pos rfl]
      split at hnumber
      · obtain rfl := Option.some.inj hnumber
        rw [toFloat]
      · obtain rfl := Option.some.inj hnumber
        rw [toFloat, Binary64.ofInt_neg (by omega), Binary64.ofNat]

theorem closeTo_of_whole (hwhole : literal.fraction.isNone ∧ literal.exponent.isNone
    ∧ (append 0 literal.whole).2 = []) :
    CloseTo 6 1 (.ofNat (significand literal)) (literal.magnitude * Binary64.one) := by
  have hsignificand := close_significand h
  rw [(parts_of_whole hwhole).2, zpow_zero, mul_one] at hsignificand
  have hcloseTo := (closeTo_ofNat significand_lt).trans hsignificand le_rfl le_rfl
  exact hcloseTo.mono (by norm_num) (by norm_num) units_nonneg

/-- The number that a literal is taken for has the literal's sign, and its magnitude but for six
roundings and a unit of the smallest numbers. -/
theorem exists_units_of_ofText? (hlength : text.length ≤ 2 ^ 30) {number : Number}
    (hnumber : ofText? literal = some number) :
    ∃ units hunits, number.toFloat = .finite literal.negative units hunits ∧
      Close 6 1 units (literal.magnitude * Binary64.one) := by
  have signed {y : Binary64} (hcloseTo : CloseTo 6 1 y (literal.magnitude * Binary64.one)) :
      ∃ units hunits, signedAs literal.negative y = .finite literal.negative units hunits ∧
        Close 6 1 units (literal.magnitude * Binary64.one) := by
    obtain ⟨units, hunits, rfl, hclose⟩ := hcloseTo
    refine ⟨units, hunits, ?_, hclose⟩
    cases literal.negative <;> rfl
  by_cases hwhole : literal.fraction.isNone ∧ literal.exponent.isNone
      ∧ (append 0 literal.whole).2 = []
  · rw [toFloat_of_whole hwhole hnumber]
    exact signed (closeTo_of_whole h hwhole)
  · rw [ofText?_of_float hwhole, Option.map_map, Option.map_eq_some_iff] at hnumber
    obtain ⟨y, hy, rfl⟩ := hnumber
    exact signed (closeTo_read? h hlength hy)

end

end Json.Number
end GnssFusion
