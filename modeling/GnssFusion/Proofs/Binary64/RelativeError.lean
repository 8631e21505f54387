import Mathlib.Tactic.FieldSimp
import Mathlib.Tactic.Linarith
import Mathlib.Tactic.Positivity
import Mathlib.Tactic.Ring
import GnssFusion.Binary64.Arithmetic
import GnssFusion.Binary64.Integer

/-!
Relative errors of computed numbers. One rounding moves a number that is neither tiny nor
huge by at most one part in `2 ^ 53` (`near_round`). `Near` counts such roundings between
two exact numbers and is closed under arithmetic, so a computed number is within as many
roundings of the exact result as operations led to it (`Within`). A comparison of computed
numbers is decided wherever the exact ones are further apart than their roundings.
-/

namespace GnssFusion.Binary64

/-- The least fraction of a number that one rounding leaves of it. -/
def slack : ℚ := 1 - 1 / 2 ^ 53

theorem slack_pos : 0 < slack := by norm_num [slack]

theorem slack_le_one : slack ≤ 1 := by norm_num [slack]

theorem slack_pow_pos (k : ℕ) : 0 < slack ^ k := pow_pos slack_pos k

theorem slack_pow_le {j k : ℕ} (h : j ≤ k) : slack ^ k ≤ slack ^ j :=
  pow_le_pow_of_le_one slack_pos.le slack_le_one h

/-- Two numbers that at most `k` roundings lie between. -/
def Near (k : ℕ) (a v : ℚ) : Prop := v * slack ^ k ≤ a ∧ a * slack ^ k ≤ v

namespace Near

variable {j k : ℕ} {a b v w : ℚ}

theorem rfl : Near 0 a a := by simp [Near]

theorem symm (h : Near k a v) : Near k v a := ⟨h.2, h.1⟩

theorem trans (hab : Near j a b) (hbv : Near k b v) : Near (j + k) a v := by
  constructor
  · calc v * slack ^ (j + k) = v * slack ^ k * slack ^ j := by ring
      _ ≤ b * slack ^ j := mul_le_mul_of_nonneg_right hbv.1 (slack_pow_pos j).le
      _ ≤ a := hab.1
  · calc a * slack ^ (j + k) = a * slack ^ j * slack ^ k := by ring
      _ ≤ b * slack ^ k := mul_le_mul_of_nonneg_right hab.2 (slack_pow_pos k).le
      _ ≤ v := hbv.2

theorem nonneg (h : Near k a v) (hv : 0 ≤ v) : 0 ≤ a :=
  (mul_nonneg hv (slack_pow_pos k).le).trans h.1

theorem pos (h : Near k a v) (hv : 0 < v) : 0 < a :=
  (mul_pos hv (slack_pow_pos k)).trans_le h.1

theorem eq_zero (h : Near k a 0) : a = 0 :=
  le_antisymm (nonpos_of_mul_nonpos_left h.2 (slack_pow_pos k)) (h.nonneg (le_refl 0))

theorem mono (h : Near j a v) (hjk : j ≤ k) (hv : 0 ≤ v) : Near k a v :=
  ⟨(mul_le_mul_of_nonneg_left (slack_pow_le hjk) hv).trans h.1,
    (mul_le_mul_of_nonneg_left (slack_pow_le hjk) (h.nonneg hv)).trans h.2⟩

theorem add (ha : Near k a v) (hb : Near k b w) : Near k (a + b) (v + w) :=
  ⟨by linarith [ha.1, hb.1], by linarith [ha.2, hb.2]⟩

theorem mul (ha : Near j a v) (hb : Near k b w) (hv : 0 ≤ v) (hw : 0 ≤ w) :
    Near (j + k) (a * b) (v * w) := by
  constructor
  · calc v * w * slack ^ (j + k) = v * slack ^ j * (w * slack ^ k) := by ring
      _ ≤ a * b := mul_le_mul ha.1 hb.1 (mul_nonneg hw (slack_pow_pos k).le) (ha.nonneg hv)
  · calc a * b * slack ^ (j + k) = a * slack ^ j * (b * slack ^ k) := by ring
      _ ≤ v * w :=
        mul_le_mul ha.2 hb.2 (mul_nonneg (hb.nonneg hw) (slack_pow_pos k).le) hv

theorem inv (h : Near k a v) (hv : 0 < v) : Near k a⁻¹ v⁻¹ := by
  have ha := h.pos hv
  constructor
  · rw [inv_mul_le_iff₀ hv, ← div_eq_mul_inv, le_div_iff₀ ha, mul_comm]
    exact h.2
  · rw [inv_mul_le_iff₀ ha, ← div_eq_mul_inv, le_div_iff₀ hv, mul_comm]
    exact h.1

theorem div (ha : Near j a v) (hb : Near k b w) (hv : 0 ≤ v) (hw : 0 < w) :
    Near (j + k) (a / b) (v / w) := by
  rw [div_eq_mul_inv, div_eq_mul_inv]
  exact ha.mul (hb.inv hw) hv (inv_nonneg.mpr hw.le)

theorem mul_slack_pow_le (h : Near k a v) (j : ℕ) : v * slack ^ (j + k) ≤ a * slack ^ j := by
  calc v * slack ^ (j + k) = v * slack ^ k * slack ^ j := by ring
    _ ≤ a * slack ^ j := mul_le_mul_of_nonneg_right h.1 (slack_pow_pos j).le

/-- Numbers further apart than their roundings are ordered as they are. -/
theorem lt (ha : Near j a v) (hb : Near k b w) (h : v < w * slack ^ (j + k)) : a < b :=
  lt_of_mul_lt_mul_right ((ha.2.trans_lt h).trans_le (hb.mul_slack_pow_le j))
    (slack_pow_pos j).le

theorem le (ha : Near j a v) (hb : Near k b w) (h : v ≤ w * slack ^ (j + k)) : a ≤ b :=
  le_of_mul_le_mul_right ((ha.2.trans h).trans (hb.mul_slack_pow_le j)) (slack_pow_pos j)

end Near

/-- Whole numbers of 32 bits lie further apart than a few roundings. -/
theorem natCast_lt_mul_slack_pow {k m n : ℕ} (hk : k ≤ 100) (h : m < n) (hn : n ≤ 2 ^ 32) :
    (m : ℚ) < n * slack ^ k := by
  have hslack : 1 - 1 / 2 ^ 33 ≤ slack ^ k := le_trans (by norm_num [slack]) (slack_pow_le hk)
  have hstep : (m : ℚ) + 1 ≤ n := by exact_mod_cast h
  have hbound : (n : ℚ) ≤ 2 ^ 32 := by exact_mod_cast hn
  calc (m : ℚ) < n * (1 - 1 / 2 ^ 33) := by linarith
    _ ≤ n * slack ^ k := mul_le_mul_of_nonneg_left hslack (Nat.cast_nonneg n)

/-! One rounding. -/

/-- The nearest integer is at most half away. -/
theorem nearestEven_half (num : ℕ) {den : ℕ} (h : 0 < den) :
    2 * num ≤ 2 * (den * nearestEven num den) + den ∧
      2 * (den * nearestEven num den) ≤ 2 * num + den := by
  have hdiv := Nat.div_add_mod num den
  have hmod := Nat.mod_lt num h
  have hsucc : den * (num / den + 1) = den * (num / den) + den := Nat.mul_succ _ _
  simp only [nearestEven]
  split
  · omega
  · split
    · omega
    · have htie : den * (num / den + num / den % 2) = den * (num / den) ∨
          den * (num / den + num / den % 2) = den * (num / den) + den := by
        obtain h0 | h1 := Nat.mod_two_eq_zero_or_one (num / den)
        · exact .inl (by rw [h0, Nat.add_zero])
        · exact .inr (by rw [h1, hsucc])
      omega

/-- A spacing is at most the `2 ^ 52`th part of the numbers it belongs to. -/
theorem two_pow_spacing_le {q : ℕ} (h : 2 ^ 52 ≤ q) : 2 ^ spacing q * 2 ^ 52 ≤ q := by
  have hq : q ≠ 0 := by omega
  have hlog : 52 ≤ q.log2 := (Nat.le_log2 hq).mpr h
  rw [← Nat.pow_add, show spacing q + 52 = q.log2 by unfold spacing; omega]
  exact Nat.log2_self_le hq

/-- The error of rounding is at most one part in `2 ^ 53` of the exact number. -/
theorem round_error {num den : ℕ} (hden : 0 < den) (h : 2 ^ 52 ≤ num / den) :
    num * 2 ^ 53 ≤ den * round num den * 2 ^ 53 + num ∧
      den * round num den * 2 ^ 53 ≤ num * 2 ^ 53 + num := by
  unfold round
  generalize hscale : 2 ^ spacing (num / den) = scale
  have hgrain : den * scale * 2 ^ 52 ≤ num := by
    calc den * scale * 2 ^ 52 = den * (2 ^ spacing (num / den) * 2 ^ 52) := by
          rw [hscale, Nat.mul_assoc]
      _ ≤ den * (num / den) := Nat.mul_le_mul_left _ (two_pow_spacing_le h)
      _ ≤ num := Nat.mul_div_le _ _
  have hpos : 0 < den * scale := Nat.mul_pos hden (hscale ▸ Nat.two_pow_pos _)
  have hhalf := nearestEven_half num hpos
  have hcomm : den * (nearestEven num (den * scale) * scale) =
      den * scale * nearestEven num (den * scale) := by ring
  simp only [hcomm]
  generalize den * scale * nearestEven num (den * scale) = rounded at hhalf ⊢
  omega

theorem near_round {num den : ℕ} (hden : 0 < den) (h : 2 ^ 52 ≤ num / den) :
    Near 1 (round num den) ((num : ℚ) / den) := by
  obtain ⟨hlow, hhigh⟩ := round_error hden h
  have hd : (0 : ℚ) < den := by exact_mod_cast hden
  have hlow' : (num : ℚ) * 2 ^ 53 ≤ den * round num den * 2 ^ 53 + num := by exact_mod_cast hlow
  have hhigh' : (den : ℚ) * round num den * 2 ^ 53 ≤ num * 2 ^ 53 + num := by
    exact_mod_cast hhigh
  constructor
  · rw [pow_one, div_mul_eq_mul_div, div_le_iff₀ hd]
    unfold slack
    linarith
  · rw [pow_one, le_div_iff₀ hd]
    unfold slack
    have hnum : (0 : ℚ) ≤ num := Nat.cast_nonneg num
    linarith

/-! Numbers that rounding keeps, and powers of two that it does not fall below. -/

theorem round_zero (den : ℕ) : round 0 den = 0 := by
  simp [round, nearestEven]

theorem nearestEven_of_dvd {num den : ℕ} (hden : 0 < den) (h : den ∣ num) :
    nearestEven num den = num / den := by
  simp only [nearestEven, Nat.mod_eq_zero_of_dvd h]
  exact if_pos hden

theorem round_of_dvd {n : ℕ} (h : 2 ^ spacing n ∣ n) : round n 1 = n := by
  simp only [round, Nat.div_one, Nat.one_mul]
  rw [nearestEven_of_dvd (Nat.two_pow_pos _) h, Nat.div_mul_cancel h]

theorem le_nearestEven (num den : ℕ) : num / den ≤ nearestEven num den := by
  simp only [nearestEven]
  split
  · exact le_refl _
  · split <;> omega

theorem two_pow_le_round {e num den : ℕ} (h : 2 ^ e ≤ num / den) : 2 ^ e ≤ round num den := by
  have hq : num / den ≠ 0 := by
    have := Nat.two_pow_pos e
    omega
  have hlog : e ≤ (num / den).log2 := (Nat.le_log2 hq).mpr h
  have hsplit : 2 ^ (num / den).log2 =
      2 ^ ((num / den).log2 - spacing (num / den)) * 2 ^ spacing (num / den) := by
    rw [← Nat.pow_add]
    unfold spacing
    congr 1
    omega
  calc 2 ^ e ≤ 2 ^ (num / den).log2 := Nat.pow_le_pow_right (by decide) hlog
    _ = 2 ^ ((num / den).log2 - spacing (num / den)) * 2 ^ spacing (num / den) := hsplit
    _ ≤ num / (den * 2 ^ spacing (num / den)) * 2 ^ spacing (num / den) := by
      refine Nat.mul_le_mul_right _ ?_
      rw [← Nat.div_div_eq_div_mul, Nat.le_div_iff_mul_le (Nat.two_pow_pos _), ← hsplit]
      exact Nat.log2_self_le hq
    _ ≤ round num den := Nat.mul_le_mul_right _ (le_nearestEven _ _)

theorem one_le_round {num den : ℕ} (h : one ≤ num / den) : one ≤ round num den := by
  unfold one at h ⊢
  apply two_pow_le_round h

/-! The sizes of one and of the limit. -/

-- The powers are compared with unknown exponents, so that none of them is computed.
section
variable {a b c m n : ℕ}

theorem two_pow_le_of_eq (hn : n = 2 ^ b) (h : a ≤ b) : 2 ^ a ≤ n := by
  rw [hn]
  exact Nat.pow_le_pow_right Nat.two_pos h

theorem mul_two_pow_lt_of_eq (hm : m = 2 ^ a) (hn : n = 2 ^ c) (h : a + b < c) :
    m * 2 ^ b < n := by
  rw [hm, hn, ← Nat.pow_add]
  exact Nat.pow_lt_pow_right Nat.one_lt_two h

theorem two_pow_le_div_of_eq {d : ℕ} (hn : n = 2 ^ c) (hpos : 0 < d) (hd : d ≤ 2 ^ b)
    (h : a + b ≤ c) : 2 ^ a ≤ n / d := by
  rw [Nat.le_div_iff_mul_le hpos]
  calc 2 ^ a * d ≤ 2 ^ a * 2 ^ b := Nat.mul_le_mul_left _ hd
    _ = 2 ^ (a + b) := (Nat.pow_add 2 a b).symm
    _ ≤ n := two_pow_le_of_eq hn h

theorem eq_mul_of_eq {k : ℕ} (hm : m = 2 ^ a) (hk : k = 2 ^ b) (hn : n = 2 ^ c)
    (h : a + b = c) : n = m * k := by
  rw [hm, hk, hn, ← Nat.pow_add, h]

end

theorem one_eq : one = 2 ^ 1074 := by rw [one]

theorem limit_eq_two_pow : limit = 2 ^ 2098 := by rw [limit]

theorem two_pow_le_one {e : ℕ} (h : e ≤ 1074) : 2 ^ e ≤ one := two_pow_le_of_eq one_eq h

theorem oneUnits_pos : 0 < one := (Nat.two_pow_pos 0).trans_le (two_pow_le_one (Nat.zero_le _))

theorem one_mul_two_pow_lt_limit {e : ℕ} (h : e < 1024) : one * 2 ^ e < limit :=
  mul_two_pow_lt_of_eq one_eq limit_eq_two_pow (Nat.add_lt_add_left h 1074)

theorem one_le_limit : one ≤ limit := by
  have h := one_mul_two_pow_lt_limit (e := 0) (by decide)
  rw [Nat.pow_zero, Nat.mul_one] at h
  exact h.le

/-! Computed numbers. -/

theorem finite_mul_finite {a b : Bool} {m n : ℕ} (hm : Representable m) (hn : Representable n) :
    (finite a m hm * finite b n hn : Binary64) = ofQuotient (a ^^ b) (m * n) one := by
  change mul _ _ = _
  rw [mul]

theorem finite_div_finite {a b : Bool} {m n : ℕ} (hm : Representable m) (hn : Representable n)
    (h : n ≠ 0) :
    (finite a m hm / finite b n hn : Binary64) = ofQuotient (a ^^ b) (m * one) n :=
  if_neg h

theorem spacing_dvd_mul_one {n : ℕ} (h : n ≤ 2 ^ 53) : 2 ^ spacing (n * one) ∣ n * one := by
  unfold one
  apply spacing_dvd_mul h

/-- Integers of up to 53 bits are exact. -/
theorem ofNat_eq {n : ℕ} (h : n ≤ 2 ^ 53) : ∃ hn, ofNat n = finite false (n * one) hn := by
  have hdvd := spacing_dvd_mul_one h
  have hlt : n * one < limit := by
    rw [Nat.mul_comm]
    exact (Nat.mul_le_mul_left one h).trans_lt (one_mul_two_pow_lt_limit (by decide))
  refine ⟨⟨hlt, hdvd⟩, ?_⟩
  change ofUnits ((n * one : ℕ) : ℤ) false = _
  unfold ofUnits
  split
  · next hzero =>
      simp only [Int.natCast_eq_zero.mp hzero]
      rfl
  · have hround := round_of_dvd hdvd
    rw [decide_eq_false (by omega), Int.natAbs_natCast, ofQuotient, dif_pos (by rwa [hround])]
    simp only [hround]

theorem ofQuotient_eq_finite {negative sign : Bool} {num den units : ℕ}
    {h : Representable units} (heq : ofQuotient negative num den = finite sign units h) :
    units = round num den := by
  unfold ofQuotient at heq
  split at heq
  · cases heq
    rfl
  · nomatch heq

theorem finite_lt_finite {m n : ℕ} {hm : Representable m} {hn : Representable n} :
    (finite false m hm).lt (finite false n hn) ↔ m < n := by
  simp only [lt, units?, signed, Bool.false_eq_true, if_false, decide_eq_true_eq, Int.ofNat_lt]

theorem finite_le_finite {m n : ℕ} {hm : Representable m} {hn : Representable n} :
    (finite false m hm).le (finite false n hn) ↔ m ≤ n := by
  simp only [le, units?, signed, Bool.false_eq_true, if_false, decide_eq_true_eq, Int.ofNat_le]

/-- A number between two positive ones is a number without sign. -/
theorem finite_of_between {m n : ℕ} {hm : Representable m} {hn : Representable n} {x : Binary64}
    (hlow : (finite false m hm).le x) (hhigh : x.le (finite false n hn)) (hpos : 0 < m) :
    ∃ units h, x = finite false units h ∧ m ≤ units ∧ units ≤ n := by
  have hlimit := hn.1
  rcases x with _ | negative | ⟨negative, units, h⟩
  · nomatch hlow
  · cases negative with
    | false =>
        simp only [le, units?, signed, Bool.false_eq_true, if_false, decide_eq_true_eq] at hhigh
        omega
    | true =>
        simp only [le, units?, signed, Bool.false_eq_true, if_false, if_true,
          decide_eq_true_eq] at hlow
        omega
  · cases negative with
    | false => exact ⟨units, h, rfl, finite_le_finite.mp hlow, finite_le_finite.mp hhigh⟩
    | true =>
        simp only [le, units?, signed, Bool.false_eq_true, if_false, if_true,
          decide_eq_true_eq] at hlow
        omega

/-- The exact value of a finite number. -/
def value : Binary64 → ℚ
  | .finite negative units _ => (signed negative units : ℤ) / one
  | _ => 0

theorem value_finite {units : ℕ} (h : Representable units) :
    (finite false units h).value = (units : ℚ) / one := by
  simp only [value, signed, Bool.false_eq_true, if_false, Int.cast_natCast]

theorem truncInt_finite (low high : Int) {units : ℕ} (h : Representable units) :
    truncInt low high (finite false units h) = clamp low high (units / one : ℕ) := by
  simp only [truncInt, signed, Bool.false_eq_true, if_false]

/-- A number without sign that at most `k` roundings lie between it and an exact number. -/
def Within (k : ℕ) (x : Binary64) (v : ℚ) : Prop :=
  ∃ units h, x = .finite false units h ∧ Near k ((units : ℚ) / one) v

/-- Numbers that are far from the ends of the format. -/
def Ordinary (v : ℚ) : Prop := v = 0 ∨ (2 ^ 100)⁻¹ ≤ v ∧ v ≤ 2 ^ 100

theorem Ordinary.nonneg {v : ℚ} (h : Ordinary v) : 0 ≤ v := by
  obtain rfl | ⟨hlow, -⟩ := h
  · exact le_refl 0
  · exact le_trans (by positivity) hlow

theorem ordinary_of_bounds {v : ℚ} (hlow : 1 / 10 ^ 15 ≤ v) (hhigh : v ≤ 10 ^ 15) : Ordinary v :=
  .inr ⟨le_trans (by norm_num) hlow, le_trans hhigh (by norm_num)⟩

theorem ordinary_ratio {a b : ℕ} (ha : a ≤ 10 ^ 15) (hb : 0 < b) (hb' : b ≤ 10 ^ 15) :
    Ordinary ((a : ℚ) / b) := by
  obtain rfl | hpos := Nat.eq_zero_or_pos a
  · exact .inl (by rw [Nat.cast_zero, zero_div])
  · have ha1 : (1 : ℚ) ≤ a := by exact_mod_cast hpos
    have ha2 : (a : ℚ) ≤ 10 ^ 15 := by exact_mod_cast ha
    have hb1 : (1 : ℚ) ≤ b := by exact_mod_cast hb
    have hb2 : (b : ℚ) ≤ 10 ^ 15 := by exact_mod_cast hb'
    refine ordinary_of_bounds ?_ ?_
    · rw [le_div_iff₀ (by linarith)]
      linarith
    · rw [div_le_iff₀ (by linarith)]
      linarith

theorem cast_one_pos : (0 : ℚ) < (one : ℕ) := by
  exact_mod_cast oneUnits_pos

theorem pos_of_near {k n : ℕ} {v : ℚ} (h : Near k ((n : ℚ) / one) v) (hv : 0 < v) : 0 < n := by
  have hpos := (div_pos_iff_of_pos_right cast_one_pos).mp (h.pos hv)
  exact_mod_cast hpos

theorem eq_zero_of_near {k n : ℕ} (h : Near k ((n : ℚ) / one) 0) : n = 0 := by
  have hzero := (div_eq_zero_iff.mp h.eq_zero).resolve_right cast_one_pos.ne'
  exact_mod_cast hzero

theorem half_le_slack_pow {k : ℕ} (h : k ≤ 100) : 1 / 2 ≤ slack ^ k :=
  le_trans (by norm_num [slack]) (slack_pow_le h)

section
variable {k num den n : ℕ} {v : ℚ}

/-- What is near an ordinary number is far above the subnormal ones. -/
theorem two_pow_le_of_near (hden : 0 < den) (h : Near k ((num : ℚ) / den / one) v)
    (hlow : (2 ^ 100)⁻¹ ≤ v) (hk : k ≤ 100) : 2 ^ 52 ≤ num / den := by
  have hd : (0 : ℚ) < den := by exact_mod_cast hden
  have hv : 0 ≤ v := le_trans (by positivity) hlow
  have hone : (2 : ℚ) ^ 200 ≤ (one : ℕ) := by
    exact_mod_cast two_pow_le_one (e := 200) (by decide)
  have hshare : (2 ^ 100)⁻¹ * (1 / 2) ≤ (num : ℚ) / den / one :=
    (mul_le_mul hlow (half_le_slack_pow hk) (by norm_num) hv).trans h.1
  rw [le_div_iff₀ cast_one_pos] at hshare
  have hbig : (2 : ℚ) ^ 52 ≤ num / den := by linarith
  rw [le_div_iff₀ hd] at hbig
  rw [Nat.le_div_iff_mul_le hden]
  exact_mod_cast hbig

/-- What is near an ordinary number is far below the limit. -/
theorem lt_limit_of_near (h : Near k ((n : ℚ) / one) v) (hv : 0 ≤ v) (hhigh : v ≤ 2 ^ 100)
    (hk : k ≤ 100) : n < limit := by
  have hhalf : (n : ℚ) / one * (1 / 2) ≤ 2 ^ 100 :=
    (mul_le_mul_of_nonneg_left (half_le_slack_pow hk) (h.nonneg hv)).trans (h.2.trans hhigh)
  have hsmall : (n : ℚ) / one ≤ 2 ^ 101 := by linarith
  have hcast : (n : ℚ) ≤ ((one * 2 ^ 101 : ℕ) : ℚ) := by
    push_cast
    rw [mul_comm]
    exact (div_le_iff₀ cast_one_pos).mp hsmall
  exact (Nat.cast_le.mp hcast).trans_lt (one_mul_two_pow_lt_limit (by decide))

end

namespace Within

variable {j k : ℕ} {x y : Binary64} {v w : ℚ}

theorem mono (h : Within j x v) (hjk : j ≤ k) (hv : 0 ≤ v) : Within k x v := by
  obtain ⟨units, hunits, rfl, hnear⟩ := h
  exact ⟨units, hunits, rfl, hnear.mono hjk hv⟩

theorem near_value (h : Within k x v) : Near k x.value v := by
  obtain ⟨units, hunits, rfl, hnear⟩ := h
  rwa [value_finite]

theorem of_ratio {units den : ℕ} {h : Representable units} (num : ℕ) (hden : 0 < den)
    (hx : x = finite false units h) (hratio : units * den = num * one)
    (hnear : Near k ((num : ℚ) / den) v) : Within k x v := by
  refine ⟨units, h, hx, ?_⟩
  have hvalue : (units : ℚ) / one = num / den := by
    rw [div_eq_div_iff cast_one_pos.ne' (by exact_mod_cast hden.ne')]
    exact_mod_cast hratio
  rwa [hvalue]

theorem ofQuotient {num den : ℕ} (hden : 0 < den) (h : Near k ((num : ℚ) / den / one) v)
    (hv : Ordinary v) (hk : k ≤ 99) : Within (k + 1) (ofQuotient false num den) v := by
  have hd : (0 : ℚ) < den := by exact_mod_cast hden
  have hone := cast_one_pos
  have hnum : (0 : ℚ) ≤ num := Nat.cast_nonneg num
  obtain rfl | ⟨hlow, hhigh⟩ := hv
  · obtain rfl : num = 0 := by
      have hzero := (div_eq_zero_iff.mp h.eq_zero).resolve_right hone.ne'
      exact_mod_cast (div_eq_zero_iff.mp hzero).resolve_right hd.ne'
    have hlt : round 0 den < limit := by rw [round_zero]; exact limit_pos
    refine ⟨round 0 den, ⟨hlt, spacing_dvd_round 0 den⟩, dif_pos hlt, ?_⟩
    rw [round_zero, Nat.cast_zero, zero_div]
    exact Near.rfl.mono (Nat.zero_le _) (le_refl 0)
  · have hround := near_round hden (two_pow_le_of_near hden h hlow (by omega))
    have hnear := (hround.div Near.rfl (div_nonneg hnum hd.le) hone).trans h
    have hlt := lt_limit_of_near hnear (le_trans (by positivity) hlow) hhigh (by omega)
    refine ⟨round num den, ⟨hlt, spacing_dvd_round num den⟩, dif_pos hlt, ?_⟩
    rwa [Nat.add_comm]

theorem mul (hx : Within j x v) (hy : Within k y w) (hv : 0 ≤ v) (hw : 0 ≤ w)
    (h : Ordinary (v * w)) (hjk : j + k ≤ 99) : Within (j + k + 1) (x * y) (v * w) := by
  obtain ⟨m, hm, rfl, hx⟩ := hx
  obtain ⟨n, hn, rfl, hy⟩ := hy
  rw [finite_mul_finite]
  refine ofQuotient oneUnits_pos ?_ h hjk
  have hvalue : ((m * n : ℕ) : ℚ) / one / one = m / one * (n / one) := by
    push_cast
    ring
  rw [hvalue]
  exact hx.mul hy hv hw

theorem div (hx : Within j x v) (hy : Within k y w) (hv : 0 ≤ v) (hw : 0 < w)
    (h : Ordinary (v / w)) (hjk : j + k ≤ 99) : Within (j + k + 1) (x / y) (v / w) := by
  obtain ⟨m, hm, rfl, hx⟩ := hx
  obtain ⟨n, hn, rfl, hy⟩ := hy
  have hone := cast_one_pos
  have hpos := pos_of_near hy hw
  rw [finite_div_finite _ _ hpos.ne']
  refine ofQuotient hpos ?_ h hjk
  have hvalue : ((m * one : ℕ) : ℚ) / n / one = m / one / (n / one) := by
    push_cast
    field_simp
  rw [hvalue]
  exact hx.div hy hv hw

theorem ofUnits {n : ℕ} (h : Near k ((n : ℚ) / one) v) (hv : Ordinary v) (hk : k ≤ 99) :
    Within (k + 1) (ofUnits n false) v := by
  unfold Binary64.ofUnits
  split
  · next hzero =>
      have hn : n = 0 := by exact_mod_cast hzero
      subst hn
      refine ⟨0, representable_zero, rfl, ?_⟩
      exact h.mono (Nat.le_succ k) hv.nonneg
  · rw [decide_eq_false (by omega), Int.natAbs_natCast]
    exact ofQuotient Nat.one_pos (by rwa [Nat.cast_one, div_one]) hv hk

theorem add (hx : Within k x v) (hy : Within k y w) (h : Ordinary (v + w)) (hk : k ≤ 99) :
    Within (k + 1) (x + y) (v + w) := by
  obtain ⟨m, hm, rfl, hx⟩ := hx
  obtain ⟨n, hn, rfl, hy⟩ := hy
  change Within _ (Binary64.ofUnits ((m + n : ℕ) : ℤ) false) _
  refine ofUnits ?_ h hk
  push_cast
  rw [add_div]
  exact hx.add hy

theorem ofNat {n : ℕ} (h : n ≤ 2 ^ 53) : Within 0 (ofNat n) n := by
  obtain ⟨hn, hvalue⟩ := ofNat_eq h
  refine ⟨n * one, hn, hvalue, ?_⟩
  rw [Nat.cast_mul, mul_div_cancel_right₀ _ cast_one_pos.ne']
  exact Near.rfl

/-- The quotient of whole numbers is computed with one rounding. -/
theorem ratio {m n : ℕ} (hm : m ≤ 10 ^ 15) (hpos : 0 < n) (hn : n ≤ 10 ^ 15) :
    Within 1 (Binary64.ofNat m / Binary64.ofNat n) ((m : ℚ) / n) :=
  (ofNat (hm.trans (by norm_num))).div (ofNat (hn.trans (by norm_num))) (Nat.cast_nonneg m)
    (by exact_mod_cast hpos) (ordinary_ratio hm hpos hn) (by norm_num)

/-- Of the zeros it is the one without sign that is computed without a sign. -/
theorem eq_zero (h : Within k x 0) : x = zero false := by
  obtain ⟨units, hunits, rfl, hnear⟩ := h
  obtain rfl := eq_zero_of_near hnear
  rfl

theorem lt (hx : Within j x v) (hy : Within k y w) (h : v < w * slack ^ (j + k)) :
    x.lt y := by
  obtain ⟨m, hm, rfl, hx⟩ := hx
  obtain ⟨n, hn, rfl, hy⟩ := hy
  rw [finite_lt_finite]
  have hlt := hx.lt hy h
  rw [div_lt_div_iff_of_pos_right cast_one_pos] at hlt
  exact_mod_cast hlt

theorem not_le_zero (hx : Within k x v) (hv : 0 < v) : ¬ x.le (Binary64.ofNat 0) := by
  obtain ⟨n, hn, rfl, hx⟩ := hx
  have hn0 := pos_of_near hx hv
  obtain ⟨hzero, hvalue⟩ := ofNat_eq (Nat.zero_le (2 ^ 53))
  rw [hvalue, finite_le_finite, Nat.zero_mul]
  omega

theorem not_lt (hx : Within j x v) (hy : Within k y w) (h : w ≤ v * slack ^ (k + j)) :
    ¬ x.lt y := by
  obtain ⟨m, hm, rfl, hx⟩ := hx
  obtain ⟨n, hn, rfl, hy⟩ := hy
  rw [finite_lt_finite, Nat.not_lt]
  have hle := hy.le hx h
  rw [div_le_div_iff_of_pos_right cast_one_pos] at hle
  exact_mod_cast hle

end Within

end GnssFusion.Binary64
