import GnssFusion.Proofs.Binary64.Bounds
import GnssFusion.Proofs.Decimal.Nearest

/-!
Computing keeps the order of numbers that are not below zero. A larger quotient is not rounded
to less (`round_mono`), so a quotient grows with what is divided (`finite_div_le_finite_div`) and
shrinks as the divisor grows (`ofNat_div_le`); it reaches a number with an even significand from
half a spacing below it (`even_le_round_iff`). Durations in seconds are within two roundings of
them (`within_seconds`) and in their order (`seconds_natCast_le`), also where the whole seconds
are so many that they are rounded.
-/

namespace GnssFusion.Binary64

/-! Roundings. -/

section
variable {a b c d : ℕ} (hb : 0 < b) (hd : 0 < d) (h : a * d ≤ c * b)
include hb hd h

theorem div_le_div_of_ratio_le : a / b ≤ c / d := by
  rw [Nat.le_div_iff_mul_le hd]
  refine Nat.le_of_mul_le_mul_right ?_ hb
  calc a / b * d * b = a / b * b * d := Nat.mul_right_comm _ _ _
    _ ≤ a * d := Nat.mul_le_mul_right d (Nat.div_mul_le_self a b)
    _ ≤ c * b := h

theorem nearestEven_mono : nearestEven a b ≤ nearestEven c d := by
  obtain hlt | heq := (div_le_div_of_ratio_le hb hd h).lt_or_eq
  · calc nearestEven a b ≤ a / b + 1 := nearestEven_le a b
      _ ≤ c / d := hlt
      _ ≤ nearestEven c d := le_nearestEven c d
  · -- With one integer part for both, the larger remainder is also the larger part of its divisor.
    have hrest : 2 * (a % b) * d ≤ 2 * (c % d) * b := by
      have ha := Nat.div_add_mod a b
      have hc := Nat.div_add_mod c d
      rw [← heq] at hc
      have hwhole : b * (a / b) * d = d * (a / b) * b := by ring
      rw [← ha, ← hc, Nat.add_mul, Nat.add_mul, hwhole] at h
      linarith
    have hhalf : b ≤ 2 * (a % b) → d ≤ 2 * (c % d) := by
      intro hle
      refine Nat.le_of_mul_le_mul_right ?_ hb
      exact (Nat.mul_comm d b ▸ Nat.mul_le_mul_right d hle).trans hrest
    have hmore : b < 2 * (a % b) → d < 2 * (c % d) := by
      intro hlt
      refine Nat.lt_of_mul_lt_mul_right (a := b) ?_
      exact (Nat.mul_comm d b ▸ Nat.mul_lt_mul_of_pos_right hlt hd).trans_le hrest
    simp only [nearestEven, heq]
    repeat' split
    all_goals omega

end

theorem log2_mono {m n : ℕ} (h : m ≤ n) : m.log2 ≤ n.log2 := by
  by_cases hzero : m = 0
  · subst hzero
    exact Nat.zero_le _
  · exact (Nat.le_log2 (by omega)).mpr ((Nat.log2_self_le hzero).trans h)

/-- Nothing below a power of two is rounded to more than it. -/
theorem round_le_two_pow {num den e : ℕ} (h : num / den < 2 ^ e) : round num den ≤ 2 ^ e := by
  have hspacing : spacing (num / den) ≤ e := by
    by_cases hzero : num / den = 0
    · rw [hzero]
      exact Nat.zero_le e
    · have hlog := (Nat.log2_lt hzero).mpr h
      unfold spacing
      omega
  have hsplit : 2 ^ e = 2 ^ (e - spacing (num / den)) * 2 ^ spacing (num / den) := by
    rw [← Nat.pow_add, Nat.sub_add_cancel hspacing]
  rw [hsplit, round]
  refine Nat.mul_le_mul_right _ ((nearestEven_le _ _).trans ?_)
  rw [← Nat.div_div_eq_div_mul, Nat.succ_le_iff, Nat.div_lt_iff_lt_mul (Nat.two_pow_pos _),
    ← hsplit]
  exact h

/-- A larger quotient is not rounded to less. -/
theorem round_mono {a b c d : ℕ} (hb : 0 < b) (hd : 0 < d) (h : a * d ≤ c * b) :
    round a b ≤ round c d := by
  have hdiv := div_le_div_of_ratio_le hb hd h
  by_cases heq : spacing (a / b) = spacing (c / d)
  · rw [round, round, heq]
    have hscale := Nat.two_pow_pos (spacing (c / d))
    refine Nat.mul_le_mul_right _ (nearestEven_mono (Nat.mul_pos hb hscale)
      (Nat.mul_pos hd hscale) ?_)
    rw [← Nat.mul_assoc, ← Nat.mul_assoc]
    exact Nat.mul_le_mul_right _ h
  · -- Between different spacings there is a power of two.
    have hlog : (a / b).log2 < (c / d).log2 := by
      have hle := log2_mono hdiv
      unfold spacing at heq
      omega
    have hpos : c / d ≠ 0 := by
      intro hzero
      rw [hzero] at hlog
      exact absurd hlog (Nat.not_lt_zero _)
    calc round a b ≤ 2 ^ ((a / b).log2 + 1) := round_le_two_pow Nat.lt_log2_self
      _ ≤ 2 ^ (c / d).log2 := Nat.pow_le_pow_right Nat.two_pos hlog
      _ ≤ round c d := two_pow_le_round (Nat.log2_self_le hpos)

/-- The numbers from half below an even one on have it or a larger one as their nearest. -/
theorem even_le_nearestEven_iff {k num den : ℕ} (hden : 0 < den)
    (heven : k % 2 = 0) : k ≤ nearestEven num den ↔ 2 * (k * den) ≤ 2 * num + den := by
  constructor
  · intro h
    have hhalf := (nearestEven_half num hden).2
    have hmul := Nat.mul_le_mul_right den h
    rw [Nat.mul_comm (nearestEven num den)] at hmul
    omega
  · intro h
    have hdiv := Nat.div_add_mod num den
    have hmod := Nat.mod_lt num hden
    obtain hbelow | habove := lt_or_ge (num / den) k
    · -- The integer part is the odd number before, so that a tie goes up.
      have hnext : num / den + 1 = k := by
        refine le_antisymm hbelow ?_
        by_contra hless
        have hmul := Nat.mul_le_mul_right den (show num / den + 2 ≤ k by omega)
        rw [Nat.add_mul, Nat.mul_comm (num / den)] at hmul
        omega
      have hmul : k * den = den * (num / den) + den := by rw [← hnext]; ring
      simp only [nearestEven]
      split
      · omega
      · split <;> omega
    · exact habove.trans (le_nearestEven num den)

/-- A number that is no power of two and has an even significand is reached by rounding from
half a spacing below it. -/
theorem even_le_round_iff {k s num den : ℕ} (hden : 0 < den) (hlow : 2 ^ 52 < k)
    (hhigh : k < 2 ^ 53) (heven : k % 2 = 0) :
    k * 2 ^ s ≤ round num den ↔ 2 * (k * 2 ^ s * den) ≤ 2 * num + 2 ^ s * den := by
  have hs := Nat.two_pow_pos s
  obtain hbelow | hfrom := lt_or_ge (num / den) (2 ^ 52 * 2 ^ s)
  · -- All of this goes to the power of two at most.
    refine iff_of_false ?_ ?_
    · rw [← Nat.pow_add] at hbelow
      have hround := round_le_two_pow hbelow
      rw [Nat.pow_add] at hround
      exact (hround.trans_lt (Nat.mul_lt_mul_of_pos_right hlow hs)).not_ge
    · have hnum : num < 2 ^ 52 * (2 ^ s * den) := by
        rw [← Nat.mul_assoc]
        exact (Nat.div_lt_iff_lt_mul hden).mp hbelow
      have hmul := Nat.mul_le_mul_right (2 ^ s * den) (show 2 ^ 52 + 1 ≤ k from hlow)
      rw [Nat.mul_assoc k]
      generalize 2 ^ s * den = grain at hnum hmul ⊢
      omega
  · obtain hwithin | habove := lt_or_ge (num / den) (2 ^ 53 * 2 ^ s)
    · have hspacing : spacing (num / den) = s := by
        have hlog : (num / den).log2 = 52 + s := by
          rw [Nat.log2_eq_iff (by omega), Nat.pow_add, Nat.add_right_comm, Nat.pow_add]
          exact ⟨hfrom, hwithin⟩
        rw [spacing, hlog, Nat.add_sub_cancel_left]
      rw [round, hspacing, Nat.mul_le_mul_right_iff hs,
        even_le_nearestEven_iff (Nat.mul_pos hden hs) heven, Nat.mul_comm den,
        Nat.mul_assoc]
    · refine iff_of_true ?_ ?_
      · rw [← Nat.pow_add] at habove
        have hround := two_pow_le_round habove
        rw [Nat.pow_add] at hround
        exact (Nat.mul_le_mul_right _ hhigh.le).trans hround
      · have hnum : 2 ^ 53 * (2 ^ s * den) ≤ num := by
          rw [← Nat.mul_assoc]
          exact (Nat.le_div_iff_mul_le hden).mp habove
        have hmul := Nat.mul_le_mul_right (2 ^ s * den) hhigh.le
        rw [Nat.mul_assoc k]
        omega

/-- An integer of up to 52 bits that is no power of two is such a number. -/
theorem exists_even_significand {n : ℕ} (hlog : n.log2 ≤ 51) (h : 2 ^ n.log2 < n) :
    ∃ k s, n * one = k * 2 ^ s ∧ 2 ^ 52 < k ∧ k < 2 ^ 53 ∧ k % 2 = 0 ∧
      2 ^ s * 2 ^ 52 = 2 ^ n.log2 * one := by
  have hnext : n < 2 ^ n.log2 * 2 := Nat.lt_log2_self
  generalize n.log2 = e at hlog h hnext ⊢
  have hscale : 2 ^ e * 2 ^ (52 - e) = 2 ^ 52 := by
    rw [← Nat.pow_add, Nat.add_sub_cancel' (by omega)]
  have hgrain : 2 ^ (1022 + e) * 2 ^ 52 = 2 ^ e * one := by
    obtain ⟨m, hm⟩ : ∃ m, m = 2 ^ (1074 + e) := ⟨_, rfl⟩
    calc 2 ^ (1022 + e) * 2 ^ 52 = m := (eq_mul_of_eq rfl rfl hm (by omega)).symm
      _ = 2 ^ e * one := eq_mul_of_eq rfl one_eq hm (by omega)
  refine ⟨n * 2 ^ (52 - e), 1022 + e, ?_, ?_, ?_, ?_, hgrain⟩
  · generalize 2 ^ (1022 + e) = grain at hgrain ⊢
    refine Nat.eq_of_mul_eq_mul_right (Nat.two_pow_pos e) ?_
    calc n * one * 2 ^ e = n * (grain * 2 ^ 52) := by rw [hgrain]; ring
      _ = n * 2 ^ (52 - e) * grain * 2 ^ e := by rw [← hscale]; ring
  · rw [← hscale]
    exact Nat.mul_lt_mul_of_pos_right h (Nat.two_pow_pos _)
  · calc n * 2 ^ (52 - e) < 2 ^ e * 2 * 2 ^ (52 - e) :=
          Nat.mul_lt_mul_of_pos_right hnext (Nat.two_pow_pos _)
      _ = 2 * 2 ^ 52 := by rw [← hscale]; ring
      _ = 2 ^ 53 := by decide
  · rw [← Nat.sub_add_cancel (show 1 ≤ 52 - e by omega), Nat.pow_succ, ← Nat.mul_assoc]
    exact Nat.mul_mod_left _ 2

theorem round_mul_of_representable {n den : ℕ} (hden : 0 < den) (h : 2 ^ spacing n ∣ n) :
    round (n * den) den = n := by
  refine le_antisymm ?_ ?_
  · calc round (n * den) den ≤ round n 1 := round_mono hden Nat.one_pos (by rw [Nat.mul_one])
      _ = n := round_of_dvd h
  · calc n = round n 1 := (round_of_dvd h).symm
      _ ≤ round (n * den) den := round_mono Nat.one_pos hden (by rw [Nat.mul_one])

/-- What is less than half a spacing is lost when it is added. -/
theorem round_add_of_small {n small : ℕ} (hn : 2 ^ spacing n ∣ n)
    (h : 2 * small < 2 ^ spacing n) : round (n + small) 1 = n := by
  have hspacing : spacing (n + small) = spacing n := by
    obtain rfl | hpos := Nat.eq_zero_or_pos n
    · have hnone : small = 0 := by
        have hone : 2 ^ spacing 0 = 1 := rfl
        omega
      rw [hnone]
    · have htop : 2 ^ spacing n ∣ 2 ^ (n.log2 + 1) :=
        Nat.pow_dvd_pow 2 (by unfold spacing; omega)
      have hroom : 2 ^ spacing n ≤ 2 ^ (n.log2 + 1) - n :=
        Nat.le_of_dvd (Nat.sub_pos_of_lt Nat.lt_log2_self) (Nat.dvd_sub htop hn)
      have hlog : (n + small).log2 = n.log2 := by
        refine (Nat.log2_eq_iff (by omega)).mpr ⟨?_, by omega⟩
        exact (Nat.log2_self_le hpos.ne').trans (Nat.le_add_right n small)
      unfold spacing
      rw [hlog]
  obtain ⟨k, hk⟩ := hn
  rw [round, Nat.div_one, hspacing, Nat.one_mul]
  have hpos := Nat.two_pow_pos (spacing n)
  generalize 2 ^ spacing n = scale at *
  have hdiv : (n + small) / scale = k := by
    rw [hk, Nat.mul_add_div hpos, Nat.div_eq_of_lt (by omega), Nat.add_zero]
  have hmod : (n + small) % scale = small := by
    rw [hk, Nat.mul_add_mod, Nat.mod_eq_of_lt (by omega)]
  rw [nearestEven, hdiv, hmod, if_pos h, hk, Nat.mul_comm]

/-! Comparisons. -/

section
variable {x y z : Binary64} {a b : ℤ}

theorem le_iff_of_units (hx : x.units? = some a) (hy : y.units? = some b) :
    x.le y = true ↔ a ≤ b := by
  rw [le, hx, hy, decide_eq_true_eq]

theorem le_iff : x.le y = true ↔ ∃ a b, x.units? = some a ∧ y.units? = some b ∧ a ≤ b := by
  constructor
  · intro h
    unfold le at h
    split at h
    · next a b hx hy => exact ⟨a, b, hx, hy, of_decide_eq_true h⟩
    · nomatch h
  · rintro ⟨a, b, hx, hy, h⟩
    exact (le_iff_of_units hx hy).mpr h

theorem lt_iff : x.lt y = true ↔ ∃ a b, x.units? = some a ∧ y.units? = some b ∧ a < b := by
  constructor
  · intro h
    unfold lt at h
    split at h
    · next a b hx hy => exact ⟨a, b, hx, hy, of_decide_eq_true h⟩
    · nomatch h
  · rintro ⟨a, b, hx, hy, h⟩
    rw [lt, hx, hy, decide_eq_true_eq]
    exact h

/-- A number below zero is less than one that is not. -/
theorem lt_of_neg_of_nonneg (hx : sign? x = some a) (hy : sign? y = some b) (ha : a < 0)
    (hb : 0 ≤ b) : x.lt y := by
  obtain ⟨u, hu, rfl⟩ := Option.map_eq_some_iff.mp hx
  obtain ⟨v, hv, rfl⟩ := Option.map_eq_some_iff.mp hy
  have hbelow : u < 0 := not_le.mp (mt Int.sign_nonneg_iff.mpr ha.not_ge)
  exact lt_iff.mpr ⟨u, v, hu, hv, hbelow.trans_le (Int.sign_nonneg_iff.mp hb)⟩

theorem neg_lt_neg_of_lt (h : x.lt y) : (-y).lt (-x) := by
  obtain ⟨a, b, ha, hb, hab⟩ := lt_iff.mp h
  refine lt_iff.mpr ⟨-b, -a, ?_, ?_, Int.neg_lt_neg hab⟩
  · rw [units?_neg, hb, Option.map_some]
  · rw [units?_neg, ha, Option.map_some]

theorem lt_of_le_lt (hxy : x.le y) (hyz : y.lt z) : x.lt z := by
  obtain ⟨a, b, ha, hb, hab⟩ := le_iff.mp hxy
  obtain ⟨b', c, hb', hc, hbc⟩ := lt_iff.mp hyz
  cases hb.symm.trans hb'
  exact lt_iff.mpr ⟨a, c, ha, hc, hab.trans_lt hbc⟩

theorem lt_of_lt_le (hxy : x.lt y) (hyz : y.le z) : x.lt z := by
  obtain ⟨a, b, ha, hb, hab⟩ := lt_iff.mp hxy
  obtain ⟨b', c, hb', hc, hbc⟩ := le_iff.mp hyz
  cases hb.symm.trans hb'
  exact lt_iff.mpr ⟨a, c, ha, hc, hab.trans_le hbc⟩

end

/-! Computed numbers that are not below zero. An infinity counts as the limit. -/

/-- What becomes of so many units. -/
def kept (num den : ℕ) : ℕ := min (round num den) limit

theorem kept_mono {a b c d : ℕ} (hb : 0 < b) (hd : 0 < d) (h : a * d ≤ c * b) :
    kept a b ≤ kept c d :=
  min_le_min_right limit (round_mono hb hd h)

theorem kept_of_representable {n : ℕ} (h : Representable n) : kept n 1 = n := by
  rw [kept, round_of_dvd h.2, Nat.min_eq_left h.1.le]

theorem kept_of_limit_le {n : ℕ} (h : limit ≤ n) : kept n 1 = limit :=
  Nat.min_eq_right (limit_le_round (by rwa [Nat.div_one]))

theorem units?_ofQuotient_signed (negative : Bool) (num den : ℕ) :
    (ofQuotient negative num den).units? = some (signed negative (kept num den)) := by
  unfold ofQuotient kept
  split
  · next h =>
      rw [Nat.min_eq_left h.le]
      rfl
  · next h =>
      rw [Nat.min_eq_right (not_lt.mp h)]
      rfl

theorem units?_ofQuotient (num den : ℕ) :
    (ofQuotient false num den).units? = some (kept num den : ℤ) :=
  units?_ofQuotient_signed false num den

theorem units?_ofUnits (n : ℕ) (zeroNegative : Bool) :
    (ofUnits n zeroNegative).units? = some (kept n 1 : ℤ) := by
  unfold ofUnits
  split
  · next hzero =>
      rw [Int.natCast_eq_zero.mp hzero, kept_of_representable representable_zero]
      cases zeroNegative <;> rfl
  · rw [decide_eq_false (by omega), Int.natAbs_natCast, units?_ofQuotient]

theorem units?_ofNat (n : ℕ) : (ofNat n).units? = some (kept (n * one) 1 : ℤ) := by
  rw [ofNat, ofInt, ← Int.natCast_mul, units?_ofUnits]

section
variable {x y : Binary64} {m n : ℕ}

theorem cases_of_units (hx : x.units? = some (m : ℤ)) :
    x = infinite false ∧ m = limit ∨
      ∃ negative h, x = finite negative m h ∧ signed negative m = m := by
  rcases x with _ | negative | ⟨negative, k, hk⟩
  · nomatch hx
  · cases negative with
    | false => exact .inl ⟨rfl, (Int.ofNat.inj (Option.some.inj hx)).symm⟩
    | true =>
        have hvalue : -(limit : ℤ) = m := Option.some.inj hx
        have hlimit := limit_pos
        omega
  · have hvalue : signed negative k = m := Option.some.inj hx
    obtain rfl : k = m := by
      cases negative <;> simp only [signed] at hvalue <;> omega
    exact .inr ⟨negative, hk, rfl, hvalue⟩

theorem kept_of_units (hx : x.units? = some (m : ℤ)) : kept m 1 = m := by
  obtain ⟨-, hm⟩ | ⟨negative, h, -, -⟩ := cases_of_units hx
  · exact (kept_of_limit_le hm.ge).trans hm.symm
  · exact kept_of_representable h

theorem units?_infinite : (infinite false).units? = some (limit : ℤ) := by
  simp only [units?, signed, Bool.false_eq_true, if_false]

theorem le_infinite {x : Binary64} {a : ℤ} (h : x.units? = some a) : x.le (infinite false) := by
  refine (le_iff_of_units h units?_infinite).mpr ?_
  rcases x with _ | negative | ⟨negative, n, hn⟩
  · nomatch h
  · obtain rfl : signed negative limit = a := Option.some.inj h
    cases negative <;> simp only [signed] <;> omega
  · obtain rfl : signed negative n = a := Option.some.inj h
    have hlt := hn.1
    cases negative <;> simp only [signed] <;> omega

theorem infinite_add (hy : y.units? = some (n : ℤ)) : infinite false + y = infinite false := by
  obtain ⟨rfl, -⟩ | ⟨b, hn, rfl, -⟩ := cases_of_units hy
  · rfl
  · rfl

theorem units?_add (hx : x.units? = some (m : ℤ)) (hy : y.units? = some (n : ℤ)) :
    (x + y).units? = some (kept (m + n) 1 : ℤ) := by
  obtain ⟨rfl, hm⟩ | ⟨a, hm, rfl, ha⟩ := cases_of_units hx
  · rw [infinite_add hy, units?_infinite, kept_of_limit_le (hm ▸ Nat.le_add_right m n)]
  · obtain ⟨rfl, hn⟩ | ⟨b, hn, rfl, hb⟩ := cases_of_units hy
    · have hsum : (finite a m hm + infinite false : Binary64) = infinite false := rfl
      rw [hsum, units?_infinite, kept_of_limit_le (hn ▸ Nat.le_add_left n m)]
    · change (ofUnits (signed a m + signed b n) (a && b)).units? = _
      rw [ha, hb, ← Int.natCast_add, units?_ofUnits]

/-- A positive number is infinite or has no sign. -/
theorem cases_of_pos_units (hx : x.units? = some (m : ℤ)) (hpos : 0 < m) :
    x = infinite false ∧ m = limit ∨ ∃ h, x = finite false m h := by
  obtain hinfinite | ⟨negative, h, rfl, hsigned⟩ := cases_of_units hx
  · exact .inl hinfinite
  · cases negative with
    | false => exact .inr ⟨h, rfl⟩
    | true =>
        have hvalue : -(m : ℤ) = m := hsigned
        omega

/-- A larger quotient does not come out less. -/
theorem finite_div_le_finite_div {a b c d : ℕ} {ha : Representable a} {hb : Representable b}
    {hc : Representable c} {hd : Representable d} (hb0 : 0 < b) (hd0 : 0 < d)
    (h : a * d ≤ c * b) :
    (finite false a ha / finite false b hb).le (finite false c hc / finite false d hd) := by
  rw [finite_div_finite _ _ hb0.ne', finite_div_finite _ _ hd0.ne']
  refine (le_iff_of_units (units?_ofQuotient _ _) (units?_ofQuotient _ _)).mpr ?_
  refine Int.ofNat_le.mpr (kept_mono hb0 hd0 ?_)
  rw [Nat.mul_right_comm, Nat.mul_right_comm c]
  exact Nat.mul_le_mul_right one h

/-- A quotient that is not above a number does not come out above it. -/
theorem finite_div_le_finite {a b c : ℕ} {ha : Representable a} {hb : Representable b}
    {hc : Representable c} (hb0 : 0 < b) (h : a * one ≤ c * b) :
    (finite false a ha / finite false b hb).le (finite false c hc) := by
  have hvalue : (finite false c hc).units? = some (c : ℤ) := rfl
  rw [finite_div_finite _ _ hb0.ne']
  refine (le_iff_of_units (units?_ofQuotient _ _) hvalue).mpr (Int.ofNat_le.mpr ?_)
  exact (kept_mono hb0 Nat.one_pos (by rwa [Nat.mul_one])).trans_eq (kept_of_representable hc)

/-- A count of 64 bits makes the less per second, the more seconds there are. -/
theorem ofNat_div_le {k : ℕ} (hk : k < 2 ^ 64) (hx : x.units? = some (m : ℤ))
    (hy : y.units? = some (n : ℤ)) (hpos : 0 < m) (h : m ≤ n) :
    (ofNat k / y).le (ofNat k / x) := by
  obtain ⟨units, hunits, hcount, -⟩ := ofNat_eq_finite_le hk
  -- Nothing is left of a count over an unbounded time.
  have hnone : (finite false units hunits / infinite false : Binary64).units? =
      some ((0 : ℕ) : ℤ) := rfl
  rw [hcount]
  obtain ⟨rfl, hm⟩ | ⟨hm, rfl⟩ := cases_of_pos_units hx hpos
  · obtain ⟨rfl, -⟩ | ⟨hn, rfl⟩ := cases_of_pos_units hy (hpos.trans_le h)
    · exact (le_iff_of_units hnone hnone).mpr (le_refl _)
    · exact absurd hn.1 (not_lt.mpr (hm ▸ h))
  · obtain ⟨rfl, -⟩ | ⟨hn, rfl⟩ := cases_of_pos_units hy (hpos.trans_le h)
    · rw [finite_div_finite _ _ hpos.ne']
      exact (le_iff_of_units hnone (units?_ofQuotient _ _)).mpr (Int.natCast_nonneg _)
    · exact finite_div_le_finite_div (hpos.trans_le h) hpos (Nat.mul_le_mul_left _ h)

end

end GnssFusion.Binary64

namespace GnssFusion.Duration
open Binary64

/-- Units in the part of a duration that is less than a second. -/
def restUnits (rest : ℕ) : ℕ := kept (rest * one * one) (perSecond * one)

theorem units?_rest {rest : ℕ} (h : rest < perSecond) :
    (ofNat rest / ofNat perSecond).units? = some (restUnits rest : ℤ) := by
  obtain ⟨hrest, hvalue⟩ := ofNat_eq (h.le.trans (by decide : perSecond ≤ 2 ^ 53))
  obtain ⟨hn, hdivisor⟩ := ofNat_eq (n := perSecond) (by decide)
  have hunits : 0 < perSecond * one := Nat.mul_pos (by decide) oneUnits_pos
  rw [hvalue, hdivisor, finite_div_finite _ _ hunits.ne']
  exact units?_ofQuotient _ _

theorem restUnits_mono {a b : ℕ} (h : a ≤ b) : restUnits a ≤ restUnits b := by
  have hunits : 0 < perSecond * one := Nat.mul_pos (by decide) oneUnits_pos
  refine kept_mono hunits hunits (Nat.mul_le_mul_right _ ?_)
  exact Nat.mul_le_mul_right one (Nat.mul_le_mul_right one h)

theorem within_rest {rest : ℕ} (h : rest < perSecond) :
    Within 1 (ofNat rest / ofNat perSecond) ((rest : ℚ) / perSecond) := by
  exact .ratio (h.le.trans (by decide)) (by decide) (by decide)

theorem seconds_natCast (n : ℕ) :
    seconds n = .ofNat (n / perSecond) + .ofNat (n % perSecond) / .ofNat perSecond :=
  rfl

/-- Seconds are computed with two roundings. -/
theorem within_seconds {n : ℕ} (h : n ≤ 10 ^ 15) :
    Within 2 (seconds n) ((n : ℚ) / perSecond) := by
  have hper : (perSecond : ℚ) ≠ 0 := by norm_num [perSecond]
  have hsplit : (n : ℚ) / perSecond =
      (n / perSecond : ℕ) + ((n % perSecond : ℕ) : ℚ) / perSecond := by
    have hmod : (n : ℚ) = perSecond * (n / perSecond : ℕ) + (n % perSecond : ℕ) := by
      exact_mod_cast (Nat.div_add_mod n _).symm
    rw [hmod, add_div, mul_div_cancel_left₀ _ hper]
  have hwhole : Within 0 (.ofNat (n / perSecond)) (n / perSecond : ℕ) :=
    .ofNat ((Nat.div_le_self n _).trans (h.trans (by norm_num)))
  have hrest := within_rest (Nat.mod_lt n (by decide : 0 < perSecond))
  rw [seconds_natCast, hsplit]
  refine (hwhole.mono (Nat.zero_le 1) (Nat.cast_nonneg _)).add hrest ?_ (by norm_num)
  rw [← hsplit]
  exact ordinary_ratio h (by decide) (by decide)

/-- The part stays below a second when it is rounded. -/
theorem restUnits_lt {rest : ℕ} (h : rest < perSecond) : restUnits rest < one := by
  obtain ⟨units, hunits, hvalue, -, hnear⟩ := within_rest h
  have hrest := units?_rest h
  rw [hvalue] at hrest
  obtain rfl : units = restUnits rest := Int.ofNat.inj (Option.some.inj hrest)
  have hper : (0 : ℚ) < perSecond := by norm_num [perSecond]
  have hmost : (rest : ℚ) ≤ perSecond - 1 := by
    rw [le_sub_iff_add_le]
    exact_mod_cast h
  -- One nanosecond is far more than the rounding.
  have hlt : (rest : ℚ) / perSecond < slack := by
    rw [div_lt_iff₀ hper]
    refine hmost.trans_lt ?_
    norm_num [perSecond, slack]
  rw [pow_one] at hnear
  have hone := lt_of_mul_lt_mul_right ((hnear.trans_lt hlt).trans_eq (one_mul slack).symm)
    slack_pos.le
  rw [div_lt_one cast_one_pos] at hone
  exact_mod_cast hone

theorem units?_seconds (n : ℕ) :
    (seconds n).units? =
      some (kept (kept (n / perSecond * one) 1 + restUnits (n % perSecond)) 1 : ℤ) := by
  rw [seconds_natCast]
  exact units?_add (units?_ofNat _) (units?_rest (Nat.mod_lt n (by decide)))

/-- Seconds that are too many to be counted exactly are far apart. -/
theorem round_add_part {whole part e : ℕ} (hone : one = 2 ^ e) (hwhole : 2 ^ 53 ≤ whole)
    (hpart : part < one) : round (round (whole * one) 1 + part) 1 = round (whole * one) 1 := by
  have hlarge : 2 ^ (53 + e) ≤ round (whole * one) 1 := by
    refine two_pow_le_round ?_
    rw [Nat.div_one, Nat.pow_add, hone]
    exact Nat.mul_le_mul_right _ hwhole
  have hlog : 53 + e ≤ (round (whole * one) 1).log2 :=
    (Nat.le_log2 ((Nat.two_pow_pos _).trans_le hlarge).ne').mpr hlarge
  refine round_add_of_small (spacing_dvd_round _ _) ?_
  calc 2 * part < 2 * one := Nat.mul_lt_mul_of_pos_left hpart Nat.two_pos
    _ = 2 ^ (e + 1) := by rw [hone, Nat.pow_succ']
    _ ≤ 2 ^ spacing (round (whole * one) 1) :=
      Nat.pow_le_pow_right Nat.two_pos (by unfold spacing; omega)

/-- What is less than a second does not reach the next second. Of seconds that are too many to
be counted exactly it does not change the count. -/
theorem kept_seconds_le {whole next rest : ℕ} (hrest : rest < perSecond) (h : whole < next) :
    kept (kept (whole * one) 1 + restUnits rest) 1 ≤ kept (next * one) 1 := by
  have hpart := restUnits_lt hrest
  have hnext : kept (whole * one) 1 ≤ kept (next * one) 1 :=
    kept_mono Nat.one_pos Nat.one_pos
      (Nat.mul_le_mul_right 1 (Nat.mul_le_mul_right one h.le))
  obtain hfew | hmany := Nat.lt_or_ge whole (2 ^ 53)
  · obtain ⟨hexact, -⟩ := ofNat_eq hfew.le
    rw [kept_of_representable hexact]
    refine kept_mono Nat.one_pos Nat.one_pos (Nat.mul_le_mul_right 1 ?_)
    calc whole * one + restUnits rest ≤ (whole + 1) * one := by
          rw [Nat.succ_mul]
          exact Nat.add_le_add_left hpart.le _
      _ ≤ next * one := Nat.mul_le_mul_right one h
  · refine le_trans ?_ hnext
    by_cases hlimit : limit ≤ round (whole * one) 1
    · rw [kept, kept, Nat.min_eq_right hlimit]
      exact Nat.min_le_right _ _
    · rw [kept, kept, Nat.min_eq_left (not_le.mp hlimit).le, round_add_part one_eq hmany hpart]
      exact Nat.min_le_left _ _

/-- Durations in seconds are in the order of the durations. -/
theorem seconds_natCast_le {m n : ℕ} (h : m ≤ n) : (seconds m).le (seconds n) := by
  rw [le_iff_of_units (units?_seconds m) (units?_seconds n), Int.ofNat_le]
  obtain hlt | heq := (Nat.div_le_div_right (c := perSecond) h).lt_or_eq
  · calc kept (kept (m / perSecond * one) 1 + restUnits (m % perSecond)) 1
        ≤ kept (n / perSecond * one) 1 := kept_seconds_le (Nat.mod_lt m (by decide)) hlt
      _ = kept (kept (n / perSecond * one) 1) 1 := (kept_of_units (units?_ofNat _)).symm
      _ ≤ kept (kept (n / perSecond * one) 1 + restUnits (n % perSecond)) 1 :=
        kept_mono Nat.one_pos Nat.one_pos (Nat.mul_le_mul_right 1 (Nat.le_add_right _ _))
  · have hrest : m % perSecond ≤ n % perSecond := by
      have hm := Nat.div_add_mod m perSecond
      have hn := Nat.div_add_mod n perSecond
      rw [heq] at hm
      omega
    rw [heq]
    refine kept_mono Nat.one_pos Nat.one_pos (Nat.mul_le_mul_right 1 ?_)
    exact Nat.add_le_add_left (restUnits_mono hrest) _

end GnssFusion.Duration
