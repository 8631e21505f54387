import GnssFusion.Proofs.Binary64.Bounds

/-!
Large computed numbers. A number that a few roundings lie between and an exact one is finite if
the exact one is below the bound by as many roundings (`isFinite_mul`), and infinite if it is
above it by as many (`not_isFinite_mul`). In between it is the roundings that decide.
-/

namespace GnssFusion.Binary64

/-- The first power of two above every finite number. -/
def bound : ℕ := 2 ^ 1024

theorem bound_eq : bound = 2 ^ 1024 := by rw [bound]

theorem limit_eq : limit = bound * one :=
  eq_mul_of_eq bound_eq one_eq limit_eq_two_pow (by decide)

theorem power_lt_bound {n : ℕ} (h : n ≤ 308) : 10 ^ n * 2 ^ 53 < bound * (2 ^ 53 - 1) :=
  (Nat.mul_le_mul_right _ (Nat.pow_le_pow_right (by decide) h)).trans_lt (by decide +kernel)

theorem bound_le_power_of {m n : ℕ} (hm : bound ≤ 10 ^ m) (h : m ≤ n) : bound ≤ 10 ^ n :=
  hm.trans (Nat.pow_le_pow_right (by decide) h)

theorem bound_le_power {n : ℕ} (h : 308 < n) : bound ≤ 10 ^ n :=
  bound_le_power_of (m := 309) (by decide +kernel) h

theorem word_lt_bound : 2 ^ 64 * 2 ^ 53 < bound * (2 ^ 53 - 1) :=
  calc 2 ^ 64 * 2 ^ 53 < 2 ^ 118 := by decide
    _ ≤ bound := two_pow_le_of_eq bound_eq (by decide)
    _ ≤ bound * (2 ^ 53 - 1) := Nat.le_mul_of_pos_right bound (by decide)

theorem slack_pow_le_one (k : ℕ) : slack ^ k ≤ 1 := pow_le_one₀ slack_pos.le slack_le_one

section
variable {k num den : ℕ} {v : ℚ}

theorem near_round_of_near (hden : 0 < den) (h : Near k ((num : ℚ) / den / one) v) (hv : 1 ≤ v)
    (hk : k ≤ 100) : Near (1 + k) ((round num den : ℚ) / one) v := by
  have hlow : ((2 : ℚ) ^ 100)⁻¹ ≤ v := le_trans (by norm_num) hv
  have hround := near_round hden (two_pow_le_of_near hden h hlow hk)
  have hone : Near 0 (one : ℚ) one := Near.rfl
  have hquotient := hround.div hone (by positivity) cast_one_pos
  exact hquotient.trans h

theorem within_ofQuotient (hden : 0 < den) (h : Near k ((num : ℚ) / den / one) v) (hv : 1 ≤ v)
    (hk : k ≤ 100) (hhigh : v < bound * slack ^ (1 + k)) :
    Within (1 + k) (ofQuotient false num den) v := by
  have hround := near_round_of_near hden h hv hk
  have hlt : round num den < limit := by
    have hcast : (round num den : ℚ) / one < bound :=
      lt_of_mul_lt_mul_right (hround.2.trans_lt hhigh) (slack_pow_pos (1 + k)).le
    rw [div_lt_iff₀ cast_one_pos] at hcast
    rw [limit_eq]
    exact_mod_cast hcast
  exact ⟨_, _, dif_pos hlt, hround⟩

theorem ofQuotient_eq_infinite (hden : 0 < den) (h : Near k ((num : ℚ) / den / one) v) (hv : 1 ≤ v)
    (hk : k ≤ 100) (hhigh : bound ≤ v * slack ^ (1 + k)) (negative : Bool) :
    ofQuotient negative num den = infinite negative := by
  have hround := near_round_of_near hden h hv hk
  refine dif_neg (not_lt.mpr ?_)
  have hcast : (bound : ℚ) ≤ (round num den : ℚ) / one := hhigh.trans hround.1
  rw [le_div_iff₀ cast_one_pos] at hcast
  rw [limit_eq]
  exact_mod_cast hcast

end

theorem lt_bound_mul_slack {n : ℕ} (h : n * 2 ^ 53 < bound * (2 ^ 53 - 1)) :
    (n : ℚ) < bound * slack ^ 1 := by
  have hcast : ((n * 2 ^ 53 : ℕ) : ℚ) < (bound * (2 ^ 53 - 1) : ℕ) := Nat.cast_lt.mpr h
  push_cast at hcast
  rw [pow_one, slack]
  linarith

/-- A whole number that is given exactly. -/
theorem within_whole {n : ℕ} (hpos : 0 < n) (h : n * 2 ^ 53 < bound * (2 ^ 53 - 1)) :
    Within 1 (ofQuotient false (n * one) 1) n := by
  have hexact : Near 0 (((n * one : ℕ) : ℚ) / (1 : ℕ) / one) n := by
    have hvalue : ((n * one : ℕ) : ℚ) / (1 : ℕ) / one = n := by
      rw [Nat.cast_one, div_one, Nat.cast_mul, mul_div_cancel_right₀ _ cast_one_pos.ne']
    rw [hvalue]
    exact Near.rfl
  exact within_ofQuotient Nat.one_pos hexact (by exact_mod_cast hpos) (Nat.zero_le _)
    (lt_bound_mul_slack h)

theorem within_ofNat {n : ℕ} (hpos : 0 < n) (h : n < 2 ^ 64) : Within 1 (ofNat n) n := by
  have hunits : 0 < n * one := Nat.mul_pos hpos oneUnits_pos
  have hvalue : ofNat n = ofQuotient false (n * one) 1 := by
    rw [ofNat, ofInt, ← Int.natCast_mul, ofUnits, if_neg (by omega), decide_eq_false (by omega),
      Int.natAbs_natCast]
  rw [hvalue]
  exact within_whole hpos ((Nat.mul_le_mul_right _ h.le).trans_lt word_lt_bound)

section
variable {x y : Binary64} {j k : ℕ} {v w : ℚ}

theorem mul_eq_of_within (hx : Within j x v) (hy : Within k y w) (hv : 0 ≤ v) (hw : 0 ≤ w) :
    ∃ num, x * y = ofQuotient false num one
      ∧ Near (j + k) ((num : ℚ) / one / one) (v * w) := by
  obtain ⟨m, hm, rfl, hx⟩ := hx
  obtain ⟨n, hn, rfl, hy⟩ := hy
  refine ⟨m * n, finite_mul_finite hm hn, ?_⟩
  have hvalue : ((m * n : ℕ) : ℚ) / one / one = m / one * (n / one) := by
    push_cast
    ring
  rw [hvalue]
  exact hx.mul hy hv hw

/-- A product of large numbers is finite below the bound, and infinite from there on, save
where its roundings decide. -/
theorem isFinite_mul (hx : Within j x v) (hy : Within k y w) (hv : 0 ≤ v) (hw : 0 ≤ w)
    (hvw : 1 ≤ v * w) (hjk : j + k ≤ 100) (h : v * w < bound * slack ^ (1 + (j + k))) :
    (x * y).isFinite := by
  obtain ⟨num, hproduct, hnear⟩ := mul_eq_of_within hx hy hv hw
  obtain ⟨units, hunits, hvalue, -⟩ := within_ofQuotient oneUnits_pos hnear hvw hjk h
  rw [hproduct, hvalue]
  rfl

theorem not_isFinite_mul (hx : Within j x v) (hy : Within k y w) (hv : 0 ≤ v) (hw : 0 ≤ w)
    (hvw : 1 ≤ v * w) (hjk : j + k ≤ 100) (h : bound ≤ v * w * slack ^ (1 + (j + k))) :
    (x * y).isFinite = false := by
  obtain ⟨num, hproduct, hnear⟩ := mul_eq_of_within hx hy hv hw
  rw [hproduct, ofQuotient_eq_infinite oneUnits_pos hnear hvw hjk h]
  rfl

end

end GnssFusion.Binary64
