import GnssFusion.Proofs.Binary64.Sign

/-!
Sizes of computed numbers to within a factor of two. A rounding does not double a number
(`round_le`) and takes none below a power of two that it had reached (`AtLeast.ofQuotient`).
So a duration in seconds has at least the size of a nanosecond (`atLeast_seconds`), and a
count of 64 bits divided by it is far from the limit of the format (`ofNat_div_ne_infinite`).
-/

namespace GnssFusion.Binary64

theorem two_pow_spacing_le_succ (q : ℕ) : 2 ^ spacing q ≤ q + 1 := by
  by_cases h : q = 0
  · subst h
    decide
  · calc 2 ^ spacing q ≤ 2 ^ q.log2 := Nat.pow_le_pow_right Nat.two_pos (Nat.sub_le _ _)
      _ ≤ q + 1 := (Nat.log2_self_le h).trans (Nat.le_succ q)

theorem round_le (num den : ℕ) : round num den ≤ 2 * (num / den) + 1 := by
  have hspacing := two_pow_spacing_le_succ (num / den)
  unfold round
  generalize 2 ^ spacing (num / den) = scale at hspacing ⊢
  calc nearestEven num (den * scale) * scale ≤ (num / (den * scale) + 1) * scale :=
        Nat.mul_le_mul_right _ (nearestEven_le _ _)
    _ = num / den / scale * scale + scale := by rw [← Nat.div_div_eq_div_mul, Nat.succ_mul]
    _ ≤ 2 * (num / den) + 1 := by
        have := Nat.div_mul_le_self (num / den) scale
        omega

theorem ofQuotient_ne_infinite {num den : ℕ} (h : 2 * (num / den) + 1 < limit)
    (negative sign : Bool) : ofQuotient negative num den ≠ infinite sign := by
  rw [ofQuotient, dif_pos ((round_le num den).trans_lt h)]
  exact Binary64.noConfusion

/-- A number that is no smaller than so many units. An infinity is past every finite number. -/
def AtLeast (x : Binary64) (n : ℕ) : Prop := ∃ u, x.units? = some u ∧ (n : ℤ) ≤ u

theorem atLeast_zero {x : Binary64} {a : ℤ} (h : sign? x = some a) (ha : 0 ≤ a) :
    x.AtLeast 0 := by
  obtain ⟨u, hu, rfl⟩ := Option.map_eq_some_iff.mp h
  exact ⟨u, hu, Int.sign_nonneg_iff.mp ha⟩

theorem AtLeast.zero_le {x : Binary64} {n : ℕ} (h : x.AtLeast n) : (ofNat 0).le x := by
  obtain ⟨u, hu, hn⟩ := h
  rw [le, units?_zero, hu, decide_eq_true_eq]
  exact (Int.natCast_nonneg n).trans hn

namespace AtLeast

variable {x y : Binary64} {a b e : ℕ}

theorem mono (h : x.AtLeast a) (hab : b ≤ a) : x.AtLeast b := by
  obtain ⟨u, hu, ha⟩ := h
  exact ⟨u, hu, by omega⟩

theorem infinite (h : a ≤ limit) : (infinite false).AtLeast a :=
  ⟨limit, rfl, by exact_mod_cast h⟩

theorem of_round {num den : ℕ} (h : a ≤ round num den) (hlimit : a ≤ limit) :
    (ofQuotient false num den).AtLeast a := by
  unfold Binary64.ofQuotient
  split
  · exact ⟨round num den, rfl, by exact_mod_cast h⟩
  · exact infinite hlimit

theorem ofQuotient {num den : ℕ} (h : 2 ^ e ≤ num / den) (hlimit : 2 ^ e ≤ limit) :
    (ofQuotient false num den).AtLeast (2 ^ e) :=
  of_round (two_pow_le_round h) hlimit

theorem infinite_or_finite (h : x.AtLeast a) : x = .infinite false ∨
    ∃ negative n hn, x = finite negative n hn ∧ (a : ℤ) ≤ signed negative n := by
  obtain ⟨u, hu, ha⟩ := h
  rcases x with _ | negative | ⟨negative, n, hn⟩
  case nan => nomatch hu
  case infinite =>
    cases negative with
    | false => exact .inl rfl
    | true =>
        have hvalue : -(limit : ℤ) = u := Option.some.inj hu
        have hlimit := limit_pos
        omega
  case finite =>
    obtain rfl : signed negative n = u := Option.some.inj hu
    exact .inr ⟨negative, n, hn, rfl, ha⟩

theorem add (hx : x.AtLeast a) (hy : y.AtLeast b) (h : 2 ^ e ≤ a + b) (hlimit : 2 ^ e ≤ limit) :
    (x + y).AtLeast (2 ^ e) := by
  change (Binary64.add x y).AtLeast _
  obtain rfl | ⟨p, m, hm, rfl, ha⟩ := hx.infinite_or_finite
  · obtain rfl | ⟨q, n, hn, rfl, -⟩ := hy.infinite_or_finite
    · exact infinite hlimit
    · exact infinite hlimit
  · obtain rfl | ⟨q, n, hn, rfl, hb⟩ := hy.infinite_or_finite
    · exact infinite hlimit
    · have hpos : 0 < 2 ^ e := Nat.two_pow_pos e
      rw [Binary64.add, Binary64.ofUnits, if_neg (by omega), decide_eq_false (by omega)]
      exact ofQuotient (by rw [Nat.div_one]; omega) hlimit

theorem add_size (hx : x.AtLeast 0) (hy : y.AtLeast (2 ^ e)) (hlimit : 2 ^ e ≤ limit) :
    (x + y).AtLeast (2 ^ e) :=
  hx.add hy (Nat.zero_add _).ge hlimit

theorem size_add (hx : x.AtLeast (2 ^ e)) (hy : y.AtLeast 0) (hlimit : 2 ^ e ≤ limit) :
    (x + y).AtLeast (2 ^ e) :=
  hx.add hy (Nat.add_zero _).ge hlimit

theorem ofInt {z : ℤ} (h : 0 < z) : (ofInt z).AtLeast one := by
  have hunits : (one : ℤ) ≤ z * one := le_mul_of_one_le_left (Int.natCast_nonneg one) h
  have hone := oneUnits_pos
  rw [Binary64.ofInt, Binary64.ofUnits, if_neg (by omega), decide_eq_false (by omega)]
  refine of_round (one_le_round ?_) one_le_limit
  rw [Nat.div_one]
  omega

end AtLeast

theorem one_div_le_ratio {a n : ℕ} (ha : 0 < a) : one / n ≤ a * one * one / (n * one) := by
  rw [Nat.mul_div_mul_right _ _ oneUnits_pos]
  exact Nat.div_le_div_right (Nat.le_mul_of_pos_left one ha)

theorem two_pow_le_nanosecond : 2 ^ 1044 ≤ one / Duration.perSecond :=
  two_pow_le_div_of_eq (a := 1044) (b := 30) one_eq (by decide) (by decide) (by decide)

theorem two_pow_le_second : 2 ^ 1044 ≤ one := two_pow_le_one (e := 1044) (by decide)

theorem nanosecond_le_limit : 2 ^ 1044 ≤ limit := two_pow_le_second.trans one_le_limit

/-- Of a positive duration the whole seconds are positive, or the rest of them is. -/
theorem atLeast_seconds {d : Duration} (h : 0 < d) : (Duration.seconds d).AtLeast (2 ^ 1044) := by
  have hrest : (d.tmod Duration.perSecond).natAbs ≤ 2 ^ 53 := by
    rw [Int.natAbs_tmod]
    exact (Nat.mod_lt _ (by decide)).le.trans (by decide)
  have hsplit := Int.tdiv_mul_add_tmod d Duration.perSecond
  have hwhole : 0 ≤ d.tdiv Duration.perSecond := Int.tdiv_nonneg h.le (Int.natCast_nonneg _)
  have hpart : 0 ≤ d.tmod Duration.perSecond := Int.tmod_nonneg _ h.le
  rw [Duration.seconds]
  generalize d.tdiv Duration.perSecond = whole at hsplit hwhole ⊢
  generalize d.tmod Duration.perSecond = rest at hsplit hpart hrest ⊢
  obtain hzero | hpos := hwhole.eq_or_lt
  · have hrestPos : 0 < rest := by
      rw [← hzero, Int.zero_mul, Int.zero_add] at hsplit
      rw [hsplit]
      exact h
    obtain ⟨hz, hvalue⟩ := ofInt_eq hrest
    obtain ⟨hn, hdivisor⟩ := ofNat_eq (n := Duration.perSecond) (by decide)
    have hunits : 0 < Duration.perSecond * one := Nat.mul_pos (by decide) oneUnits_pos
    have hquotient : (ofInt rest / ofNat Duration.perSecond).AtLeast (2 ^ 1044) := by
      rw [hvalue, hdivisor, finite_div_finite _ _ hunits.ne', decide_eq_false (by omega)]
      refine AtLeast.ofQuotient (e := 1044) (two_pow_le_nanosecond.trans ?_) nanosecond_le_limit
      exact one_div_le_ratio (Int.natAbs_pos.mpr hrestPos.ne')
    have hnone : (ofInt whole).AtLeast 0 := atLeast_zero (sign?_ofInt _) (by rw [← hzero]; decide)
    exact hnone.add_size (e := 1044) hquotient nanosecond_le_limit
  · have hquotient : (ofInt rest / ofNat Duration.perSecond).AtLeast 0 :=
      atLeast_zero (sign?_ofInt_div_ofNat hrest (by decide) (by decide))
        (Int.sign_nonneg_iff.mpr hpart)
    exact ((AtLeast.ofInt hpos).mono two_pow_le_second).size_add (e := 1044) hquotient
      nanosecond_le_limit

theorem quotient_of_count_lt_limit :
    2 * ((2 * (2 ^ 64 * one) + 1) * one / 2 ^ 1044) + 1 < limit := by decide +kernel

theorem ofNat_eq_finite_le {k : ℕ} (h : k < 2 ^ 64) :
    ∃ units hunits, ofNat k = finite false units hunits ∧ units ≤ 2 * (2 ^ 64 * one) + 1 := by
  obtain rfl | hpos := Nat.eq_zero_or_pos k
  · exact ⟨0 * one, (ofNat_eq (Nat.zero_le _)).1, (ofNat_eq (Nat.zero_le _)).2, by omega⟩
  · have hunits : 0 < k * one := Nat.mul_pos hpos oneUnits_pos
    have hle : round (k * one) 1 ≤ 2 * (2 ^ 64 * one) + 1 :=
      calc round (k * one) 1 ≤ 2 * (k * one / 1) + 1 := round_le _ _
        _ ≤ 2 * (2 ^ 64 * one) + 1 := by
            rw [Nat.div_one]
            exact Nat.add_le_add_right (Nat.mul_le_mul_left 2 (Nat.mul_le_mul_right one h.le)) 1
    have hfour := one_mul_two_pow_lt_limit (e := 66) (by decide)
    have hlt : round (k * one) 1 < limit := by
      have hone := oneUnits_pos
      omega
    refine ⟨round (k * one) 1, ⟨hlt, spacing_dvd_round _ _⟩, ?_, hle⟩
    rw [ofNat, ofInt, ← Int.natCast_mul, ofUnits, if_neg (by omega), decide_eq_false (by omega),
      Int.natAbs_natCast, ofQuotient, dif_pos hlt]

theorem ofNat_div_ne_infinite {k : ℕ} {y : Binary64} (hk : k < 2 ^ 64)
    (hy : y.AtLeast (2 ^ 1044)) (negative : Bool) : ofNat k / y ≠ infinite negative := by
  obtain ⟨m, hm, hvalue, hle⟩ := ofNat_eq_finite_le hk
  rw [hvalue]
  rcases y with _ | q | ⟨q, n, hn⟩
  case nan => obtain ⟨u, hu, -⟩ := hy; nomatch hu
  case infinite => exact Binary64.noConfusion
  case finite =>
    obtain ⟨u, hu, hsize⟩ := hy
    have hn : 2 ^ 1044 ≤ n := by
      have hsigned : signed q n = u := Option.some.inj hu
      have hbound : signed q n ≤ n := by cases q <;> simp only [signed] <;> omega
      rw [← hsigned] at hsize
      exact_mod_cast hsize.trans hbound
    have hpos : 0 < n := (Nat.two_pow_pos 1044).trans_le hn
    rw [finite_div_finite _ _ hpos.ne']
    refine ofQuotient_ne_infinite ?_ _ _
    have hquotient : m * one / n ≤ (2 * (2 ^ 64 * one) + 1) * one / 2 ^ 1044 :=
      (Nat.div_le_div_left hn (Nat.two_pow_pos 1044)).trans
        (Nat.div_le_div_right (Nat.mul_le_mul_right one hle))
    exact (Nat.add_le_add_right (Nat.mul_le_mul_left 2 hquotient) 1).trans_lt
      quotient_of_count_lt_limit

end GnssFusion.Binary64
