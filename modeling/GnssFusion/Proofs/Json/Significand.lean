import GnssFusion.Proofs.Decimal.ReadBack
import GnssFusion.Proofs.Json.Number

/-!
The digits of a literal that are taken. Digits are left only once the number of those before
them is large (`append_full`), and whatever is written behind a large number does not move it
by more than a rounding (`near_extend`). So the digits that fit 64 bits, scaled to their
place, are within one rounding of all digits (`near_significand`).
-/

namespace GnssFusion.Json.Number

open Binary64 (slack Near)

theorem extend_eq (value : ℕ) (digits : List Char) :
    extend value digits = value * 10 ^ digits.length + digitsValue digits := by
  have hfold : ∀ digits value, extend value digits
      = value * 10 ^ digits.length + extend 0 digits := by
    intro digits
    induction digits with
    | nil => simp [extend]
    | cons c digits ih =>
        intro value
        change extend (10 * value + digitValue c) digits
          = value * 10 ^ (digits.length + 1) + extend (10 * 0 + digitValue c) digits
        rw [ih, ih (10 * 0 + digitValue c), Nat.pow_succ]
        ring
  exact hfold digits value

theorem extend_append (value : ℕ) (a b : List Char) :
    extend value (a ++ b) = extend (extend value a) b :=
  List.foldl_append

theorem digitValue_le {c : Char} (h : c.isDigit) : digitValue c ≤ 9 := by
  rw [digitValue, if_pos h]
  simp only [Char.isDigit, Bool.and_eq_true, decide_eq_true_eq] at h
  have hhigh : c.toNat ≤ '9'.toNat := UInt32.le_iff_toNat_le.mp h.2
  exact Nat.sub_le_sub_right hhigh _

theorem digitsValue_lt {digits : List Char} (h : AllDigits digits) :
    digitsValue digits < 10 ^ digits.length := by
  induction digits with
  | nil => decide
  | cons c digits ih =>
      have hc := digitValue_le (h c List.mem_cons_self)
      have hrest := ih fun d hd => h d (List.mem_cons_of_mem c hd)
      have hvalue : digitsValue (c :: digits)
          = digitValue c * 10 ^ digits.length + digitsValue digits := by
        change extend (10 * 0 + digitValue c) digits = _
        rw [extend_eq, Nat.mul_zero, Nat.zero_add]
      have hfirst := Nat.mul_le_mul_right (10 ^ digits.length) hc
      rw [hvalue, List.length_cons, Nat.pow_succ]
      omega

theorem append_spec (value : ℕ) (digits : List Char) :
    ∃ taken, digits = taken ++ (append value digits).2
      ∧ (append value digits).1 = extend value taken := by
  induction digits generalizing value with
  | nil => exact ⟨[], rfl, rfl⟩
  | cons c digits ih =>
      simp only [append]
      split
      case isTrue =>
        obtain ⟨taken, hdigits, hvalue⟩ := ih (10 * value + digitValue c)
        exact ⟨c :: taken, by rw [List.cons_append, ← hdigits], hvalue⟩
      case isFalse => exact ⟨[], rfl, rfl⟩

theorem append_lt {value : ℕ} (h : value < wordLimit) (digits : List Char) :
    (append value digits).1 < wordLimit := by
  induction digits generalizing value with
  | nil => exact h
  | cons c digits ih =>
      simp only [append]
      split
      case isTrue hstep => exact ih hstep
      case isFalse => exact h

/-- Digits are left only where a further one does not fit. -/
theorem append_full {value : ℕ} {digits : List Char} (hdigits : AllDigits digits)
    (h : (append value digits).2 ≠ []) : wordLimit ≤ 10 * (append value digits).1 + 9 := by
  induction digits generalizing value with
  | nil => exact absurd rfl h
  | cons c digits ih =>
      simp only [append] at h ⊢
      split at h
      case isTrue hstep =>
        rw [if_pos hstep]
        exact ih (fun d hd => hdigits d (List.mem_cons_of_mem c hd)) h
      case isFalse hstep =>
        rw [if_neg hstep]
        have hc := digitValue_le (hdigits c List.mem_cons_self)
        dsimp only
        omega

/-- Digits written behind a number change it by less than one in its last place. -/
theorem extend_between {digits : List Char} (h : AllDigits digits) (n : ℕ) (j : ℤ) :
    (10 : ℚ) ^ j * n ≤ extend n digits * 10 ^ (j - digits.length)
      ∧ extend n digits * 10 ^ (j - digits.length) ≤ (10 : ℚ) ^ j * (n + 1) := by
  have hlt : (digitsValue digits : ℚ) ≤ 10 ^ digits.length := by
    exact_mod_cast (digitsValue_lt h).le
  have hsplit : (extend n digits : ℚ) * 10 ^ (j - digits.length)
      = 10 ^ j * (n + digitsValue digits / 10 ^ digits.length) := by
    rw [extend_eq, zpow_sub₀ (by norm_num), zpow_natCast]
    push_cast
    field_simp
  have hrest : (digitsValue digits : ℚ) / 10 ^ digits.length ≤ 1 :=
    div_le_one_of_le₀ hlt (by positivity)
  have hpos : (0 : ℚ) < 10 ^ j := zpow_pos (by norm_num) j
  rw [hsplit]
  refine ⟨mul_le_mul_of_nonneg_left ?_ hpos.le, mul_le_mul_of_nonneg_left ?_ hpos.le⟩
  · exact le_add_of_nonneg_right (by positivity)
  · linarith

/-- Two numbers between the same large neighbours are within one rounding of each other. -/
theorem near_of_between {n : ℕ} {scale a b : ℚ} (hn : wordLimit ≤ 10 * n + 9) (hscale : 0 ≤ scale)
    (ha : scale * n ≤ a ∧ a ≤ scale * (n + 1)) (hb : scale * n ≤ b ∧ b ≤ scale * (n + 1)) :
    Near 1 a b := by
  have hlarge : (2 : ℚ) ^ 53 ≤ n + 1 := by
    have hnat : 2 ^ 53 ≤ n + 1 := by
      simp only [wordLimit] at hn
      omega
    exact_mod_cast hnat
  have hstep : ((n : ℚ) + 1) * slack ≤ n := by
    rw [slack]
    linarith
  have hbetween : ∀ {x y : ℚ}, x ≤ scale * (n + 1) → scale * n ≤ y → x * slack ^ 1 ≤ y := by
    intro x y hx hy
    calc x * slack ^ 1 ≤ scale * (n + 1) * slack := by
          rw [pow_one]
          exact mul_le_mul_of_nonneg_right hx Binary64.slack_pos.le
      _ = scale * ((n + 1) * slack) := by ring
      _ ≤ scale * n := mul_le_mul_of_nonneg_left hstep hscale
      _ ≤ y := hy
  exact ⟨hbetween hb.2 ha.1, hbetween ha.2 hb.1⟩

/-- Whatever digits are written behind a large number, it moves by no more than a rounding. -/
theorem near_extend {n : ℕ} {a b : List Char} (ha : AllDigits a) (hb : AllDigits b)
    (hn : wordLimit ≤ 10 * n + 9) (j : ℤ) :
    Near 1 (extend n a * 10 ^ (j - a.length)) (extend n b * 10 ^ (j - b.length)) :=
  near_of_between hn (zpow_nonneg (by norm_num) j) (extend_between ha n j) (extend_between hb n j)

/-- The digits that fit 64 bits are within one rounding of all digits. -/
theorem near_significand {whole fraction : List Char} (hwhole : AllDigits whole)
    (hfraction : AllDigits fraction) :
    Near 1 ((append (append 0 whole).1 fraction).1
        * 10 ^ ((append 0 whole).2.length
          - (fraction.length - (append (append 0 whole).1 fraction).2.length : ℕ) : ℤ))
      (digitsValue (whole ++ fraction) * 10 ^ (-fraction.length : ℤ)) := by
  obtain ⟨taken, hdigits, hvalue⟩ := append_spec 0 whole
  obtain ⟨behind, hbehind, hsignificand⟩ := append_spec (append 0 whole).1 fraction
  have hfull : (append 0 whole).2 ≠ [] → wordLimit ≤ 10 * (append 0 whole).1 + 9 :=
    append_full hwhole
  have hfull' : (append (append 0 whole).1 fraction).2 ≠ []
      → wordLimit ≤ 10 * (append (append 0 whole).1 fraction).1 + 9 := append_full hfraction
  generalize (append 0 whole).2 = more at hdigits hfull ⊢
  generalize (append 0 whole).1 = s at hvalue hfull hbehind hsignificand hfull' ⊢
  generalize (append s fraction).2 = dropped at hbehind hfull' ⊢
  generalize (append s fraction).1 = significand at hsignificand hfull' ⊢
  subst hvalue hsignificand hdigits hbehind
  have htaken : (behind ++ dropped).length - dropped.length = behind.length := by simp
  have hall : digitsValue (taken ++ more ++ (behind ++ dropped))
      = extend (extend 0 taken) (more ++ (behind ++ dropped)) := by
    rw [← extend_append, List.append_assoc]
    rfl
  rw [htaken, hall]
  by_cases hmore : more = []
  · subst hmore
    rw [List.nil_append, extend_append, List.length_nil, Nat.cast_zero, zero_sub]
    by_cases hdropped : dropped = []
    · subst hdropped
      rw [List.append_nil]
      exact Near.rfl.mono (Nat.zero_le 1)
        (mul_nonneg (Nat.cast_nonneg _) (zpow_nonneg (by norm_num) _))
    · have hrest : AllDigits dropped := fun c hc => hfraction c (List.mem_append_right behind hc)
      have hnear := near_extend (a := []) nofun hrest (hfull' hdropped) (-behind.length)
      rw [List.length_nil, Nat.cast_zero, sub_zero, ← neg_add', ← Nat.cast_add,
        ← List.length_append] at hnear
      exact hnear
  · have hrest : AllDigits more := fun c hc => hwhole c (List.mem_append_right taken hc)
    have hsome : AllDigits behind := fun c hc => hfraction c (List.mem_append_left dropped hc)
    have hnear := near_extend hsome (hrest.append hfraction) (hfull hmore) more.length
    rw [List.length_append, Nat.cast_add, sub_add_cancel_left] at hnear
    exact hnear

end GnssFusion.Json.Number
