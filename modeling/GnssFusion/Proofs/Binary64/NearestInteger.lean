import GnssFusion.Proofs.Binary64.Order

/-!
Signed numbers and the integers nearest to them. What keeps the order of sizes keeps that of
signed numbers (`signed_le_signed`), so a larger number has no smaller nearest integer
(`nearestInt_mono`). A whole number that was divided with two roundings is returned by
multiplying again and going to the nearest integer (`nearestInt_mul_ofNat`).
-/

namespace GnssFusion.Binary64

/-! Order with either sign. -/

/-- What is done to the sizes keeps the order of signed numbers, if zero stays zero. -/
theorem signed_le_signed {f : ℕ → ℕ} (hf : Monotone f) (hzero : f 0 = 0) {p q : Bool} {m n : ℕ}
    (h : signed p m ≤ signed q n) : signed p (f m) ≤ signed q (f n) := by
  cases p <;> cases q
  case false.false => exact Int.ofNat_le.mpr (hf (Int.ofNat_le.mp h))
  case true.true =>
    exact neg_le_neg (Int.ofNat_le.mpr (hf (Int.ofNat_le.mp (neg_le_neg_iff.mp h))))
  case true.false =>
    simp only [signed, if_true, if_false, Bool.false_eq_true]
    omega
  case false.true =>
    -- Only zeros are in this order.
    simp only [signed, if_true, if_false, Bool.false_eq_true] at h
    obtain rfl : m = 0 := by omega
    obtain rfl : n = 0 := by omega
    rw [hzero]
    exact le_refl 0

section
variable {x y : Binary64} {a : ℤ} {c : ℕ}

/-- An infinity counts as the limit, also after a multiplication. -/
theorem units?_mul_finite (hx : x.units? = some a) (hc : Representable c) (hone : one ≤ c) :
    ∃ p m, a = signed p m ∧
      (x * finite false c hc).units? = some (signed p (kept (m * c) one)) := by
  rcases x with _ | p | ⟨p, m, hm⟩
  · nomatch hx
  · have hlarge : limit ≤ limit * c / one :=
      (Nat.le_div_iff_mul_le oneUnits_pos).mpr (Nat.mul_le_mul_left limit hone)
    have hkept : kept (limit * c) one = limit := Nat.min_eq_right (limit_le_round hlarge)
    have hpos : c ≠ 0 := (oneUnits_pos.trans_le hone).ne'
    have hproduct : (infinite p * finite false c hc : Binary64) = infinite p := by
      change (if c = 0 then nan else infinite (p ^^ false)) = infinite p
      rw [if_neg hpos, Bool.xor_false]
    refine ⟨p, limit, (Option.some.inj hx).symm, ?_⟩
    rw [hproduct, hkept]
    rfl
  · refine ⟨p, m, (Option.some.inj hx).symm, ?_⟩
    rw [finite_mul_finite, Bool.xor_false, units?_ofQuotient_signed]

/-- Multiplication by a number that is not below one keeps the order. -/
theorem mul_finite_le_mul_finite (h : x.le y) (hc : Representable c) (hone : one ≤ c) :
    (x * finite false c hc).le (y * finite false c hc) := by
  obtain ⟨a, b, ha, hb, hab⟩ := le_iff.mp h
  obtain ⟨p, m, rfl, hx⟩ := units?_mul_finite ha hc hone
  obtain ⟨q, n, rfl, hy⟩ := units?_mul_finite hb hc hone
  rw [le_iff_of_units hx hy]
  refine signed_le_signed (f := fun n => kept (n * c) one) ?_ ?_ hab
  · intro m n hmn
    exact kept_mono oneUnits_pos oneUnits_pos
      (Nat.mul_le_mul_right one (Nat.mul_le_mul_right c hmn))
  · rw [Nat.zero_mul, kept, round_zero, Nat.min_eq_left (Nat.zero_le limit)]

/-! Nearest integers. -/

/-- The integer nearest to so many units, a half going up. -/
def nearestSize (n : ℕ) : ℕ := (2 * n + one) / (2 * one)

theorem nearestSize_mono : Monotone nearestSize := fun _ _ h => Nat.div_le_div_right (by omega)

theorem nearestSize_zero : nearestSize 0 = 0 :=
  Nat.div_eq_of_lt (by have := oneUnits_pos; omega)

theorem clamp_of_mem {low high z : ℤ} (hlow : low ≤ z) (hhigh : z ≤ high) :
    clamp low high z = z := by
  rw [clamp, min_eq_right hhigh, max_eq_right hlow]

theorem clamp_mono {low high z w : ℤ} (h : z ≤ w) : clamp low high z ≤ clamp low high w :=
  max_le_max_left low (min_le_min_left high h)

section
variable {low high : ℤ}

theorem nearestInt_finite (p : Bool) {m : ℕ} (hm : Representable m) :
    nearestInt low high (finite p m hm) = clamp low high (signed p (nearestSize m)) := rfl

variable (hlow : -(nearestSize limit : ℤ) ≤ low) (hhigh : high ≤ nearestSize limit)
  (hrange : low ≤ high)
include hlow hhigh hrange

/-- For a range among the finite numbers an infinity is as good as the limit. -/
theorem nearestInt_of_units (hx : x.units? = some a) :
    ∃ p m, a = signed p m ∧ nearestInt low high x = clamp low high (signed p (nearestSize m)) := by
  rcases x with _ | p | ⟨p, m, hm⟩
  · nomatch hx
  · refine ⟨p, limit, (Option.some.inj hx).symm, ?_⟩
    cases p <;> simp only [nearestInt, clamp, signed, if_true, if_false, Bool.false_eq_true] <;>
      omega
  · exact ⟨p, m, (Option.some.inj hx).symm, nearestInt_finite p hm⟩

theorem nearestInt_mono (h : x.le y) : nearestInt low high x ≤ nearestInt low high y := by
  obtain ⟨a, b, ha, hb, hab⟩ := le_iff.mp h
  obtain ⟨p, m, rfl, hx⟩ := nearestInt_of_units hlow hhigh hrange ha
  obtain ⟨q, n, rfl, hy⟩ := nearestInt_of_units hlow hhigh hrange hb
  rw [hx, hy]
  exact clamp_mono (signed_le_signed nearestSize_mono nearestSize_zero hab)

end

/-- A number within three roundings of a whole number is nearest to that one. -/
theorem nearestSize_of_near {u n : ℕ} (h : Near 3 ((u : ℚ) / one) n) (hn : n ≤ 10 ^ 15) :
    nearestSize u = n := by
  have hone := cast_one_pos
  have hcast : (n : ℚ) ≤ 10 ^ 15 := by exact_mod_cast hn
  have hclose : (n : ℚ) - 1 / 2 ≤ u / one ∧ (u : ℚ) / one < n + 1 / 2 := by
    obtain ⟨hlow, hhigh⟩ := h
    generalize (u : ℚ) / one = v at hlow hhigh ⊢
    norm_num [slack] at hlow hhigh ⊢
    constructor <;> linarith
  obtain ⟨hfrom, hto⟩ := hclose
  rw [le_div_iff₀ hone] at hfrom
  rw [div_lt_iff₀ hone] at hto
  refine Nat.div_eq_of_lt_le ?_ ?_
  · have hunits : ((n * (2 * one) : ℕ) : ℚ) ≤ (2 * u + one : ℕ) := by
      push_cast
      linarith
    exact_mod_cast hunits
  · have hunits : ((2 * u + one : ℕ) : ℚ) < ((n + 1) * (2 * one) : ℕ) := by
      push_cast
      linarith
    exact_mod_cast hunits

end

/-! Whole numbers that were divided. -/

section
variable {x : Binary64} {n d : ℕ} (h : Within 2 x ((n : ℚ) / d)) (hn : n ≤ 10 ^ 15) (hd : 0 < d)
  (hsmall : d ≤ 10 ^ 15)
include h hn hd hsmall

/-- Two roundings on the way there and one on the way back are less than a half together. -/
theorem exists_nearestSize : ∃ u hu, x * ofNat d = finite false u hu ∧ nearestSize u = n := by
  have hvalue : (n : ℚ) / d * d = n := div_mul_cancel₀ _ (by exact_mod_cast hd.ne')
  have hordinary : Ordinary n := by
    have hratio := ordinary_ratio hn Nat.one_pos (by decide)
    rwa [Nat.cast_one, div_one] at hratio
  obtain ⟨u, hu, hproduct, hnear⟩ := h.mul (.ofNat (n := d) (hsmall.trans (by decide)))
    (div_nonneg (Nat.cast_nonneg _) (Nat.cast_nonneg _)) (Nat.cast_nonneg _)
    (by rwa [hvalue]) (by decide)
  rw [hvalue] at hnear
  exact ⟨u, hu, hproduct, nearestSize_of_near hnear hn⟩

variable (low high : ℤ)

theorem nearestInt_mul_ofNat : nearestInt low high (x * ofNat d) = clamp low high n := by
  obtain ⟨u, hu, hproduct, hsize⟩ := exists_nearestSize h hn hd hsmall
  rw [hproduct, nearestInt_finite, hsize]
  rfl

theorem nearestInt_neg_mul_ofNat : nearestInt low high (-x * ofNat d) = clamp low high (-n) := by
  obtain ⟨u, hu, hproduct, hsize⟩ := exists_nearestSize h hn hd hsmall
  have hsigned : -finite false u hu = finite true u hu := rfl
  rw [neg_mul, hproduct, hsigned, nearestInt_finite, hsize]
  rfl

end

end GnssFusion.Binary64
