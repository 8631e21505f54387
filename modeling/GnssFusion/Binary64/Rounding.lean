import GnssFusion.Binary64.Basic

/-!
The one rounding of the format: an exact quotient of naturals, in units of the
smallest subnormal, goes to the nearest representable count, and a value halfway
between two of them to the one with the even significand. `representable_round`
says that the result has at most 53 significant bits.
-/

namespace GnssFusion.Binary64

/-- Nearest integer to `num / den`; a half goes to the even neighbour. -/
def nearestEven (num den : Nat) : Nat :=
  let quotient := num / den
  let twice := 2 * (num % den)
  if twice < den then quotient
  else if den < twice then quotient + 1
  else quotient + quotient % 2

/-- Nearest count to `num / den` with at most 53 significant bits. -/
def round (num den : Nat) : Nat :=
  let scale := 2 ^ spacing (num / den)
  nearestEven num (den * scale) * scale

theorem nearestEven_le (num den : Nat) : nearestEven num den ≤ num / den + 1 := by
  simp only [nearestEven]
  split
  · omega
  · split <;> omega

theorem log2_mul_two_pow {m : Nat} (h : m ≠ 0) (s : Nat) : (m * 2 ^ s).log2 = m.log2 + s := by
  have hp : 0 < 2 ^ s := Nat.two_pow_pos s
  have hne : m * 2 ^ s ≠ 0 := Nat.mul_ne_zero h (by omega)
  refine (Nat.log2_eq_iff hne).2 ⟨?_, ?_⟩
  · rw [Nat.pow_add]
    exact Nat.mul_le_mul_right _ (Nat.log2_self_le h)
  · rw [show m.log2 + s + 1 = (m.log2 + 1) + s by omega, Nat.pow_add]
    exact Nat.mul_lt_mul_of_pos_right Nat.lt_log2_self hp

/-- A significand of up to `2 ^ 53` at any spacing is a multiple of its own spacing. -/
theorem spacing_dvd_mul {m : Nat} (h : m ≤ 2 ^ 53) (s : Nat) :
    2 ^ spacing (m * 2 ^ s) ∣ m * 2 ^ s := by
  by_cases h0 : m = 0
  · subst h0; simp
  · unfold spacing
    rw [log2_mul_two_pow h0]
    by_cases h1 : m = 2 ^ 53
    · subst h1
      rw [← Nat.pow_add]
      exact Nat.pow_dvd_pow 2 (by rw [Nat.log2_two_pow]; omega)
    · have : m.log2 < 53 := (Nat.log2_lt h0).2 (by omega)
      exact Nat.dvd_trans (Nat.pow_dvd_pow 2 (by omega)) (Nat.dvd_mul_left _ _)

theorem div_spacing_lt (q : Nat) : q / 2 ^ spacing q < 2 ^ 53 := by
  unfold spacing
  refine (Nat.div_lt_iff_lt_mul (Nat.two_pow_pos _)).2 ?_
  rw [← Nat.pow_add]
  exact Nat.lt_of_lt_of_le Nat.lt_log2_self (Nat.pow_le_pow_right (by omega) (by omega))

theorem spacing_dvd_round (num den : Nat) : 2 ^ spacing (round num den) ∣ round num den := by
  refine spacing_dvd_mul (Nat.le_trans (nearestEven_le _ _) ?_) _
  rw [← Nat.div_div_eq_div_mul]
  exact div_spacing_lt _

/-- The number nearest to `± num / den` units; past the limit it is infinite. -/
def ofQuotient (negative : Bool) (num den : Nat) : Binary64 :=
  if h : round num den < limit then
    .finite negative (round num den) ⟨h, spacing_dvd_round num den⟩
  else
    .infinite negative

end GnssFusion.Binary64
