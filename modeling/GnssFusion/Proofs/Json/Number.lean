import GnssFusion.Proofs.Binary64.Bounds
import GnssFusion.Json.Number

/-!
Numbers and their literals. Exactly the literals of integers of 64 bits are integers, and
none of them changes its value (`ofText?_eq_integer_iff`).
-/

namespace GnssFusion.Json

/-- The literals without fraction and exponent, with their values. There is no negative
zero among them. -/
structure NumberText.IsInteger (literal : NumberText) (z : ℤ) : Prop where
  fraction : literal.fraction = none
  exponent : literal.exponent = none
  zero : literal.negative → z ≠ 0
  value : z = if literal.negative then -(digitsValue literal.whole : ℤ)
    else digitsValue literal.whole

namespace Number

/-- The number with digits written behind it. -/
def extend (value : ℕ) (digits : List Char) : ℕ :=
  digits.foldl (fun value c => 10 * value + digitValue c) value

theorem le_extend (value : ℕ) (digits : List Char) : value ≤ extend value digits := by
  induction digits generalizing value with
  | nil => exact le_rfl
  | cons c digits ih =>
      have hstep : value ≤ 10 * value + digitValue c := by omega
      exact hstep.trans (ih _)

theorem append_of_lt {value : ℕ} {digits : List Char} (h : extend value digits < wordLimit) :
    append value digits = (extend value digits, []) := by
  induction digits generalizing value with
  | nil => rfl
  | cons c digits ih =>
      have hstep : 10 * value + digitValue c < wordLimit := (le_extend _ digits).trans_lt h
      rw [append, if_pos hstep]
      exact ih h

theorem append_of_le {value : ℕ} {digits : List Char} (hvalue : value < wordLimit)
    (h : wordLimit ≤ extend value digits) : (append value digits).2 ≠ [] := by
  induction digits generalizing value with
  | nil => exact absurd h hvalue.not_ge
  | cons c digits ih =>
      simp only [append]
      split
      case isTrue hstep => exact ih hstep h
      case isFalse => exact List.cons_ne_nil c digits

theorem ofText?_of_lt {literal : NumberText} (hfraction : literal.fraction = none)
    (hexponent : literal.exponent = none) (h : digitsValue literal.whole < wordLimit) :
    ofText? literal
      = if !literal.negative then some (.integer (digitsValue literal.whole))
        else if digitsValue literal.whole = 0 ∨ 2 ^ 63 < digitsValue literal.whole then
          some (.float (-Binary64.ofNat (digitsValue literal.whole)))
        else some (.integer (-digitsValue literal.whole)) := by
  have happend : append 0 literal.whole = (digitsValue literal.whole, []) := append_of_lt h
  simp only [ofText?, happend, hfraction, hexponent, Option.isNone_none, and_self, if_true]

theorem parts_of_integer {literal : NumberText} {z : ℤ} (h : ofText? literal = some (.integer z)) :
    literal.fraction = none ∧ literal.exponent = none ∧ digitsValue literal.whole < wordLimit := by
  by_contra hparts
  rw [ofText?] at h
  cases happend : append 0 literal.whole with
  | mk significand more =>
      have hfloat : ¬ (literal.fraction.isNone ∧ literal.exponent.isNone ∧ more = []) := by
        rintro ⟨hfraction, hexponent, rfl⟩
        refine hparts ⟨Option.isNone_iff_eq_none.mp hfraction,
          Option.isNone_iff_eq_none.mp hexponent, ?_⟩
        by_contra hle
        have hmore : (append 0 literal.whole).2 ≠ [] := append_of_le (by decide) (not_lt.mp hle)
        exact hmore (by rw [happend])
      simp only [happend, if_neg hfloat] at h
      obtain ⟨x, -, hx⟩ := Option.map_eq_some_iff.mp h
      cases hx

theorem ofText?_eq_integer_iff {literal : NumberText} {z : ℤ} :
    ofText? literal = some (.integer z) ↔ literal.IsInteger z ∧ -2 ^ 63 ≤ z ∧ z < 2 ^ 64 := by
  have hlimit : wordLimit = 2 ^ 64 := rfl
  constructor
  · intro h
    obtain ⟨hfraction, hexponent, hlt⟩ := parts_of_integer h
    rw [ofText?_of_lt hfraction hexponent hlt] at h
    split at h
    case isTrue hpositive =>
      obtain rfl : digitsValue literal.whole = z := by simpa using h
      have hnegative : literal.negative = false := by simpa using hpositive
      exact ⟨⟨hfraction, hexponent, by simp [hnegative], by simp [hnegative]⟩, by omega, by omega⟩
    case isFalse hnegative =>
      rw [Bool.not_eq_true', Bool.not_eq_false] at hnegative
      split at h
      case isTrue => simp at h
      case isFalse hrange =>
        obtain rfl : -(digitsValue literal.whole : ℤ) = z := by simpa using h
        exact ⟨⟨hfraction, hexponent, fun _ => by omega, by simp [hnegative]⟩, by omega, by omega⟩
  · rintro ⟨⟨hfraction, hexponent, hzero, hvalue⟩, hlow, hhigh⟩
    have hlt : digitsValue literal.whole < wordLimit := by
      split at hvalue <;> omega
    rw [ofText?_of_lt hfraction hexponent hlt]
    cases hnegative : literal.negative with
    | false => simp [hvalue, hnegative]
    | true =>
        rw [hnegative, if_pos rfl] at hvalue
        have hne := hzero hnegative
        rw [Bool.not_true, if_neg Bool.false_ne_true, if_neg (by omega), hvalue]

end Number
end GnssFusion.Json
