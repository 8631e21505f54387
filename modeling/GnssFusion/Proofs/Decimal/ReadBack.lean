import Mathlib.Data.Bool.AllAny
import GnssFusion.Proofs.Decimal.Nearest
import GnssFusion.Decimal.Layout
import GnssFusion.Decimal.Numeral

/-!
Tabular texts of numbers read back. Wherever a layout puts the point and the exponent, the
numeral has the value of the decimal (`isNumeral_tabular`), and the decimal is one that the
number is nearest to. So the text of every number is read as that number, the sign of a
zero included (`Binary64.ofNumeral?_tabular`).
-/

namespace GnssFusion

/-- A run of decimal digits. -/
def AllDigits (text : List Char) : Prop := ∀ c ∈ text, c.isDigit

theorem AllDigits.append {a b : List Char} (ha : AllDigits a) (hb : AllDigits b) :
    AllDigits (a ++ b) := by
  intro c hc
  obtain hc | hc := List.mem_append.mp hc
  · exact ha c hc
  · exact hb c hc

theorem allDigits_zeros (n : ℕ) : AllDigits (zeros n) := by
  intro c hc
  rw [List.eq_of_mem_replicate hc]
  rfl

theorem allDigits_toDigits (n : ℕ) : AllDigits (Nat.toDigits 10 n) := by
  intro c hc
  exact Nat.isDigit_of_mem_toDigits (by decide) (by decide) hc

theorem digitsValue_eq {digits : List Char} (h : AllDigits digits) :
    digitsValue digits = Nat.ofDigitChars 10 digits 0 := by
  rw [digitsValue, ofDigits, Nat.ofDigitChars_eq_foldl]
  refine List.foldl_ext _ _ _ ?_
  intro value c hc
  rw [digitValue, if_pos (h c hc)]

theorem digitsValue_toDigits (n : ℕ) : digitsValue (Nat.toDigits 10 n) = n := by
  rw [digitsValue_eq (allDigits_toDigits n), Nat.ofDigitChars_ten_toDigits]

theorem digitsValue_zeros_append (n : ℕ) {digits : List Char} (h : AllDigits digits) :
    digitsValue (zeros n ++ digits) = digitsValue digits := by
  rw [digitsValue_eq ((allDigits_zeros n).append h), digitsValue_eq h, Nat.ofDigitChars_append,
    zeros, Nat.ofDigitChars_replicate_zero, Nat.mul_zero]

theorem digitsValue_append_zeros {digits : List Char} (h : AllDigits digits) (n : ℕ) :
    digitsValue (digits ++ zeros n) = digitsValue digits * 10 ^ n := by
  rw [digitsValue_eq (h.append (allDigits_zeros n)), digitsValue_eq h, Nat.ofDigitChars_append,
    zeros, Nat.ofDigitChars_replicate_zero, Nat.mul_comm]

theorem splitSign_of_isDigit {c : Char} (h : c.isDigit) (rest : List Char) :
    splitSign (c :: rest) = (false, c :: rest) := by
  unfold splitSign
  split
  case h_1 => simp_all
  case h_2 => simp_all
  case h_3 => rfl

theorem splitSign_of_allDigits {digits : List Char} (h : AllDigits digits) :
    splitSign digits = (false, digits) := by
  cases digits with
  | nil => rfl
  | cons c rest => exact splitSign_of_isDigit (h c List.mem_cons_self) rest

/-- An exponent as it stands behind a numeral, if there is one. -/
def exponentText (exponent : Option ℤ) : List Char :=
  exponent.elim [] fun z => 'e' :: (toString z).toList

theorem toList_toString_ofNat (n : ℕ) :
    (toString (Int.ofNat n)).toList = Nat.toDigits 10 n :=
  Nat.toList_repr

theorem toList_toString_negSucc (n : ℕ) :
    (toString (Int.negSucc n)).toList = '-' :: Nat.toDigits 10 (n + 1) := by
  rw [← Nat.toList_repr]
  exact String.toList_append

theorem exponent?_exponentText (exponent : Option ℤ) :
    exponent? (exponentText exponent) = some (exponent.getD 0) := by
  have htest (n : ℕ) : (('e' == 'e' || 'e' == 'E') && !(Nat.toDigits 10 n).isEmpty &&
      (Nat.toDigits 10 n).all Char.isDigit) = true := by
    have hempty := List.isEmpty_eq_false_iff.mpr (Nat.toDigits_ne_nil (n := n) (b := 10))
    rw [hempty, List.all_eq_true.mpr (allDigits_toDigits n)]
    rfl
  cases exponent with
  | none => rfl
  | some z =>
      cases z with
      | ofNat n =>
          have hsign := splitSign_of_allDigits (allDigits_toDigits n)
          simp only [exponentText, Option.elim, toList_toString_ofNat, exponent?, hsign]
          rw [if_pos (htest n), digitsValue_toDigits]
          rfl
      | negSucc n =>
          simp only [exponentText, Option.elim, toList_toString_negSucc, exponent?, splitSign]
          rw [if_pos (htest (n + 1)), digitsValue_toDigits]
          rfl

theorem takeWhile_exponentText (exponent : Option ℤ) :
    (exponentText exponent).takeWhile Char.isDigit = [] := by
  cases exponent <;> rfl

theorem dropWhile_exponentText (exponent : Option ℤ) :
    (exponentText exponent).dropWhile Char.isDigit = exponentText exponent := by
  cases exponent <;> rfl

theorem chars_exponentText {exponent : Option ℤ} {c : Char} (h : c ∈ exponentText exponent) :
    c.isDigit ∨ c = '.' ∨ c = 'e' ∨ c = '-' := by
  cases exponent with
  | none => nomatch h
  | some z =>
      obtain rfl | h := List.mem_cons.mp h
      · exact .inr (.inr (.inl rfl))
      · cases z with
        | ofNat n =>
            rw [toList_toString_ofNat] at h
            exact .inl (allDigits_toDigits n c h)
        | negSucc n =>
            rw [toList_toString_negSucc] at h
            obtain rfl | h := List.mem_cons.mp h
            · exact .inr (.inr (.inr rfl))
            · exact .inl (allDigits_toDigits (n + 1) c h)

namespace Decimal

/-- A text that is read as a decimal of this value. It starts with a digit. -/
structure IsNumeral (text : List Char) (v : ℚ) : Prop where
  first : ∃ c rest, text = c :: rest ∧ c.isDigit
  chars : ∀ c ∈ text, c.isDigit ∨ c = '.' ∨ c = 'e' ∨ c = '-'
  reads : ∃ d, ofNumeral? text = some d ∧ d.value = v

section
variable {whole fraction : List Char} (hwhole : AllDigits whole) (hne : whole ≠ [])
variable (exponent : Option ℤ)
include hwhole hne

theorem ofNumeral?_whole :
    ofNumeral? (whole ++ exponentText exponent) =
      some (.ofParts whole [] (exponent.getD 0)) := by
  have hempty : whole.isEmpty = false := List.isEmpty_eq_false_iff.mpr hne
  have hread := exponent?_exponentText exponent
  unfold ofNumeral?
  rw [List.takeWhile_append_of_pos hwhole, List.dropWhile_append_of_pos hwhole,
    takeWhile_exponentText, dropWhile_exponentText, List.append_nil]
  cases exponent with
  | none | some z =>
      simp [exponentText, hempty] at hread ⊢
      exact ⟨_, hread, rfl⟩

theorem ofNumeral?_pointed (hfraction : AllDigits fraction) :
    ofNumeral? (whole ++ '.' :: (fraction ++ exponentText exponent)) =
      some (.ofParts whole fraction (exponent.getD 0)) := by
  have hempty : whole.isEmpty = false := List.isEmpty_eq_false_iff.mpr hne
  have hpoint : Char.isDigit '.' = false := rfl
  unfold ofNumeral?
  simp only [List.takeWhile_append_of_pos hwhole, List.dropWhile_append_of_pos hwhole,
    List.takeWhile_cons, List.dropWhile_cons, hpoint, if_false, Bool.false_eq_true,
    List.takeWhile_append_of_pos hfraction, List.dropWhile_append_of_pos hfraction,
    takeWhile_exponentText, dropWhile_exponentText, List.append_nil, hempty, Bool.false_and,
    exponent?_exponentText, Option.map_some]

theorem isNumeral_whole :
    IsNumeral (whole ++ exponentText exponent)
      (digitsValue whole * 10 ^ exponent.getD 0) := by
  obtain ⟨c, rest, rfl⟩ := List.exists_cons_of_ne_nil hne
  constructor
  case first => exact ⟨c, rest ++ exponentText exponent, rfl, hwhole c List.mem_cons_self⟩
  case chars =>
    intro c hc
    obtain hc | hc := List.mem_append.mp hc
    · exact .inl (hwhole c hc)
    · exact chars_exponentText hc
  case reads =>
    refine ⟨_, ofNumeral?_whole hwhole hne exponent, ?_⟩
    simp only [value, ofParts, List.append_nil, List.length_nil, Int.natCast_zero, sub_zero]

theorem isNumeral_pointed (hfraction : AllDigits fraction) :
    IsNumeral (whole ++ '.' :: (fraction ++ exponentText exponent))
      (digitsValue (whole ++ fraction) * 10 ^ (exponent.getD 0 - fraction.length)) := by
  obtain ⟨c, rest, rfl⟩ := List.exists_cons_of_ne_nil hne
  constructor
  case first => exact ⟨c, _, rfl, hwhole c List.mem_cons_self⟩
  case chars =>
    intro c hc
    obtain hc | hc := List.mem_append.mp hc
    · exact .inl (hwhole c hc)
    obtain rfl | hc := List.mem_cons.mp hc
    · exact .inr (.inl rfl)
    obtain hc | hc := List.mem_append.mp hc
    · exact .inl (hfraction c hc)
    · exact chars_exponentText hc
  case reads => exact ⟨_, ofNumeral?_pointed hwhole hne exponent hfraction, rfl⟩

end

/-- A point that is put into digits leaves their value, but for the places behind it. -/
theorem isNumeral_of_pointed {digits : List Char} (h : AllDigits digits) (places : ℕ)
    (exponent : Option ℤ) :
    IsNumeral (pointed digits places ++ exponentText exponent)
      (digitsValue digits * 10 ^ (exponent.getD 0 - places)) := by
  let padded := zeros (places + 1 - digits.length) ++ digits
  have hpadded : AllDigits padded := (allDigits_zeros _).append h
  have hlength : places + 1 ≤ padded.length := by
    simp only [padded, zeros, List.length_append, List.length_replicate]
    omega
  have hwhole : AllDigits (padded.take (padded.length - places)) :=
    fun c hc => hpadded c (List.mem_of_mem_take hc)
  have hfraction : AllDigits (padded.drop (padded.length - places)) :=
    fun c hc => hpadded c (List.mem_of_mem_drop hc)
  have hne : padded.take (padded.length - places) ≠ [] := by
    rw [← List.length_pos_iff, List.length_take]
    omega
  have hplaces : (padded.drop (padded.length - places)).length = places := by
    rw [List.length_drop]
    omega
  have hnumeral := isNumeral_pointed hwhole hne exponent hfraction
  rw [List.take_append_drop, hplaces, digitsValue_zeros_append _ h] at hnumeral
  rw [pointed, List.append_assoc, List.cons_append]
  exact hnumeral

theorem isNumeral_tabular (d : Decimal) : IsNumeral d.tabular d.value := by
  have hdigits := allDigits_toDigits d.digits
  have hne : Nat.toDigits 10 d.digits ≠ [] := Nat.toDigits_ne_nil
  have hvalue := digitsValue_toDigits d.digits
  unfold tabular value
  generalize Nat.toDigits 10 d.digits = digits at hdigits hne hvalue ⊢
  rw [← hvalue]
  dsimp only
  split
  case isTrue h =>
    obtain ⟨k, hk⟩ := Int.eq_ofNat_of_zero_le h.1
    have hwhole := hdigits.append (allDigits_zeros k)
    have hnumeral := isNumeral_pointed hwhole (List.append_ne_nil_of_left_ne_nil hne _) none
      (allDigits_zeros 1)
    have hscaled : (digitsValue (digits ++ zeros k ++ zeros 1) : ℚ) *
        10 ^ ((none : Option ℤ).getD 0 - (zeros 1).length) = digitsValue digits * 10 ^ k := by
      have hplaces : (none : Option ℤ).getD 0 - (zeros 1).length = -1 := rfl
      rw [digitsValue_append_zeros hwhole, digitsValue_append_zeros hdigits, hplaces, zpow_neg_one]
      push_cast
      rw [mul_assoc, mul_inv_cancel₀ (by norm_num), mul_one]
    rw [hscaled] at hnumeral
    rw [hk, Int.toNat_natCast, zpow_natCast]
    exact hnumeral
  case isFalse =>
    split
    case isTrue h =>
      have hnumeral := isNumeral_of_pointed hdigits (-d.exponent).toNat none
      have hexponent : (0 : ℤ) - (-d.exponent).toNat = d.exponent := by omega
      rw [Option.getD_none, hexponent] at hnumeral
      rwa [exponentText, Option.elim_none, List.append_nil] at hnumeral
    case isFalse =>
      have hpos : 0 < digits.length := List.length_pos_iff.mpr hne
      split
      case isTrue hone =>
        have hnumeral := isNumeral_whole hdigits hne (some (digits.length + d.exponent - 1))
        have hexponent : (digits.length : ℤ) + d.exponent - 1 = d.exponent := by omega
        rw [Option.getD_some] at hnumeral
        nth_rewrite 2 [hexponent] at hnumeral
        exact hnumeral
      case isFalse =>
        have hnumeral := isNumeral_of_pointed hdigits (digits.length - 1)
          (some (digits.length + d.exponent - 1))
        have hexponent : (digits.length : ℤ) + d.exponent - 1 - (digits.length - 1 : ℕ) =
            d.exponent := by omega
        rw [Option.getD_some, hexponent] at hnumeral
        exact hnumeral

end Decimal

namespace Binary64

theorem toLower_of_isDigit {c : Char} (h : c.isDigit) : c.toLower = c := by
  have hnine : c.toNat ≤ 57 := (Char.isDigit_iff_toNat.mp h).2
  have hupper : ¬ (c.val ≥ 'A'.val ∧ c.val ≤ 'Z'.val) := by
    intro hcase
    have hletter : 65 ≤ c.toNat := UInt32.le_iff_toNat_le.mp hcase.1
    omega
  exact dif_neg hupper

/-- A numeral is none of the words for special numbers. -/
theorem ofNumeral?_of_isNumeral {text : List Char} {v : ℚ} (h : Decimal.IsNumeral text v)
    (negative : Bool) :
    ofNumeral? (withSign negative text) =
      (Decimal.ofNumeral? text).map (ofDecimal negative) := by
  obtain ⟨c, rest, rfl, hdigit⟩ := h.first
  have hsign : splitSign (withSign negative (c :: rest)) = (negative, c :: rest) := by
    cases negative with
    | false => exact splitSign_of_isDigit hdigit rest
    | true => rfl
  have hlower : (c :: rest).map Char.toLower = c :: rest.map Char.toLower := by
    rw [List.map_cons, toLower_of_isDigit hdigit]
  simp only [ofNumeral?, hsign, hlower]
  split
  · next heq => simp_all
  · next heq => simp_all
  · rfl

/-- The tabular text of a number is read as that number. -/
theorem ofNumeral?_tabular (x : Binary64) : ofNumeral? x.tabular.toList = some x := by
  cases x with
  | nan => decide
  | infinite negative => cases negative <;> decide
  | finite negative n hn =>
      rw [tabular, String.toList_ofList]
      split
      case isTrue hzero =>
        subst hzero
        have hread (negative : Bool) :
            ofNumeral? (withSign negative ['0', '.', '0']) = some (zero negative) := by
          cases negative <;> decide
        exact hread negative
      case isFalse hne =>
        have hnumeral := (Decimal.shortest .even n).isNumeral_tabular
        obtain ⟨d, hread, hvalue⟩ := hnumeral.reads
        have hunits : d.units = n :=
          (Decimal.units_congr hvalue).trans (Decimal.units_shortest _ hn)
        rw [ofNumeral?_of_isNumeral hnumeral, hread, Option.map_some,
          Decimal.ofDecimal_of_units hunits (Nat.pos_of_ne_zero hne) hn]

/-- Nothing in a tabular text could be taken for the end of it. -/
theorem chars_tabular (x : Binary64) :
    ∀ c ∈ x.tabular.toList, c.isAlphanum ∨ c = '.' ∨ c = '-' := by
  have hsigned {text : List Char} (h : ∀ c ∈ text, c.isAlphanum ∨ c = '.' ∨ c = '-')
      (negative : Bool) : ∀ c ∈ withSign negative text, c.isAlphanum ∨ c = '.' ∨ c = '-' := by
    intro c hc
    cases negative with
    | false => exact h c hc
    | true =>
        obtain rfl | hc := List.mem_cons.mp hc
        · exact .inr (.inr rfl)
        · exact h c hc
  cases x with
  | nan => exact List.all_iff_forall_prop.mp (by decide)
  | infinite negative => cases negative <;> exact List.all_iff_forall_prop.mp (by decide)
  | finite negative n hn =>
      rw [tabular, String.toList_ofList]
      refine hsigned ?_ negative
      split
      case isTrue => exact List.all_iff_forall_prop.mp (by decide)
      case isFalse =>
        intro c hc
        obtain hdigit | rfl | rfl | rfl := (Decimal.isNumeral_tabular _).chars c hc
        · exact .inl (by rw [Char.isAlphanum, hdigit, Bool.or_true])
        · exact .inr (.inl rfl)
        · exact .inl rfl
        · exact .inr (.inr rfl)

end Binary64
end GnssFusion
