import Mathlib.LinearAlgebra.Matrix.Notation
import GnssFusion.Proofs.Units.RawValues
import GnssFusion.Fusion.Engine

/-!
The covariances of fused outputs. A variance is computed with three roundings, which are far
less than what two different accuracies lie apart, so variances are ordered as the accuracies
are (`squaredRatio_lt`). None of them is negative, and the mark of an unmeasured quantity is
left to the one place that it is put in (`covariances_of_outputs`).
-/

namespace GnssFusion

open Binary64

namespace Binary64.Within

variable {k : ℕ} {x : Binary64} {v : ℚ}

theorem zero_le (h : Within k x v) : (Binary64.ofNat 0).le x := by
  obtain ⟨units, hunits, rfl, -⟩ := h
  obtain ⟨hzero, hvalue⟩ := ofNat_eq (Nat.zero_le (2 ^ 53))
  rw [hvalue, finite_le_finite, Nat.zero_mul]
  exact Nat.zero_le units

end Binary64.Within

namespace Units

/-- The square of a whole number divided by another one. -/
def squaredRatio (n d : ℕ) : Binary64 := (ofNat n / ofNat d).square

/-- What is known of a variance that is computed from an accuracy, of which so many make one
of the unit. -/
structure IsVariance (variance : UInt32 → Binary64) (perUnit : ℕ) : Prop where
  near : ∀ accuracy : UInt32, Within 3 (variance accuracy) ((accuracy.toNat / perUnit : ℚ) ^ 2)
  nonnegative : ∀ accuracy, (ofNat 0).le (variance accuracy)
  eq_zero_iff : ∀ accuracy, variance accuracy = ofNat 0 ↔ accuracy = 0
  increasing : ∀ a b, a < b → (variance a).lt (variance b)

section
variable {d : ℕ} (hd : 0 < d) (hsmall : d ≤ 1000)
include hd hsmall

theorem ordinary_sq_ratio {n : ℕ} (hn : n ≤ 2 ^ 32) : Ordinary ((n : ℚ) / d * (n / d)) := by
  have hd1 : (1 : ℚ) ≤ d := by exact_mod_cast hd
  have hd2 : (d : ℚ) ≤ 1000 := by exact_mod_cast hsmall
  obtain rfl | hpos := Nat.eq_zero_or_pos n
  · exact .inl (by rw [Nat.cast_zero, zero_div, zero_mul])
  · have hn1 : (1 : ℚ) ≤ n := by exact_mod_cast hpos
    have hn2 : (n : ℚ) ≤ 2 ^ 32 := by exact_mod_cast hn
    have hlow : 1 / 1000 ≤ (n : ℚ) / d := by
      rw [le_div_iff₀ (by linarith)]
      linarith
    have hhigh : (n : ℚ) / d ≤ 2 ^ 32 := by
      rw [div_le_iff₀ (by linarith)]
      linarith
    refine .inr ⟨?_, ?_⟩
    · calc (2 ^ 100)⁻¹ ≤ (1 / 1000 : ℚ) * (1 / 1000) := by norm_num
        _ ≤ n / d * (n / d) := mul_le_mul hlow hlow (by norm_num) (by linarith)
    · calc (n : ℚ) / d * (n / d) ≤ 2 ^ 32 * 2 ^ 32 :=
            mul_le_mul hhigh hhigh (by linarith) (by norm_num)
        _ ≤ 2 ^ 100 := by norm_num

theorem within_squaredRatio {n : ℕ} (hn : n ≤ 2 ^ 32) :
    Within 3 (squaredRatio n d) ((n : ℚ) / d * (n / d)) := by
  have hratio : Within 1 (ofNat n / ofNat d) ((n : ℚ) / d) :=
    .ratio (hn.trans (by norm_num)) hd (hsmall.trans (by norm_num))
  have hnonneg : 0 ≤ (n : ℚ) / d := div_nonneg (Nat.cast_nonneg n) (Nat.cast_nonneg d)
  exact hratio.mul hratio hnonneg hnonneg (ordinary_sq_ratio hd hsmall hn) (by norm_num)

/-- The squares of whole numbers of 32 bits lie further apart than their roundings. -/
theorem squaredRatio_lt {m n : ℕ} (h : m < n) (hn : n ≤ 2 ^ 32) :
    (squaredRatio m d).lt (squaredRatio n d) := by
  refine (within_squaredRatio hd hsmall (h.le.trans hn)).lt (within_squaredRatio hd hsmall hn) ?_
  have hpos : (0 : ℚ) < d := by exact_mod_cast hd
  have hsize := natCast_lt_mul_slack_pow (k := 3) (by decide) h hn
  have hsquares : (m : ℚ) * m < n * n * slack ^ (3 + 3) :=
    calc (m : ℚ) * m < n * slack ^ 3 * (n * slack ^ 3) :=
          mul_self_lt_mul_self (Nat.cast_nonneg m) hsize
      _ = n * n * slack ^ (3 + 3) := by ring
  rw [div_mul_div_comm, div_mul_div_comm, div_mul_eq_mul_div,
    div_lt_div_iff_of_pos_right (mul_pos hpos hpos)]
  exact hsquares

theorem isVariance_squaredRatio (hzero : squaredRatio 0 d = ofNat 0) :
    IsVariance (fun accuracy => squaredRatio accuracy.toNat d) d := by
  have hsize (accuracy : UInt32) : accuracy.toNat ≤ 2 ^ 32 := accuracy.toNat_lt.le
  have hwithin (accuracy : UInt32) := within_squaredRatio hd hsmall (hsize accuracy)
  constructor
  case near =>
    intro accuracy
    rw [sq]
    exact hwithin accuracy
  case nonnegative =>
    intro accuracy
    exact (hwithin accuracy).zero_le
  case eq_zero_iff =>
    intro accuracy
    constructor
    · intro h
      by_contra hne
      have hpos : 0 < accuracy.toNat := by
        rw [Nat.pos_iff_ne_zero]
        exact fun hnone => hne (UInt32.toNat_inj.mp hnone)
      have hlt := squaredRatio_lt hd hsmall hpos (hsize accuracy)
      rw [hzero, h] at hlt
      exact absurd hlt (by decide +kernel)
    · rintro rfl
      exact hzero
  case increasing =>
    intro a b h
    exact squaredRatio_lt hd hsmall h (hsize b)

end

theorem isVariance_positionVariance : IsVariance positionVariance 1000 :=
  isVariance_squaredRatio (by norm_num) (by norm_num) (by decide +kernel)

theorem isVariance_speedVariance : IsVariance speedVariance 100 :=
  isVariance_squaredRatio (by norm_num) (by norm_num) (by decide +kernel)

theorem toInt_neg_of_ne {x : Int32} (h : x ≠ Int32.minValue) : (-x).toInt = -x.toInt := by
  have hne : x.toInt ≠ -2 ^ 31 := by
    rw [show (-2 ^ 31 : ℤ) = Int32.minValue.toInt from rfl]
    exact fun heq => h (Int32.toInt_inj.mp heq)
  have hlow := x.le_toInt
  have hhigh := x.toInt_lt
  rw [Int32.toInt_neg]
  exact Int.bmod_eq_of_le (by omega) (by omega)

end Units

theorem units?_unmeasured : unmeasured.units? = some (-(one : ℤ)) := by decide +kernel

theorem unmeasured_lt_zero : unmeasured.lt (ofNat 0) := by decide +kernel

theorem zero_le_zero : (ofNat 0).le (ofNat 0) := by decide +kernel

theorem ne_unmeasured_of_zero_le {x : Binary64} (h : (ofNat 0).le x) : x ≠ unmeasured := by
  intro heq
  rw [heq] at h
  exact not_lt_of_le h unmeasured_lt_zero

namespace SquareMatrix

/-! What the fills of the two covariances leave in them. -/

theorem entry_ofDiagonal_three (a b c : Binary64) (row column : Fin 3) :
    (ofDiagonal #v[a, b, c]).entry row column =
      if row = column then ![a, b, c] row else ofNat 0 := by
  rw [entry_ofDiagonal]
  generalize ofNat 0 = o
  fin_cases row <;> rfl

theorem entry_set_fillDiagonal_six (s mark : Binary64) (row column : Fin 6) :
    (((zeros 6).fillDiagonal [0, 1, 2] fun _ => s).set 3 3 mark).entry row column =
      if row = column then ![s, s, s, mark, ofNat 0, ofNat 0] row else ofNat 0 := by
  rw [entry_set, entry_fillDiagonal, entry_zeros]
  generalize ofNat 0 = o
  by_cases hdiagonal : row = column
  · subst hdiagonal
    fin_cases row <;> rfl
  · have hmark : ¬ (row = 3 ∧ column = 3) := fun h => hdiagonal (h.1.trans h.2.symm)
    rw [if_neg hmark, if_neg fun h => hdiagonal h.1, if_neg hdiagonal]

theorem of_ofDiagonal_three (a b c : Binary64) :
    let o := ofNat 0
    .of (ofDiagonal #v[a, b, c]).entry = !![
      a, o, o;
      o, b, o;
      o, o, c] := by
  intro o
  have hzero : ofNat 0 = o := rfl
  ext row column
  rw [Matrix.of_apply, entry_ofDiagonal_three, hzero]
  clear_value o
  fin_cases row <;> fin_cases column <;> rfl

theorem of_set_fillDiagonal_six (s mark : Binary64) :
    let o := ofNat 0
    .of (((zeros 6).fillDiagonal [0, 1, 2] fun _ => s).set 3 3 mark).entry = !![
      s, o, o, o, o, o;
      o, s, o, o, o, o;
      o, o, s, o, o, o;
      o, o, o, mark, o, o;
      o, o, o, o, o, o;
      o, o, o, o, o, o] := by
  intro o
  have hzero : ofNat 0 = o := rfl
  ext row column
  rw [Matrix.of_apply, entry_set_fillDiagonal_six, hzero]
  clear_value o
  fin_cases row <;> fin_cases column <;> rfl

theorem horizontal_ofDiagonal (a b c : Binary64) : (ofDiagonal #v[a, b, c]).entry 0 0 = a := by
  rw [entry_ofDiagonal_three]
  rfl

theorem vertical_ofDiagonal (a b c : Binary64) : (ofDiagonal #v[a, b, c]).entry 2 2 = c := by
  rw [entry_ofDiagonal_three]
  rfl

theorem linear_set_fillDiagonal (s mark : Binary64) :
    (((zeros 6).fillDiagonal [0, 1, 2] fun _ => s).set 3 3 mark).entry 0 0 = s := by
  rw [entry_set_fillDiagonal_six]
  rfl

theorem angular_set_fillDiagonal (s mark : Binary64) :
    (((zeros 6).fillDiagonal [0, 1, 2] fun _ => s).set 3 3 mark).entry 3 3 = mark := by
  rw [entry_set_fillDiagonal_six]
  rfl

variable {p : Binary64 → Prop}

theorem forall_entry_ofDiagonal {a b c : Binary64} (ha : p a) (hb : p b) (hc : p c)
    (hzero : p (ofNat 0)) (row column : Fin 3) : p ((ofDiagonal #v[a, b, c]).entry row column) := by
  rw [entry_ofDiagonal_three]
  generalize ofNat 0 = o at hzero ⊢
  split
  · fin_cases row
    · exact ha
    · exact hb
    · exact hc
  · exact hzero

theorem forall_entry_set_fillDiagonal {s mark : Binary64} (hs : p s) (hzero : p (ofNat 0))
    {row column : Fin 6} (h : ¬ (row = 3 ∧ column = 3)) :
    p ((((zeros 6).fillDiagonal [0, 1, 2] fun _ => s).set 3 3 mark).entry row column) := by
  rw [entry_set, if_neg h, entry_fillDiagonal, entry_zeros]
  split
  · exact hs
  · exact hzero

end SquareMatrix

namespace FusedFix

section
variable (frameId : String) (stamp : Timestamp) (status : FixStatus) (report : PositionReport)

theorem covariance_eq : (ofReport frameId stamp status report).covariance =
    .ofDiagonal #v[Units.positionVariance report.hAcc, Units.positionVariance report.hAcc,
      Units.positionVariance report.vAcc] := rfl

@[simp] theorem ofReport_horizontalVariance :
    (ofReport frameId stamp status report).horizontalVariance =
      Units.positionVariance report.hAcc := by
  rw [horizontalVariance, covariance_eq, SquareMatrix.horizontal_ofDiagonal]

@[simp] theorem ofReport_verticalVariance :
    (ofReport frameId stamp status report).verticalVariance =
      Units.positionVariance report.vAcc := by
  rw [verticalVariance, covariance_eq, SquareMatrix.vertical_ofDiagonal]

theorem zero_le_covariance_ofReport (row column : Fin 3) :
    (ofNat 0).le ((ofReport frameId stamp status report).covariance row column) := by
  have horizontal := Units.isVariance_positionVariance.nonnegative report.hAcc
  have vertical := Units.isVariance_positionVariance.nonnegative report.vAcc
  rw [covariance_eq]
  exact SquareMatrix.forall_entry_ofDiagonal (p := fun x => (ofNat 0).le x)
    horizontal horizontal vertical zero_le_zero row column

end

end FusedFix

namespace FusedVelocity

section
variable (frameId : String) (stamp : Timestamp) (report : VelocityReport)

theorem covariance_eq : (ofReport frameId stamp report).covariance =
    ((SquareMatrix.zeros 6).fillDiagonal [0, 1, 2] fun _ =>
      Units.speedVariance report.sAcc).set 3 3 unmeasured := rfl

@[simp] theorem ofReport_speedVariance :
    (ofReport frameId stamp report).speedVariance = Units.speedVariance report.sAcc := by
  rw [speedVariance, covariance_eq, SquareMatrix.linear_set_fillDiagonal]

theorem covariance_angular : (ofReport frameId stamp report).covariance 3 3 = unmeasured := by
  rw [covariance_eq, SquareMatrix.angular_set_fillDiagonal]

theorem zero_le_covariance_ofReport {row column : Fin 6} (h : ¬ (row = 3 ∧ column = 3)) :
    (ofNat 0).le ((ofReport frameId stamp report).covariance row column) := by
  have speed := Units.isVariance_speedVariance.nonnegative report.sAcc
  rw [covariance_eq]
  exact SquareMatrix.forall_entry_set_fillDiagonal (p := fun x => (ofNat 0).le x)
    speed zero_le_zero h

theorem covariance_lt_zero_iff (row column : Fin 6) :
    ((ofReport frameId stamp report).covariance row column).lt (ofNat 0) ↔
      row = 3 ∧ column = 3 := by
  constructor
  · intro h
    by_contra hother
    exact not_lt_of_le (zero_le_covariance_ofReport frameId stamp report hother) h
  · rintro ⟨rfl, rfl⟩
    rw [covariance_angular]
    exact unmeasured_lt_zero

theorem covariance_eq_unmeasured_iff (row column : Fin 6) :
    (ofReport frameId stamp report).covariance row column = unmeasured ↔
      row = 3 ∧ column = 3 := by
  constructor
  · intro h
    rw [← covariance_lt_zero_iff frameId stamp report, h]
    exact unmeasured_lt_zero
  · rintro ⟨rfl, rfl⟩
    exact covariance_angular frameId stamp report

@[simp] theorem ofReport_east :
    (ofReport frameId stamp report).east = Units.metresPerSecond report.velE.toInt := rfl

@[simp] theorem ofReport_north :
    (ofReport frameId stamp report).north = Units.metresPerSecond report.velN.toInt := rfl

@[simp] theorem ofReport_up :
    (ofReport frameId stamp report).up = -Units.metresPerSecond report.velD.toInt := rfl

end

/-- A climb as fast as a descent differs from it in the up component alone. -/
theorem ofReport_neg_velD (frameId : String) (stamp : Timestamp) {report : VelocityReport}
    (hzero : report.velD ≠ 0) (hleast : report.velD ≠ Int32.minValue) :
    ofReport frameId stamp { report with velD := -report.velD } =
      { ofReport frameId stamp report with up := -(ofReport frameId stamp report).up } := by
  have hspeed : report.velD.toInt ≠ 0 := fun h => hzero (Int32.toInt_inj.mp h)
  simp only [ofReport, Units.toInt_neg_of_ne hleast, Units.metresPerSecond_neg hspeed]

end FusedVelocity

namespace Engine

theorem acceptPosition_fix (engine : Engine) (now : Timestamp) (report : PositionReport) :
    (engine.acceptPosition now report).value.1 =
      .ofReport engine.frameId (correlate report.iTow engine.velocityEpoch now).value
        engine.fixStatus report := rfl

theorem acceptVelocity_velocity (engine : Engine) (now : Timestamp) (report : VelocityReport) :
    (engine.acceptVelocity now report).value.1 =
      .ofReport engine.frameId (correlate report.iTow engine.positionEpoch now).value report := rfl

theorem acceptVelocity_events (engine : Engine) (now : Timestamp) (report : VelocityReport) :
    (engine.acceptVelocity now report).events =
      (correlate report.iTow engine.positionEpoch now).events := by
  simp [acceptVelocity]

/-- The covariances of all outputs, whatever came before, and the velocities beside them.
No variance is negative but the mark of an unmeasured quantity, so that nothing computed can
be taken for it. Velocities point up where the receiver's point down. -/
theorem covariances_of_outputs (engine : Engine) (now : Timestamp) :
    let o := ofNat 0
    (∀ report,
      let fix := (engine.acceptPosition now report).value.1
      let h := Units.positionVariance report.hAcc
      let v := Units.positionVariance report.vAcc
      .of fix.covariance = !![
        h, o, o;
        o, h, o;
        o, o, v] ∧
      fix.horizontalVariance = h ∧ fix.verticalVariance = v ∧
      ∀ row column, ¬ (fix.covariance row column).lt o ∧
        fix.covariance row column ≠ unmeasured) ∧
    (∀ report,
      let velocity := (engine.acceptVelocity now report).value.1
      let s := Units.speedVariance report.sAcc
      .of velocity.covariance = !![
        s, o, o, o, o, o;
        o, s, o, o, o, o;
        o, o, s, o, o, o;
        o, o, o, unmeasured, o, o;
        o, o, o, o, o, o;
        o, o, o, o, o, o] ∧
      velocity.speedVariance = s ∧
      ∀ row column,
        ((velocity.covariance row column).lt o ↔ row = 3 ∧ column = 3) ∧
        (velocity.covariance row column = unmeasured ↔ row = 3 ∧ column = 3)) ∧
    unmeasured.units? = some (-(one : ℤ)) ∧
    Units.IsVariance Units.positionVariance 1000 ∧ Units.IsVariance Units.speedVariance 100 ∧
    (∀ report,
      let velocity := (engine.acceptVelocity now report).value.1
      velocity.east = Units.metresPerSecond report.velE.toInt ∧
      velocity.north = Units.metresPerSecond report.velN.toInt ∧
      velocity.up = -Units.metresPerSecond report.velD.toInt ∧
      (report.velD ≠ 0 → report.velD ≠ Int32.minValue →
        let turned := engine.acceptVelocity now { report with velD := -report.velD }
        turned.value.1 = { velocity with up := -velocity.up } ∧
          turned.events = (engine.acceptVelocity now report).events)) := by
  intro o
  refine ⟨?_, ?_, units?_unmeasured, Units.isVariance_positionVariance,
    Units.isVariance_speedVariance, ?_⟩
  · intro report fix h v
    have hfix : fix = _ := acceptPosition_fix engine now report
    rw [hfix]
    refine ⟨SquareMatrix.of_ofDiagonal_three h h v,
      FusedFix.ofReport_horizontalVariance _ _ _ report,
      FusedFix.ofReport_verticalVariance _ _ _ report, ?_⟩
    intro row column
    have hzero := FusedFix.zero_le_covariance_ofReport engine.frameId
      (correlate report.iTow engine.velocityEpoch now).value engine.fixStatus report row column
    exact ⟨not_lt_of_le hzero, ne_unmeasured_of_zero_le hzero⟩
  · intro report velocity s
    have hvelocity : velocity = _ := acceptVelocity_velocity engine now report
    rw [hvelocity]
    refine ⟨SquareMatrix.of_set_fillDiagonal_six s unmeasured,
      FusedVelocity.ofReport_speedVariance _ _ report, ?_⟩
    intro row column
    exact ⟨FusedVelocity.covariance_lt_zero_iff _ _ report row column,
      FusedVelocity.covariance_eq_unmeasured_iff _ _ report row column⟩
  · intro report velocity
    have hvelocity : velocity = _ := acceptVelocity_velocity engine now report
    refine ⟨?_, ?_, ?_, ?_⟩
    · rw [hvelocity, FusedVelocity.ofReport_east]
    · rw [hvelocity, FusedVelocity.ofReport_north]
    · rw [hvelocity, FusedVelocity.ofReport_up]
    · intro hzero hleast turned
      refine ⟨?_, ?_⟩
      · rw [hvelocity, ← FusedVelocity.ofReport_neg_velD _ _ hzero hleast]
        exact acceptVelocity_velocity engine now _
      · rw [acceptVelocity_events, acceptVelocity_events]

/-- A descent of two and a half metres in a second, and the climb that mirrors it. -/
theorem covariances_of_mirrored_descent :
    let engine := new "gps" none
    let now : Timestamp := ⟨⟨5, 0⟩, 10⟩
    let report : VelocityReport := ⟨604799000, 100, 20, 250, 40⟩
    let velocity := (engine.acceptVelocity now report).value.1
    report.velD ≠ 0 ∧ report.velD ≠ Int32.minValue ∧
      (engine.acceptVelocity now { report with velD := -report.velD }).value.1 =
        { velocity with up := -velocity.up } := by
  intro engine now report velocity
  have nonzero : report.velD ≠ 0 := by decide
  have negatable : report.velD ≠ Int32.minValue := by decide
  obtain ⟨-, -, -, -, -, velocities⟩ := covariances_of_outputs engine now
  obtain ⟨-, -, -, mirrored⟩ := velocities report
  exact ⟨nonzero, negatable, (mirrored nonzero negatable).1⟩

end Engine
end GnssFusion
