import GnssFusion.Proofs.Binary64.Order
import GnssFusion.Proofs.RateMonitor.Readings

/-!
What is read of a receiver that has gone silent. Without a tick the oldest one that is kept
stays the same, so the time since then only grows and the frequency does not rise
(`frequency?_antitone`). Whatever the bounds are, in order or not, the verdict on a frequency
that falls goes from too high over met to too low and never back (`rank_pace_le`).
-/

namespace GnssFusion

namespace Duration
open Binary64

theorem units?_seconds_pos {d : Duration} (h : 0 < d) :
    ∃ units : ℕ, (seconds d).units? = some (units : ℤ) ∧ 0 < units := by
  obtain ⟨n, rfl⟩ := Int.eq_ofNat_of_zero_le h.le
  refine ⟨_, units?_seconds n, ?_⟩
  have hsign := sign?_seconds n
  rw [sign?, units?_seconds, Int.sign_eq_one_of_pos h] at hsign
  have hpos := Int.sign_eq_one_iff_pos.mp (Option.some.inj hsign)
  exact_mod_cast hpos

end Duration

namespace RateMonitor
open Binary64

/-- The verdicts on a receiver that has ticked. -/
inductive Pace
  | tooHigh
  | met
  | tooLow
  deriving DecidableEq, Repr

namespace Pace

def verdict : Pace → Severity × String
  | .tooHigh => (.warn, "Frequency too high")
  | .met => (.ok, "Desired frequency met")
  | .tooLow => (.warn, "Frequency too low")

/-- The order in which a receiver that falls silent goes through the verdicts. -/
def rank : Pace → ℕ
  | .tooHigh => 0
  | .met => 1
  | .tooLow => 2

theorem verdict_eq_tooLow_iff {pace : Pace} :
    pace.verdict.2 = "Frequency too low" ↔ pace = .tooLow := by
  cases pace <;> simp [verdict]

theorem verdict_ne_silent (pace : Pace) : pace.verdict.2 ≠ "No events recorded" := by
  cases pace <;> decide

theorem eq_tooLow_of_rank_le {pace : Pace} (h : rank .tooLow ≤ pace.rank) : pace = .tooLow := by
  cases pace with
  | tooHigh | met => exact absurd h (by decide)
  | tooLow => rfl

end Pace

def paceOf (minimum maximum frequency : Binary64) : Pace :=
  if frequency.lt minimum then .tooLow else if maximum.lt frequency then .tooHigh else .met

/-- A bound that is not a number, or that is beyond the other one, does no harm: each of the
two comparisons by itself only changes in one direction. -/
theorem rank_paceOf_le {minimum maximum f g : Binary64} (h : g.le f) :
    (paceOf minimum maximum f).rank ≤ (paceOf minimum maximum g).rank := by
  have hlow : f.lt minimum = true → g.lt minimum = true := fun hf => lt_of_le_lt h hf
  have hhigh : maximum.lt g = true → maximum.lt f = true := fun hg => lt_of_lt_le hg h
  unfold paceOf
  by_cases hf : f.lt minimum = true
  · rw [if_pos hf, if_pos (hlow hf)]
  · rw [if_neg hf]
    by_cases hg : g.lt minimum = true
    · rw [if_pos hg]
      split <;> decide
    · rw [if_neg hg]
      by_cases hg' : maximum.lt g = true
      · rw [if_pos hg', if_pos (hhigh hg')]
      · rw [if_neg hg']
        split <;> decide

section
variable (monitor : RateMonitor)

/-- The frequency does not rise while no tick comes. -/
theorem frequency?_antitone (hcount : 2 ≤ monitor.ticks.length)
    (hword : monitor.ticks.length ≤ 2 ^ 64) {now later : Duration} (h : now ≤ later) :
    ∃ f g, monitor.frequency? now = some f ∧ monitor.frequency? later = some g ∧ g.le f := by
  obtain ⟨oldest, holdest⟩ : ∃ oldest, monitor.ticks.head? = some oldest :=
    ⟨_, List.head?_eq_some_head (List.ne_nil_of_length_pos (by omega))⟩
  refine ⟨_, _, monitor.frequency?_of_oldest holdest hcount now,
    monitor.frequency?_of_oldest holdest hcount later, ?_⟩
  have hfew : monitor.ticks.length - 1 < 2 ^ 64 := by omega
  obtain hpast | hpassed := le_or_gt later oldest
  · rw [if_pos hpast, if_pos (h.trans hpast)]
    exact le_infinite units?_infinite
  · rw [if_neg (not_le.mpr hpassed)]
    obtain ⟨m, hm, hmpos⟩ := Duration.units?_seconds_pos (sub_pos.mpr hpassed)
    obtain hbefore | hafter := le_or_gt now oldest
    · rw [if_pos hbefore]
      obtain ⟨a, -, ha, -⟩ := le_iff.mp (ofNat_div_le hfew hm hm hmpos (le_refl m))
      exact le_infinite ha
    · rw [if_neg (not_le.mpr hafter)]
      obtain ⟨n, hn, hnpos⟩ := Duration.units?_seconds_pos (sub_pos.mpr hafter)
      refine ofNat_div_le hfew hn hm hnpos ?_
      obtain ⟨early, hearly⟩ := Int.eq_ofNat_of_zero_le (sub_pos.mpr hafter).le
      obtain ⟨late, hlate⟩ := Int.eq_ofNat_of_zero_le (sub_pos.mpr hpassed).le
      have hspans : early ≤ late := by
        rw [← Int.ofNat_le, ← hearly, ← hlate]
        exact Int.sub_le_sub_right h oldest
      have hseconds := Duration.seconds_natCast_le hspans
      rw [← hearly, ← hlate, le_iff_of_units hn hm, Int.ofNat_le] at hseconds
      exact hseconds

/-- The verdict on a monitor that has ticked. -/
def pace (now : Duration) : Pace :=
  match monitor.frequency? now with
  | none => .tooLow
  | some frequency => paceOf monitor.minimum monitor.maximum frequency

theorem judge_eq_pace (h : monitor.ticks ≠ []) (now : Duration) :
    monitor.judge now = (monitor.pace now).verdict := by
  unfold pace
  cases hfrequency : monitor.frequency? now with
  | none => rw [judge, List.isEmpty_eq_false_iff.mpr h, hfrequency]; rfl
  | some frequency =>
      rw [judge_of_frequency? hfrequency]
      change _ = (paceOf monitor.minimum monitor.maximum frequency).verdict
      rw [paceOf, apply_ite Pace.verdict, apply_ite Pace.verdict]
      rfl

/-- The verdict does not go back while no tick comes. -/
theorem rank_pace_le (hword : monitor.ticks.length ≤ 2 ^ 64) {now later : Duration}
    (h : now ≤ later) : (monitor.pace now).rank ≤ (monitor.pace later).rank := by
  obtain hfew | hcount := Nat.lt_or_ge monitor.ticks.length 2
  · simp only [pace, (monitor.frequency?_eq_none_iff _).mpr hfew, le_refl]
  · obtain ⟨f, g, hf, hg, hle⟩ := monitor.frequency?_antitone hcount hword h
    simp only [pace, hf, hg]
    exact rank_paceOf_le hle

theorem message_eq_silent_iff (now : Duration) :
    (monitor.status now).message = "No events recorded" ↔ monitor.ticks = [] := by
  change (monitor.judge now).2 = _ ↔ _
  by_cases h : monitor.ticks = []
  · rw [judge, h]
    exact iff_of_true rfl rfl
  · rw [monitor.judge_eq_pace h]
    exact iff_of_false (Pace.verdict_ne_silent _) h

theorem message_stays_too_low (hword : monitor.ticks.length ≤ 2 ^ 64) {now later : Duration}
    (h : now ≤ later) (hlow : (monitor.status now).message = "Frequency too low") :
    (monitor.status later).message = "Frequency too low" := by
  have hticks : monitor.ticks ≠ [] := by
    intro hnone
    rw [(monitor.message_eq_silent_iff now).mpr hnone] at hlow
    exact absurd hlow (by decide)
  have hrank := monitor.rank_pace_le hword h
  change (monitor.judge now).2 = _ at hlow
  rw [monitor.judge_eq_pace hticks, Pace.verdict_eq_tooLow_iff] at hlow
  rw [hlow] at hrank
  change (monitor.judge later).2 = _
  rw [monitor.judge_eq_pace hticks, Pace.eq_tooLow_of_rank_le hrank]
  rfl

end

/-- A receiver that falls silent is not found to be faster, and a verdict once left does not
come back before the next tick. -/
theorem verdicts_decay (target tolerance : Binary64) (window : UInt64) (times : List Duration)
    {now later : Duration} (h : now ≤ later) :
    let monitor := (withWindow target tolerance window.toNat).after times
    let verdictAt (time : Duration) := ((monitor.status time).level, (monitor.status time).message)
    (2 ≤ times.length → ∃ f g,
      monitor.frequency? now = some f ∧ monitor.frequency? later = some g ∧ g.le f) ∧
    (∀ time, (monitor.status time).message = "No events recorded" ↔ times = []) ∧
    (times ≠ [] → ∃ pace pace' : Pace,
      verdictAt now = pace.verdict ∧ verdictAt later = pace'.verdict ∧ pace.rank ≤ pace'.rank) ∧
    ((monitor.status now).message = "Frequency too low" →
      (monitor.status later).message = "Frequency too low") := by
  intro monitor verdictAt
  have hlength : monitor.ticks.length = min times.length (max window.toNat 2) := by
    rw [show monitor.ticks = _ from ticks_after_withWindow, length_lastOf]
  have hword : monitor.ticks.length ≤ 2 ^ 64 := by
    have hwindow := window.toNat_lt
    omega
  have hnone : monitor.ticks = [] ↔ times = [] := by
    rw [← List.length_eq_zero_iff, ← List.length_eq_zero_iff, hlength]
    omega
  refine ⟨?_, ?_, ?_, monitor.message_stays_too_low hword h⟩
  · intro hcount
    exact monitor.frequency?_antitone (by omega) hword h
  · intro time
    exact (monitor.message_eq_silent_iff time).trans hnone
  · intro htimes
    have hticks : monitor.ticks ≠ [] := fun hempty => htimes (hnone.mp hempty)
    exact ⟨_, _, monitor.judge_eq_pace hticks now, monitor.judge_eq_pace hticks later,
      monitor.rank_pace_le hword h⟩

/-- Two ticks a quarter of a second apart, read between them, at the second and later. -/
theorem stays_too_low_at_four_hertz :
    let monitor := (withWindow (.ofNat 4) defaultTolerance (10 : UInt64).toNat).after
      [0, 250000000]
    (monitor.status 200000000).message = "Frequency too high" ∧
      (monitor.status 250000000).message = "Desired frequency met" ∧
      (monitor.status 1000000000).message = "Frequency too low" ∧
      (1000000000 : Duration) ≤ 5250000000 ∧
      (monitor.status 5250000000).message = "Frequency too low" := by
  have hlow : (((withWindow (.ofNat 4) defaultTolerance (10 : UInt64).toNat).after
      [0, 250000000]).status 1000000000).message = "Frequency too low" := by decide +kernel
  have hlater : (1000000000 : Duration) ≤ 5250000000 := by decide
  obtain ⟨-, -, -, hstays⟩ := verdicts_decay (.ofNat 4) defaultTolerance 10 [0, 250000000] hlater
  exact ⟨by decide +kernel, by decide +kernel, hlow, hlater, hstays hlow⟩

end RateMonitor
end GnssFusion
