import GnssFusion.Proofs.Binary64.Bounds
import GnssFusion.Proofs.Fusion.StreamOrder
import GnssFusion.Proofs.RateMonitor.Readings

/-!
What an engine feeds to its rate monitor. Each position report ticks it once, with the
stamp of its fix, and nothing else does (`isSome_fixTick?`). Such a stamp may be older than
ticks before it, but it is a reading from the past (`reading_of_fixTick`). So at every point of a
run no tick of the monitor lies ahead of the clock (`ticks_follow_fixes`).
-/

namespace GnssFusion

open Binary64

namespace Session

def Action.isPosition : Action → Bool
  | .position _ => true
  | _ => false

/-- What the rate monitor of an engine is after a history, when the clock shows `now`. -/
structure TicksFollow (history : List Moment) (now : Duration) (kept : ℕ)
    (monitor : RateMonitor) : Prop where
  total : monitor.total = history.countP (·.action.isPosition)
  /-- The stamps of the last fixes, in the order of the fixes. -/
  ticks : monitor.ticks = lastOf kept (history.filterMap Moment.fixTick?)
  count : monitor.ticks.length = min (history.countP (·.action.isPosition)) kept
  /-- Each tick is the reading at the arrival of a report, not always of a position report. -/
  read : ∀ tick ∈ monitor.ticks, ∃ source ∈ history,
    source.action.mark?.isSome ∧ source.reading.monotonic = tick
  past : ∀ tick ∈ monitor.ticks, tick ≤ now
  span : ∀ oldest, monitor.ticks.head? = some oldest →
    (ofNat 0).le (Duration.seconds (now - oldest))
  unbounded : ∀ negative, monitor.frequency? now = some (.infinite negative) →
    monitor.ticks.head? = some now
  silent : (monitor.status now).level = .error ↔ ∀ m ∈ history, m.action.isPosition = false

end Session

open Session

namespace RateMonitor

theorem level_eq_error_iff (monitor : RateMonitor) (now : Duration) :
    (monitor.status now).level = .error ↔ monitor.ticks = [] := by
  change (monitor.judge now).1 = _ ↔ _
  rw [judge_eq_verdict, ← List.length_eq_zero_iff, verdict]
  by_cases h : monitor.ticks.length = 0
  · rw [if_pos h]
    exact iff_of_true rfl h
  · rw [if_neg h]
    refine iff_of_false ?_ h
    repeat' split
    all_goals exact Severity.noConfusion

/-- A count of 64 bits has a bounded frequency over any time that has passed. -/
theorem head?_of_unbounded {monitor : RateMonitor} {now : Duration} {negative : Bool}
    (hcount : monitor.ticks.length ≤ 2 ^ 64) (past : ∀ tick ∈ monitor.ticks, tick ≤ now)
    (h : monitor.frequency? now = some (.infinite negative)) : monitor.ticks.head? = some now := by
  have hlength : 2 ≤ monitor.ticks.length := by
    by_contra hfew
    rw [← not_lt, not_not, ← frequency?_eq_none_iff monitor now, h] at hfew
    exact Option.some_ne_none _ hfew
  obtain ⟨oldest, holdest⟩ : ∃ oldest, monitor.ticks.head? = some oldest := by
    rw [← Option.isSome_iff_exists, List.isSome_head?]
    exact List.ne_nil_of_length_pos (by omega)
  have hle : oldest ≤ now := past oldest (List.mem_of_head? holdest)
  obtain rfl | hlt := eq_or_lt_of_le hle
  · exact holdest
  · rw [frequency?_of_oldest monitor holdest hlength, if_neg (not_le.mpr hlt)] at h
    have hspan : 0 < now - oldest := sub_pos.mpr hlt
    exact absurd (Option.some.inj h)
      (ofNat_div_ne_infinite (by omega) (atLeast_seconds hspan) negative)

end RateMonitor

namespace Engine

theorem stamp?_of_fixTick? {m : Moment} {tick : Duration} (h : m.fixTick? = some tick) :
    ∃ stamp, m.output.stamp? = some stamp ∧ stamp.monotonic = tick := by
  cases houtput : m.output with
  | fix fix =>
      rw [Moment.fixTick?, houtput] at h
      exact ⟨fix.stamp, rfl, Option.some.inj h⟩
  | velocity | classification | telemetry | diagnostic | lastPosition | lastVelocity | nothing =>
      rw [Moment.fixTick?, houtput] at h
      nomatch h

theorem isSome_fixTick? (engine : Engine) (step : Step) :
    (engine.moment step).fixTick?.isSome = step.action.isPosition := by
  obtain ⟨reading, action⟩ := step
  cases action with
  | position report | velocity report | solution report | wait => rfl
  | query query => cases query <;> rfl

/-- There are as many ticks as position reports. -/
theorem length_fixTicks (engine : Engine) (steps : List Step) :
    ((engine.history steps).filterMap Moment.fixTick?).length =
      (engine.history steps).countP (·.action.isPosition) := by
  rw [List.length_filterMap_eq_countP]
  refine List.countP_congr ?_
  intro m hm
  obtain ⟨earlier, later, hsplit⟩ := List.append_of_mem hm
  obtain ⟨before, step, -, rfl⟩ := history_eq_append_cons hsplit
  rw [isSome_fixTick?, toStep_moment]

/-- A tick is the reading at the arrival of a report, of either stream. -/
theorem reading_of_fixTick {frameId : String} {monitor : Option RateMonitor} {steps : List Step}
    {tick : Duration}
    (h : tick ∈ ((new frameId monitor).history steps).filterMap Moment.fixTick?) :
    ∃ source ∈ (new frameId monitor).history steps,
      source.action.mark?.isSome ∧ source.reading.monotonic = tick := by
  obtain ⟨m, hm, hfix⟩ := List.mem_filterMap.mp h
  obtain ⟨stamp, hstamp, rfl⟩ := stamp?_of_fixTick? hfix
  obtain ⟨earlier, later, hsplit⟩ := List.append_of_mem hm
  obtain ⟨source, hsource, hmark, rfl⟩ := reading_of_stamp hsplit hstamp
  refine ⟨source, ?_, hmark, rfl⟩
  rw [hsplit]
  exact mem_append_cons_of_mem hsource

theorem reading_le_of_mem {engine : Engine} {earlier later : List Step} {step : Step}
    (clock : NeverBack (earlier ++ step :: later)) :
    ∀ m ∈ engine.history (earlier ++ [step]),
      m.reading.monotonic ≤ step.reading.monotonic := by
  intro m hm
  have hstep : m.toStep ∈ earlier ++ [step] := by
    rw [← map_toStep_history engine (earlier ++ [step])]
    exact List.mem_map_of_mem hm
  obtain hstep | hstep := List.mem_append.mp hstep
  · exact (List.pairwise_append.mp clock).2.2 _ hstep step List.mem_cons_self
  · rw [List.mem_singleton.mp hstep]

/-- Runs of a new engine with a new rate monitor, on a clock that never goes back. At every
step the monitor is what the history so far says, read at the time of that step. -/
theorem ticks_follow_fixes (frameId : String) (target tolerance : Binary64) (window : UInt64)
    (hwindow : 2 ≤ window) {steps : List Step} (clock : NeverBack steps) :
    let engine := new frameId (some (.withWindow target tolerance window.toNat))
    ∀ earlier step later, steps = earlier ++ step :: later →
      ∃ monitor, (engine.after (earlier ++ [step])).monitor = some monitor ∧
        TicksFollow (engine.history (earlier ++ [step])) step.reading.monotonic window.toNat
          monitor := by
  intro engine earlier step later hsplit
  rw [hsplit] at clock
  have hsize : 2 ≤ window.toNat := UInt64.le_iff_toNat_le.mp hwindow
  let times := (engine.history (earlier ++ [step])).filterMap Moment.fixTick?
  let monitor := (RateMonitor.withWindow target tolerance window.toNat).after times
  have hmonitor : (engine.after (earlier ++ [step])).monitor = some monitor :=
    monitor_after engine (earlier ++ [step])
  have hticks : monitor.ticks = lastOf window.toNat times := by
    rw [← Nat.max_eq_left hsize]
    exact RateMonitor.ticks_after_withWindow
  have hlength : monitor.ticks.length =
      min ((engine.history (earlier ++ [step])).countP (·.action.isPosition)) window.toNat := by
    rw [hticks, length_lastOf, length_fixTicks]
  have hread : ∀ tick ∈ monitor.ticks, ∃ source ∈ engine.history (earlier ++ [step]),
      source.action.mark?.isSome ∧ source.reading.monotonic = tick := by
    intro tick htick
    rw [hticks] at htick
    exact reading_of_fixTick (List.mem_of_mem_drop htick)
  have hpast : ∀ tick ∈ monitor.ticks, tick ≤ step.reading.monotonic := by
    intro tick htick
    obtain ⟨source, hsource, -, rfl⟩ := hread tick htick
    exact reading_le_of_mem clock source hsource
  refine ⟨monitor, hmonitor, ?_⟩
  constructor
  case total =>
    rw [RateMonitor.total_after, length_fixTicks]
    exact Nat.zero_add _
  case ticks => exact hticks
  case count => exact hlength
  case read => exact hread
  case past => exact hpast
  case span =>
    intro oldest holdest
    have hle := hpast oldest (List.mem_of_head? holdest)
    exact (atLeast_zero (Duration.sign?_seconds _)
      (Int.sign_nonneg_iff.mpr (sub_nonneg.mpr hle))).zero_le
  case unbounded =>
    intro negative hfrequency
    refine RateMonitor.head?_of_unbounded ?_ hpast hfrequency
    have hcount := window.toNat_lt
    omega
  case silent =>
    rw [RateMonitor.level_eq_error_iff, ← List.length_eq_zero_iff, hlength]
    have hzero (n : ℕ) : min n window.toNat = 0 ↔ n = 0 := by omega
    rw [hzero, List.countP_eq_zero]
    simp only [Bool.not_eq_true]

/-- A window of two ticks, the later of which is older, for it was handed over by a velocity
report. -/
theorem ticks_follow_late_handover :
    let steps : List Step := [
      ⟨⟨⟨5, 0⟩, 10⟩, .position ⟨1000, 1, 2, 3, 4, 5, 6⟩⟩,
      ⟨⟨⟨5, 0⟩, 20⟩, .velocity ⟨1500, 1, 2, 3, 4⟩⟩,
      ⟨⟨⟨5, 0⟩, 30⟩, .position ⟨1250, 1, 2, 3, 4, 5, 6⟩⟩,
      ⟨⟨⟨5, 0⟩, 40⟩, .position ⟨1500, 1, 2, 3, 4, 5, 6⟩⟩]
    let engine := new "gps" (some (.withWindow (ofNat 4) RateMonitor.defaultTolerance 2))
    (2 : UInt64) ≤ 2 ∧ NeverBack steps ∧
      ∃ monitor, (engine.after steps).monitor = some monitor ∧ monitor.ticks = [30, 20] ∧
        TicksFollow (engine.history steps) 40 2 monitor := by
  intro steps engine
  have clock : NeverBack steps := by decide
  obtain ⟨monitor, hmonitor, follows⟩ :=
    ticks_follow_fixes "gps" (ofNat 4) RateMonitor.defaultTolerance 2 (by decide) clock
      [⟨⟨⟨5, 0⟩, 10⟩, .position ⟨1000, 1, 2, 3, 4, 5, 6⟩⟩,
        ⟨⟨⟨5, 0⟩, 20⟩, .velocity ⟨1500, 1, 2, 3, 4⟩⟩,
        ⟨⟨⟨5, 0⟩, 30⟩, .position ⟨1250, 1, 2, 3, 4, 5, 6⟩⟩]
      ⟨⟨⟨5, 0⟩, 40⟩, .position ⟨1500, 1, 2, 3, 4, 5, 6⟩⟩ [] rfl
  refine ⟨by decide, clock, monitor, hmonitor, ?_, follows⟩
  rw [follows.ticks]
  rfl

end Engine
end GnssFusion
