import GnssFusion.RateMonitor.Shared
import GnssFusion.Proofs.Binary64.Sign
import GnssFusion.Proofs.RateMonitor.Window

/-!
What is read off a rate monitor, from the ticks that were delivered to it. Through whichever
handles they came, behind a lock is the monitor that took the ticks of that lock
(`afterDeliveries_eq`). Of them it counts all, and everything else it answers is told by
the last ones that fit its window (`readings_of_last_ticks`).
-/

namespace GnssFusion

/-- A tick that is delivered through a handle. -/
structure Delivery where
  handle : SharedMonitor
  stamp : Timestamp

def Delivery.next (monitors : Monitors) (delivery : Delivery) : Monitors :=
  delivery.handle.tick delivery.stamp monitors

/-- The times of the ticks that reach the monitor behind a lock. -/
def timesAt (lock : Nat) (deliveries : List Delivery) : List Duration :=
  (deliveries.filter (·.handle.lock = lock)).map (·.stamp.monotonic)

theorem timesAt_cons (lock : Nat) (delivery : Delivery) (rest : List Delivery) :
    timesAt lock (delivery :: rest) =
      if delivery.handle.lock = lock then delivery.stamp.monotonic :: timesAt lock rest
      else timesAt lock rest := by
  by_cases h : delivery.handle.lock = lock <;> simp [timesAt, h]

theorem timesAt_append (lock : Nat) (past further : List Delivery) :
    timesAt lock (past ++ further) = timesAt lock past ++ timesAt lock further := by
  rw [timesAt, List.filter_append, List.map_append]
  rfl

theorem afterDeliveries_eq (monitors : Monitors) (deliveries : List Delivery) (lock : Nat) :
    deliveries.foldl Delivery.next monitors lock =
      (monitors lock).after (timesAt lock deliveries) := by
  induction deliveries generalizing monitors with
  | nil => rfl
  | cons delivery rest ih =>
      rw [List.foldl_cons, ih, timesAt_cons, Delivery.next, SharedMonitor.tick, SharedMonitor.put]
      by_cases h : delivery.handle.lock = lock
      · rw [if_pos h.symm, if_pos h, RateMonitor.after_cons, h]
      · rw [if_neg (Ne.symm h), if_neg h]

namespace RateMonitor

/-- The verdict on a frequency, with the number of ticks behind it. -/
def verdict (minimum maximum : Binary64) (count : Nat) (frequency : Option Binary64) :
    Severity × String :=
  if count = 0 then (.error, "No events recorded")
  else if count = 1 ∨ frequency.any (·.lt minimum) then (.warn, "Frequency too low")
  else if frequency.any (maximum.lt ·) then (.warn, "Frequency too high")
  else (.ok, "Desired frequency met")

theorem verdict_eq_error_iff {minimum maximum : Binary64} {count : Nat}
    {frequency : Option Binary64} :
    verdict minimum maximum count frequency = (.error, "No events recorded") ↔ count = 0 := by
  unfold verdict
  by_cases h : count = 0
  · simp [h]
  · rw [if_neg h]
    refine iff_of_false ?_ h
    repeat' split
    all_goals simp

section
variable (monitor : RateMonitor)

theorem frequency?_eq_none_iff (now : Duration) :
    monitor.frequency? now = none ↔ monitor.ticks.length < 2 := by
  rcases hticks : monitor.ticks with _ | ⟨oldest, _ | ⟨next, rest⟩⟩ <;> simp [frequency?, hticks]

/-- Intervals per second since the oldest kept tick. -/
theorem frequency?_of_oldest {oldest : Duration} (h : monitor.ticks.head? = some oldest)
    (hcount : 2 ≤ monitor.ticks.length) (now : Duration) :
    monitor.frequency? now =
      some (if now ≤ oldest then .infinite false
        else .ofNat (monitor.ticks.length - 1) / Duration.seconds (now - oldest)) := by
  have hsign : (Duration.seconds (now - oldest)).le (.ofNat 0) ↔ now ≤ oldest :=
    (Duration.seconds_le_zero_iff _).trans sub_nonpos
  rcases hticks : monitor.ticks with _ | ⟨first, _ | ⟨next, rest⟩⟩
  case nil => simp [hticks] at hcount
  case cons.nil => simp [hticks] at hcount
  case cons.cons =>
    rw [hticks] at h
    cases h
    simp only [frequency?, hticks, List.length_cons, Nat.add_sub_cancel, hsign]

theorem judge_eq_verdict (now : Duration) :
    monitor.judge now =
      verdict monitor.minimum monitor.maximum monitor.ticks.length (monitor.frequency? now) := by
  have hnone := monitor.frequency?_eq_none_iff now
  rcases hticks : monitor.ticks with _ | ⟨oldest, _ | ⟨next, rest⟩⟩
  case nil => simp [judge, verdict, hticks]
  case cons.nil =>
    rw [hticks] at hnone
    simp [judge, verdict, hticks, hnone.mpr Nat.one_lt_two]
  case cons.cons =>
    cases hfrequency : monitor.frequency? now with
    | none =>
        rw [hticks, List.length_cons, List.length_cons] at hnone
        exact absurd (hnone.mp hfrequency) (by omega)
    | some frequency =>
        rw [judge_of_frequency? hfrequency]
        simp [verdict]

theorem get?_status_events (now : Duration) :
    (monitor.status now).get? "Events in window" = some (.int monitor.ticks.length) := rfl

end

/-- A window of two or more has as many ticks as there were, as far as the verdict goes. -/
theorem verdict_min {minimum maximum : Binary64} {count kept : Nat} {frequency : Option Binary64}
    (h : 2 ≤ kept) :
    verdict minimum maximum (min count kept) frequency =
      verdict minimum maximum count frequency := by
  have hzero : min count kept = 0 ↔ count = 0 := by omega
  have hone : min count kept = 1 ↔ count = 1 := by omega
  simp only [verdict, hzero, hone]

/-- Monitors that are set alike and keep the same ticks answer alike. -/
theorem answers_eq {a b : RateMonitor} (htarget : a.target = b.target)
    (htolerance : a.tolerance = b.tolerance) (hticks : a.ticks = b.ticks) (now : Duration) :
    a.frequency? now = b.frequency? now ∧ a.status now = b.status now := by
  cases a
  cases b
  cases htarget
  cases htolerance
  cases hticks
  exact ⟨rfl, rfl⟩

section
variable {target tolerance : Binary64} {window : Nat} {times : List Duration}

theorem minimum_after_withWindow :
    ((withWindow target tolerance window).after times).minimum =
      target * (.ofNat 1 - tolerance) := by
  rw [minimum, target_after, tolerance_after]
  rfl

theorem maximum_after_withWindow :
    ((withWindow target tolerance window).after times).maximum =
      target * (.ofNat 1 + tolerance) := by
  rw [maximum, target_after, tolerance_after]
  rfl

theorem ticks_after_withWindow :
    ((withWindow target tolerance window).after times).ticks = lastOf (max window 2) times :=
  ticks_after _ times (Nat.zero_le _)

theorem answers_of_lastOf_eq {other : List Duration}
    (h : lastOf (max window 2) times = lastOf (max window 2) other) (further : List Duration)
    (now : Duration) :
    let a := (withWindow target tolerance window).after (times ++ further)
    let b := (withWindow target tolerance window).after (other ++ further)
    a.frequency? now = b.frequency? now ∧ a.status now = b.status now := by
  refine answers_eq ?_ ?_ ?_ now
  · rw [target_after, target_after]
  · rw [tolerance_after, tolerance_after]
  · rw [ticks_after_withWindow, ticks_after_withWindow, ← lastOf_lastOf_append, h,
      lastOf_lastOf_append]

end

end RateMonitor

namespace SharedMonitor
open RateMonitor

/-- What is read through a handle of a monitor that was given ticks at some times and keeps
so many of them. -/
structure ReadsLast (handle : SharedMonitor) (target tolerance : Binary64) (kept : Nat)
    (times : List Duration) (monitors : Monitors) : Prop where
  total : handle.total monitors = times.length
  events : ∀ now, (handle.status now monitors).get? "Events in window" =
    some (.int (min times.length kept : Nat))
  unmeasured : ∀ now, handle.frequency? now monitors = none ↔ times.length < 2
  /-- From two ticks on, the frequency since the oldest of the last ones. -/
  measured : 2 ≤ times.length → ∃ oldest, times.reverse[min times.length kept - 1]? = some oldest ∧
    ∀ now, handle.frequency? now monitors =
      some (if now ≤ oldest then .infinite false
        else .ofNat (min times.length kept - 1) / Duration.seconds (now - oldest))
  judged : ∀ now,
    ((handle.status now monitors).level, (handle.status now monitors).message) =
      verdict (target * (.ofNat 1 - tolerance)) (target * (.ofNat 1 + tolerance))
        times.length (handle.frequency? now monitors)
  silent : ∀ now,
    ((handle.status now monitors).level, (handle.status now monitors).message) =
      (.error, "No events recorded") ↔ times.length = 0

theorem readsLast_of_after {handle : SharedMonitor} {monitors : Monitors}
    {target tolerance : Binary64} {window : Nat} {times : List Duration}
    (h : monitors handle.lock = (withWindow target tolerance window).after times) :
    handle.ReadsLast target tolerance (max window 2) times monitors := by
  have hkept : 2 ≤ max window 2 := Nat.le_max_right _ _
  have hlength : (monitors handle.lock).ticks.length = min times.length (max window 2) := by
    rw [h, ticks_after_withWindow, length_lastOf]
  have hjudged (now : Duration) :
      ((handle.status now monitors).level, (handle.status now monitors).message) =
        verdict (target * (.ofNat 1 - tolerance)) (target * (.ofNat 1 + tolerance))
          times.length (handle.frequency? now monitors) := by
    -- No ticks or one are told from more by the kept ones, of which two find room.
    rw [← minimum_after_withWindow, ← maximum_after_withWindow, ← h, ← verdict_min hkept,
      ← hlength]
    exact (monitors handle.lock).judge_eq_verdict now
  constructor
  case total =>
    rw [total, h, total_after]
    exact Nat.zero_add _
  case events =>
    intro now
    rw [status, get?_status_events, hlength]
  case unmeasured =>
    intro now
    rw [frequency?, frequency?_eq_none_iff, hlength]
    omega
  case measured =>
    intro htimes
    have hhead : (monitors handle.lock).ticks.head? =
        times.reverse[min times.length (max window 2) - 1]? := by
      rw [h, ticks_after_withWindow, head?_lastOf (by omega)]
    have hindex : min times.length (max window 2) - 1 < times.reverse.length := by
      rw [List.length_reverse]
      omega
    have holdest := List.getElem?_eq_getElem hindex
    refine ⟨_, holdest, ?_⟩
    intro now
    rw [frequency?, frequency?_of_oldest _ (hhead.trans holdest) (by omega), hlength]
  case judged => exact hjudged
  case silent =>
    intro now
    rw [hjudged, verdict_eq_error_iff]

/-- Through its handles a rate monitor answers from its last ticks, their number apart. -/
theorem readings_of_last_ticks (target tolerance : Binary64) (window : Nat)
    (handle : SharedMonitor) :
    let started (others : Monitors) := handle.put (withWindow target tolerance window) others
    (∀ others deliveries,
      handle.ReadsLast target tolerance (max window 2) (timesAt handle.lock deliveries)
        (deliveries.foldl Delivery.next (started others))) ∧
    ∀ others others' past past',
      lastOf (max window 2) (timesAt handle.lock past) =
        lastOf (max window 2) (timesAt handle.lock past') →
      ∀ further now,
        let monitors := (past ++ further).foldl Delivery.next (started others)
        let monitors' := (past' ++ further).foldl Delivery.next (started others')
        handle.frequency? now monitors = handle.frequency? now monitors' ∧
          handle.status now monitors = handle.status now monitors' := by
  intro started
  have hmonitor (others : Monitors) (deliveries : List Delivery) :
      deliveries.foldl Delivery.next (started others) handle.lock =
        (withWindow target tolerance window).after (timesAt handle.lock deliveries) := by
    rw [afterDeliveries_eq]
    exact congrArg (after · _) (if_pos rfl)
  constructor
  · intro others deliveries
    exact readsLast_of_after (hmonitor others deliveries)
  · intro others others' past past' hlast further now
    simp only [frequency?, status, hmonitor, timesAt_append]
    exact answers_of_lastOf_eq hlast _ now

/-- Ticks in nanoseconds, delivered through copies of one handle. -/
def ticksAt (times : List Duration) : List Delivery :=
  times.map fun time => ⟨⟨0⟩, ⟨.epoch, time⟩⟩

/-- The window of zero is one of two ticks, so the late stamp before them is forgotten. -/
theorem readings_forget_late_stamp :
    lastOf 2 (timesAt 0 (ticksAt [9, 1, 3])) = lastOf 2 (timesAt 0 (ticksAt [1, 3])) ∧
      ∀ target now,
        let start := put ⟨0⟩ (withWindow target defaultTolerance 0) fun _ => .new target
        status ⟨0⟩ now ((ticksAt [9, 1, 3] ++ ticksAt [5]).foldl Delivery.next start) =
          status ⟨0⟩ now ((ticksAt [1, 3] ++ ticksAt [5]).foldl Delivery.next start) := by
  refine ⟨rfl, ?_⟩
  intro target now start
  have hkept : lastOf (max 0 2) (timesAt 0 (ticksAt [9, 1, 3])) =
      lastOf (max 0 2) (timesAt 0 (ticksAt [1, 3])) := rfl
  exact ((readings_of_last_ticks target defaultTolerance 0 ⟨0⟩).2 _ _ _ _ hkept _ now).2

end SharedMonitor
end GnssFusion
