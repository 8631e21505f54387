import GnssFusion.RateMonitor

/-!
What a rate monitor keeps of its ticks. Each tick keeps the last of them (`ticks_tick`),
so after any run of ticks a monitor keeps the last of that run (`ticks_after`), and of
ticks at even distances it measures the distance (`frequency?_after_steady`).
-/

namespace GnssFusion

/-- The last entries of a list, all of them if there are not as many. -/
def lastOf {α : Type} (count : Nat) (xs : List α) : List α := xs.drop (xs.length - count)

theorem lastOf_eq_self {α : Type} {count : Nat} {xs : List α} (h : xs.length ≤ count) :
    lastOf count xs = xs := by
  rw [lastOf, Nat.sub_eq_zero_of_le h, List.drop_zero]

theorem length_lastOf {α : Type} (count : Nat) (xs : List α) :
    (lastOf count xs).length = min xs.length count := by
  rw [lastOf, List.length_drop]
  omega

/-- The first of the last entries is as many back as there are of them. -/
theorem head?_lastOf {α : Type} {count : Nat} (h : 0 < count) (xs : List α) :
    (lastOf count xs).head? = xs.reverse[min xs.length count - 1]? := by
  rw [lastOf, List.head?_drop]
  cases xs with
  | nil => rfl
  | cons x rest =>
      rw [List.getElem?_reverse (by rw [List.length_cons]; omega)]
      congr 1
      simp only [List.length_cons]
      omega

theorem getLast?_lastOf {α : Type} {count : Nat} (h : 0 < count) (xs : List α) :
    (lastOf count xs).getLast? = xs.getLast? := by
  rw [lastOf, List.getLast?_drop]
  split
  · next hnone =>
      have hempty : xs = [] := List.length_eq_zero_iff.mp (by omega)
      rw [hempty, List.getLast?_nil]
  · rfl

/-- What is dropped early would be dropped later. -/
theorem lastOf_lastOf_append {α : Type} (count : Nat) (xs ys : List α) :
    lastOf count (lastOf count xs ++ ys) = lastOf count (xs ++ ys) := by
  have happend : lastOf count xs ++ ys = (xs ++ ys).drop (xs.length - count) :=
    (List.drop_append_of_le_length (Nat.sub_le _ _)).symm
  rw [happend, lastOf, List.drop_drop, lastOf]
  congr 1
  simp only [List.length_drop, List.length_append]
  omega

namespace RateMonitor

/-- A monitor after a run of ticks. -/
def after (monitor : RateMonitor) (times : List Duration) : RateMonitor :=
  times.foldl tick monitor

@[simp] theorem target_new (target : Binary64) : (new target).target = target := by
  rw [new, withWindow]

@[simp] theorem tolerance_new (target : Binary64) : (new target).tolerance = defaultTolerance := by
  rw [new, withWindow]

section
variable (monitor : RateMonitor) (time : Duration) (times : List Duration)

@[simp] theorem after_nil : monitor.after [] = monitor := rfl

@[simp] theorem after_cons : monitor.after (time :: times) = (monitor.tick time).after times := rfl

@[simp] theorem target_after : (monitor.after times).target = monitor.target := by
  induction times generalizing monitor with
  | nil => rfl
  | cons time rest ih => exact ih (monitor.tick time)

@[simp] theorem tolerance_after : (monitor.after times).tolerance = monitor.tolerance := by
  induction times generalizing monitor with
  | nil => rfl
  | cons time rest ih => exact ih (monitor.tick time)

@[simp] theorem total_after : (monitor.after times).total = monitor.total + times.length := by
  induction times generalizing monitor with
  | nil => rfl
  | cons time rest ih =>
      rw [after_cons, ih, List.length_cons, Nat.add_comm rest.length, ← Nat.add_assoc]
      rfl

theorem ticks_tick : (monitor.tick time).ticks = lastOf monitor.window (monitor.ticks ++ [time]) :=
  rfl

theorem ticks_after (h : monitor.ticks.length ≤ monitor.window) :
    (monitor.after times).ticks = lastOf monitor.window (monitor.ticks ++ times) := by
  induction times generalizing monitor with
  | nil => rw [after_nil, List.append_nil, lastOf_eq_self h]
  | cons time rest ih =>
      have hkept : (monitor.tick time).ticks.length ≤ (monitor.tick time).window := by
        rw [ticks_tick, lastOf, List.length_drop]
        change _ ≤ monitor.window
        omega
      rw [after_cons, ih _ hkept, ticks_tick]
      change lastOf monitor.window _ = _
      rw [lastOf_lastOf_append, List.append_assoc, List.singleton_append]

end

/-- Ticks at even distances. -/
def steady (start period : Duration) (count : Nat) : List Duration :=
  (List.range count).map fun (i : Nat) => start + i * period

theorem lastOf_steady (window : Nat) (start period : Duration) (count : Nat) :
    lastOf window (steady start period count) =
      steady (start + (count - window : Nat) * period) period (min count window) := by
  refine List.ext_getElem ?_ fun i _ _ => ?_
  · simp only [lastOf, steady, List.length_drop, List.length_map, List.length_range]
    omega
  · simp only [lastOf, steady, List.getElem_drop, List.getElem_map, List.getElem_range,
      List.length_map, List.length_range, Int.natCast_add]
    rw [Int.add_mul, Int.add_assoc]

theorem steady_succ_succ (start period : Duration) (count : Nat) :
    ∃ next rest, steady start period (count + 2) = start :: next :: rest ∧ rest.length = count := by
  refine ⟨start + period, (steady start period (count + 2)).drop 2, ?_, ?_⟩
  · simp [steady, List.range_succ_eq_map]
  · simp [steady]

/-- Read at its last tick, a monitor of ticks at even distances finds one interval in each
distance. -/
theorem frequency?_after_steady (target tolerance : Binary64) (window : Nat)
    (start period : Duration) {count : Nat} (hcount : 2 ≤ count) :
    ∃ intervals : Nat, 1 ≤ intervals ∧ intervals < max window 2 ∧
      ((withWindow target tolerance window).after (steady start period count)).frequency?
          (start + (count - 1 : Nat) * period) =
        some (if (Duration.seconds (intervals * period)).le (.ofNat 0) then .infinite false
          else .ofNat intervals / Duration.seconds (intervals * period)) := by
  have hticks := ticks_after (withWindow target tolerance window) (steady start period count)
    (Nat.zero_le _)
  obtain ⟨kept, hkept⟩ : ∃ kept, min count (max window 2) = kept + 2 :=
    ⟨min count (max window 2) - 2, by omega⟩
  rw [show (withWindow target tolerance window).ticks = [] from rfl, List.nil_append,
    show (withWindow target tolerance window).window = max window 2 from rfl, lastOf_steady,
    hkept] at hticks
  obtain ⟨next, rest, hsteady, hrest⟩ :=
    steady_succ_succ (start + (count - max window 2 : Nat) * period) period kept
  rw [hsteady] at hticks
  refine ⟨kept + 1, by omega, by omega, ?_⟩
  have hspan : start + (count - 1 : Nat) * period -
      (start + (count - max window 2 : Nat) * period) = (kept + 1 : Nat) * period := by
    have hcast : ((count - 1 : Nat) : Int) = (count - max window 2 : Nat) + (kept + 1 : Nat) := by
      omega
    rw [hcast, Int.add_mul, Int.add_sub_add_left, Int.add_comm, Int.add_sub_cancel]
  simp only [frequency?, hticks, hspan, List.length_cons, hrest]

/-- A measured frequency is judged by the bounds of the tolerance alone. -/
theorem judge_of_frequency? {monitor : RateMonitor} {now : Duration} {frequency : Binary64}
    (h : monitor.frequency? now = some frequency) :
    monitor.judge now =
      if frequency.lt monitor.minimum then (.warn, "Frequency too low")
      else if monitor.maximum.lt frequency then (.warn, "Frequency too high")
      else (.ok, "Desired frequency met") := by
  have hticks : monitor.ticks.isEmpty = false := by
    cases hempty : monitor.ticks with
    | nil => simp [frequency?, hempty] at h
    | cons oldest rest => rfl
  rw [judge, hticks, h]
  rfl

end RateMonitor
end GnssFusion
