import GnssFusion.Proofs.Fusion.Pairing

/-!
Runs in which the epochs of each stream increase, the streams being interleaved in any
way. A stamp that is taken over is then the sibling's own reading (`stamp_of_handover`),
and the stamps of a stream never decrease unless one of its reports cuts in: it arrives,
at a later reading, between a report of the sibling stream and the report that takes over
that one's stamp (`pairwise_stamps_iff`).
-/

namespace GnssFusion
namespace Session

/-- What arrives with a report that is stamped: stream, epoch and the clock's reading. -/
structure Arrival where
  stream : Stream
  iTow : UInt32
  reading : Timestamp
  deriving DecidableEq, Repr

def Step.arrival? (step : Step) : Option Arrival :=
  step.action.mark?.map fun mark => ⟨mark.1, mark.2, step.reading⟩

def Stamping.arrival (x : Stamping) : Arrival := ⟨x.stream, x.iTow, x.reading⟩

def arrivals (steps : List Step) : List Arrival := steps.filterMap Step.arrival?

/-- The reports of each stream arrive with increasing epochs. -/
def EpochsIncrease (arrived : List Arrival) : Prop :=
  arrived.Pairwise fun a b => a.stream = b.stream → a.iTow < b.iTow

instance (arrived : List Arrival) : Decidable (EpochsIncrease arrived) :=
  inferInstanceAs (Decidable (List.Pairwise _ _))

/-- No report of the stream comes, at a later reading, between a report of the sibling
stream and the report of the stream that takes over its stamp. -/
def NoneCutsIn (stream : Stream) (arrived : List Arrival) : Prop :=
  ∀ earlier v between x rest y later,
    arrived = earlier ++ v :: (between ++ x :: rest) ++ y :: later →
    v.stream = stream.sibling → (∀ w ∈ between ++ x :: rest, w.stream = stream) →
    y.stream = stream → y.iTow = v.iTow → x.reading.monotonic ≤ v.reading.monotonic

theorem pairwise_iff_split {α : Type} {R : α → α → Prop} {xs : List α} :
    xs.Pairwise R ↔ ∀ earlier a between b later,
      xs = earlier ++ a :: between ++ b :: later → R a b := by
  constructor
  · rintro h earlier a between b later rfl
    exact (List.pairwise_append.mp h).2.2 a (by simp) b List.mem_cons_self
  · intro h
    induction xs with
    | nil => exact List.Pairwise.nil
    | cons a rest ih =>
        refine List.pairwise_cons.mpr ⟨?_, ih ?_⟩
        · intro b hb
          obtain ⟨between, later, rfl⟩ := List.append_of_mem hb
          exact h [] a between b later rfl
        · intro earlier b between c later hsplit
          exact h (a :: earlier) b between c later (by simp [hsplit])

/-- Of two different elements of a list one comes before the other. -/
theorem split_or_split {α : Type} {earlier later before after : List α} {a b : α}
    (h : earlier ++ a :: later = before ++ b :: after) (hne : a ≠ b) :
    (∃ middle, before = earlier ++ a :: middle ∧ later = middle ++ b :: after) ∨
      ∃ middle, earlier = before ++ b :: middle ∧ after = middle ++ a :: later := by
  obtain ⟨middle, hbefore, hlater⟩ | ⟨middle, hearlier, hafter⟩ :=
    List.append_eq_append_iff.mp h
  · cases middle with
    | nil => exact absurd (List.cons.inj hlater).1 hne
    | cons first middle =>
        obtain ⟨rfl, htail⟩ := List.cons.inj hlater
        exact .inl ⟨middle, hbefore, htail⟩
  · cases middle with
    | nil => exact absurd (List.cons.inj hafter).1.symm hne
    | cons first middle =>
        obtain ⟨rfl, htail⟩ := List.cons.inj hafter
        exact .inr ⟨middle, hearlier, htail⟩

theorem Stream.ne_sibling (stream : Stream) : stream ≠ stream.sibling := by
  cases stream <;> decide

section
variable {marks earlier between rest later : List Stamping} {x y v : Stamping}

theorem stamp_le_reading (paired : Paired marks)
    (clock : marks.Pairwise fun a b => a.reading.monotonic ≤ b.reading.monotonic)
    (hx : x ∈ marks) : x.stamp.monotonic ≤ x.reading.monotonic := by
  obtain ⟨before, after, rfl⟩ := List.append_of_mem hx
  obtain ⟨w, hw, hreading, -⟩ := paired.provenance
  rw [← hreading]
  obtain hw | hw := List.mem_append.mp hw
  · exact (List.pairwise_append.mp clock).2.2 w hw x List.mem_cons_self
  · cases List.mem_singleton.mp hw
    exact Int.le_refl _

/-- A stamp that is taken over is the sibling's own reading: the sibling cannot have taken
it over in turn, for that takes an earlier report of the same stream and epoch. -/
theorem stamp_of_handover (paired : Paired marks)
    (ordered : EpochsIncrease (marks.map Stamping.arrival))
    (hsplit : marks = earlier ++ v :: between ++ y :: later)
    (stream : y.stream = v.stream.sibling) (epoch : y.iTow = v.iTow)
    (apart : ∀ w ∈ between, w.stream ≠ v.stream) : y.stamp = v.reading := by
  have hshared : y.stamp = v.stamp := by
    subst hsplit
    exact paired.shared stream epoch.symm apart
  have hv : v.stamp = v.due earlier := paired earlier v (between ++ y :: later) (by simp [hsplit])
  obtain ⟨z, hz, hepoch, -⟩ | ⟨-, hdue⟩ := due_cases earlier v
  · obtain ⟨before, after, rfl, hzstream, -⟩ := eq_append_cons_of_latest hz
    have hlt : z.iTow < y.iTow :=
      pairwise_iff_split.mp (List.pairwise_map.mp ordered) before z (after ++ v :: between) y
        later (by simp [hsplit]) (hzstream.trans stream.symm)
    rw [hepoch, epoch] at hlt
    exact absurd hlt (UInt32.lt_irrefl _)
  · rw [hshared, hv, hdue]

/-- A report that cuts in is of an earlier epoch than the sibling before it, and so it is
stamped afresh. -/
theorem stamp_of_cutting_in (paired : Paired marks)
    (ordered : EpochsIncrease (marks.map Stamping.arrival))
    (hsplit : marks = earlier ++ v :: (between ++ x :: rest) ++ y :: later)
    (sibling : v.stream = y.stream.sibling)
    (stream : ∀ w ∈ between ++ x :: rest, w.stream = y.stream) (epoch : y.iTow = v.iTow) :
    x.stamp = x.reading := by
  have hxstream : x.stream = y.stream := stream x (by simp)
  have hlt : x.iTow < y.iTow :=
    pairwise_iff_split.mp (List.pairwise_map.mp ordered) (earlier ++ v :: between) x rest y
      later (by simp [hsplit]) hxstream
  have hlatest : latest x.stream.sibling (earlier ++ v :: between) = some v := by
    refine latest_append_cons earlier between (by rw [sibling, hxstream]) ?_
    intro w hw
    rw [stream w (by simp [hw]), hxstream]
    exact y.stream.ne_sibling
  rw [paired (earlier ++ v :: between) x (rest ++ y :: later) (by simp [hsplit])]
  obtain ⟨z, hz, hepoch, -⟩ | ⟨-, hdue⟩ := due_cases (earlier ++ v :: between) x
  · rw [hlatest, Option.some.injEq] at hz
    subst hz
    rw [epoch, hepoch] at hlt
    exact absurd hlt (UInt32.lt_irrefl _)
  · exact hdue

/-- Two reports of one stream, of which the later takes over a stamp. The stamps are in
order if the sibling came between the two, and also if it came before both as long as the
clock did not move until the earlier one. -/
theorem stamp_le_of_handover (paired : Paired marks)
    (ordered : EpochsIncrease (marks.map Stamping.arrival))
    (clock : marks.Pairwise fun a b => a.reading.monotonic ≤ b.reading.monotonic)
    (none : NoneCutsIn y.stream (marks.map Stamping.arrival))
    (hsplit : marks = earlier ++ x :: between ++ y :: later) (stream : x.stream = y.stream)
    (hv : latest y.stream.sibling (earlier ++ x :: between) = some v)
    (epoch : v.iTow = y.iTow) : x.stamp.monotonic ≤ y.stamp.monotonic := by
  obtain ⟨before, after, hbefore, hvstream, hafter⟩ := eq_append_cons_of_latest hv
  have hafter' : ∀ w ∈ after, w.stream = y.stream := by
    intro w hw
    exact Stream.eq_of_ne_sibling (hafter w hw)
  have hvsplit : marks = before ++ v :: after ++ y :: later := by rw [hsplit, hbefore]
  have hy : y.stamp = v.reading := by
    refine stamp_of_handover paired ordered hvsplit (by simp [hvstream]) epoch.symm ?_
    simpa [hvstream] using hafter
  have hx : x.stamp.monotonic ≤ x.reading.monotonic :=
    stamp_le_reading paired clock (by simp [hsplit])
  rw [hy]
  refine Int.le_trans hx ?_
  have hne : x ≠ v := by
    rintro rfl
    exact absurd (stream.symm.trans hvstream) y.stream.ne_sibling
  obtain ⟨middle, -, rfl⟩ | ⟨middle, -, rfl⟩ := split_or_split hbefore hne
  · exact pairwise_iff_split.mp clock earlier x middle v (after ++ y :: later) (by simp [hsplit])
  · refine none (before.map Stamping.arrival) v.arrival (middle.map Stamping.arrival)
      x.arrival (between.map Stamping.arrival) y.arrival (later.map Stamping.arrival)
      (by simp [hvsplit]) hvstream ?_ rfl epoch.symm
    rw [← List.map_cons, ← List.map_append]
    intro w hw
    obtain ⟨mark, hmark, rfl⟩ := List.mem_map.mp hw
    exact hafter' mark hmark

/-- The stamps of a stream never decrease exactly when none of its reports cuts in. -/
theorem pairwise_stamps_iff (stream : Stream) (paired : Paired marks)
    (ordered : EpochsIncrease (marks.map Stamping.arrival))
    (clock : marks.Pairwise fun a b => a.reading.monotonic ≤ b.reading.monotonic) :
    ((marks.filter (·.stream = stream)).Pairwise
      fun a b => a.stamp.monotonic ≤ b.stamp.monotonic) ↔
    NoneCutsIn stream (marks.map Stamping.arrival) := by
  rw [List.pairwise_filter, pairwise_iff_split]
  simp only [decide_eq_true_eq]
  constructor
  · intro hordered earlier v between x rest y later hsplit hv hstream hy hepoch
    simp only [List.map_eq_append_iff, List.map_eq_cons_iff] at hsplit
    obtain ⟨_, _, hmarks, ⟨earlier, _, rfl, -, v, _, rfl, rfl, between, _, rfl, rfl, x, rest,
      rfl, rfl, rfl⟩, y, later, rfl, rfl, -⟩ := hsplit
    have hinner : ∀ w ∈ between ++ x :: rest, w.stream = y.stream := by
      intro w hw
      rw [show y.stream = stream from hy]
      exact hstream w.arrival (by simpa using List.mem_map_of_mem hw)
    have hsibling : v.stream = y.stream.sibling := by
      rw [show y.stream = stream from hy]
      exact hv
    have hle : x.stamp.monotonic ≤ y.stamp.monotonic :=
      hordered (earlier ++ v :: between) x rest y later (by simp [hmarks])
        ((hinner x (by simp)).trans hy) hy
    rw [stamp_of_cutting_in paired ordered hmarks hsibling hinner hepoch,
      stamp_of_handover paired ordered hmarks (by simp [hsibling]) hepoch] at hle
    · exact hle
    · intro w hw
      rw [hinner w hw, hsibling]
      exact y.stream.ne_sibling
  · intro none earlier x between y later hsplit hx hy
    subst hy
    obtain ⟨v, hv, hepoch, -⟩ | ⟨-, hdue⟩ := due_cases (earlier ++ x :: between) y
    · exact stamp_le_of_handover paired ordered clock none hsplit hx hv hepoch
    · rw [paired (earlier ++ x :: between) y later hsplit, hdue]
      have hxreading : x.stamp.monotonic ≤ x.reading.monotonic :=
        stamp_le_reading paired clock (by simp [hsplit])
      exact Int.le_trans hxreading
        (pairwise_iff_split.mp clock earlier x between y later hsplit)

end

end Session

open Session

namespace Engine

theorem map_arrival_stampings (engine : Engine) (steps : List Step) :
    (stampings (engine.history steps)).map Stamping.arrival = arrivals steps := by
  induction steps generalizing engine with
  | nil => rfl
  | cons step rest ih =>
      rw [history_cons, stampings_cons, List.map_append, ih, stamping?_moment]
      cases h : step.action.mark? <;> simp [arrivals, Step.arrival?, Stamping.arrival, h]

theorem fixTick?_moment (engine : Engine) (step : Step) :
    (engine.moment step).fixTick? =
      ((engine.moment step).stamping?.filter (·.stream = .position)).map
        fun x => x.stamp.monotonic := by
  obtain ⟨reading, action⟩ := step
  cases action with
  | position report | velocity report | solution report | wait => rfl
  | query query => cases query <;> rfl

/-- The ticks of the fixes are the stamps of the position reports. -/
theorem filterMap_fixTick? (engine : Engine) (steps : List Step) :
    (engine.history steps).filterMap Moment.fixTick? =
      ((stampings (engine.history steps)).filter (·.stream = .position)).map
        fun x => x.stamp.monotonic := by
  induction steps generalizing engine with
  | nil => rfl
  | cons step rest ih =>
      rw [history_cons, stampings_cons, List.filter_append, List.map_append, ← ih,
        List.filterMap_cons, fixTick?_moment]
      cases (engine.moment step).stamping? with
      | none => rfl
      | some x => by_cases h : x.stream = .position <;> simp [Option.filter, h]

/-- Runs of a new engine in which the epochs of each stream increase, on a clock that
never goes back. The stamps of the fixes, which are what the rate monitor is ticked with,
never decrease exactly when no position report comes, at a later reading, between a
velocity report and the position report that takes over its stamp. -/
theorem fixes_in_order_iff (frameId : String) (monitor : Option RateMonitor)
    (steps : List Step) (clock : NeverBack steps) (ordered : EpochsIncrease (arrivals steps)) :
    let engine := new frameId monitor
    let ticks := (engine.history steps).filterMap Moment.fixTick?
    (engine.after steps).monitor = monitor.map (ticks.foldl RateMonitor.tick) ∧
      (ticks.Pairwise (· ≤ ·) ↔ NoneCutsIn .position (arrivals steps)) := by
  intro engine ticks
  refine ⟨monitor_after engine steps, ?_⟩
  rw [← map_arrival_stampings engine] at ordered ⊢
  rw [show ticks = _ from filterMap_fixTick? engine steps, List.pairwise_map]
  exact pairwise_stamps_iff .position (paired_history frameId monitor steps) ordered
    (pairwise_readings engine clock)

/-- Positions run ahead of the velocities by an epoch and are then caught up with. -/
theorem fixes_in_order_when_positions_lead :
    let steps : List Step := [
      ⟨⟨⟨5, 0⟩, 10⟩, .position ⟨1000, 1, 2, 3, 4, 5, 6⟩⟩,
      ⟨⟨⟨5, 0⟩, 20⟩, .position ⟨1250, 1, 2, 3, 4, 5, 6⟩⟩,
      ⟨⟨⟨5, 0⟩, 30⟩, .velocity ⟨1000, 1, 2, 3, 4⟩⟩,
      ⟨⟨⟨5, 0⟩, 40⟩, .velocity ⟨1500, 1, 2, 3, 4⟩⟩,
      ⟨⟨⟨5, 0⟩, 50⟩, .position ⟨1500, 1, 2, 3, 4, 5, 6⟩⟩]
    let ticks := ((new "gps" none).history steps).filterMap Moment.fixTick?
    NeverBack steps ∧ EpochsIncrease (arrivals steps) ∧ ticks = [10, 20, 40] ∧
      (ticks.Pairwise (· ≤ ·) ↔ NoneCutsIn .position (arrivals steps)) :=
  ⟨by decide, by decide, by decide,
    (fixes_in_order_iff "gps" none _ (by decide) (by decide)).2⟩

/-- A velocity report that runs ahead hands its stamp over past the position report of an
earlier epoch, so that the second fix is stamped before the first. -/
theorem fixes_out_of_order_when_velocities_lead :
    let steps : List Step := [
      ⟨⟨⟨0, 1⟩, 1⟩, .velocity ⟨10, 0, 0, 0, 0⟩⟩,
      ⟨⟨⟨0, 2⟩, 2⟩, .position ⟨5, 0, 0, 0, 0, 0, 0⟩⟩,
      ⟨⟨⟨0, 2⟩, 2⟩, .position ⟨10, 0, 0, 0, 0, 0, 0⟩⟩]
    let ticks := ((new "gps" none).history steps).filterMap Moment.fixTick?
    NeverBack steps ∧ EpochsIncrease (arrivals steps) ∧ ticks = [2, 1] ∧
      ¬ ticks.Pairwise (· ≤ ·) := by
  decide

end Engine
end GnssFusion
