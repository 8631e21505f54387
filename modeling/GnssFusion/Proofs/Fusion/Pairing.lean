import GnssFusion.Proofs.Fusion.Session

/-!
Pairing of stamps by epoch. In a run of a new engine each stamped report takes the stamp
of the latest report of its sibling stream if that is of the same epoch, and the clock's
reading otherwise (`paired_history`). Everything about stamps is a consequence of this
law about the merged list of stamped reports: a stamp may be handed from stream to stream
any number of times, but it is always a reading from the arrival of a report.
-/

namespace GnssFusion
namespace Session

/-- The stamp that is due to a report after the stamped reports before it. -/
def Stamping.due (earlier : List Stamping) (x : Stamping) : Timestamp :=
  (correlate x.iTow ((latest x.stream.sibling earlier).map Stamping.epoch) x.reading).value

/-- Each report has the stamp that is due to it. -/
def Paired (marks : List Stamping) : Prop :=
  ∀ earlier x later, marks = earlier ++ x :: later → x.stamp = x.due earlier

@[simp] theorem Stream.sibling_sibling (stream : Stream) : stream.sibling.sibling = stream := by
  cases stream <;> rfl

theorem Stream.eq_of_ne_sibling {a b : Stream} (h : a ≠ b.sibling) : a = b := by
  cases a <;> cases b <;> first | rfl | exact absurd rfl h

theorem mem_append_cons_of_mem {α : Type} {before after : List α} {a b : α}
    (h : b ∈ before ++ [a]) : b ∈ before ++ a :: after := by
  rw [List.append_cons]
  exact List.mem_append_left _ h

/-- A due stamp is taken over from the latest sibling of the same epoch, or read off the
clock when that is of another epoch or missing. -/
theorem due_cases (earlier : List Stamping) (x : Stamping) :
    (∃ z, latest x.stream.sibling earlier = some z ∧ z.iTow = x.iTow ∧
      x.due earlier = z.stamp) ∨
    ((latest x.stream.sibling earlier).map Stamping.iTow ≠ some x.iTow ∧
      x.due earlier = x.reading) := by
  cases h : latest x.stream.sibling earlier with
  | none => exact .inr ⟨by simp, by simp [Stamping.due, h, correlate]⟩
  | some z =>
      by_cases hz : z.iTow = x.iTow
      · exact .inl ⟨z, rfl, hz, by simp [Stamping.due, h, correlate, Stamping.epoch, hz]⟩
      · refine .inr ⟨by simpa using hz, ?_⟩
        simp [Stamping.due, h, correlate, Stamping.epoch, hz]

theorem due_of_latest {earlier : List Stamping} {x z : Stamping}
    (h : latest x.stream.sibling earlier = some z) (epoch : z.iTow = x.iTow) :
    x.due earlier = z.stamp := by
  obtain ⟨z', hz', -, hdue⟩ | ⟨hother, -⟩ := due_cases earlier x
  · rw [h] at hz'
    cases hz'
    exact hdue
  · exact absurd (by simp [h, epoch]) hother

theorem Paired.of_append {earlier later : List Stamping} (h : Paired (earlier ++ later)) :
    Paired earlier := by
  intro before x after hsplit
  exact h before x (after ++ later) (by simp [hsplit])

theorem latest_append_cons {stream : Stream} (before between : List Stamping) {x : Stamping}
    (hx : x.stream = stream) (apart : ∀ w ∈ between, w.stream ≠ stream) :
    latest stream (before ++ x :: between) = some x := by
  have hbetween : latest stream between = none := by
    simp only [latest, List.getLast?_eq_none_iff, List.filter_eq_nil_iff]
    intro w hw
    simpa using apart w hw
  rw [List.append_cons, latest_append, hbetween, latest_concat_same before hx]
  rfl

/-- Reports of one epoch on both streams share their stamp, as long as no other report
of the first one's stream comes between. -/
theorem Paired.shared {earlier between later : List Stamping} {x y : Stamping}
    (paired : Paired (earlier ++ x :: between ++ y :: later))
    (stream : y.stream = x.stream.sibling) (epoch : x.iTow = y.iTow)
    (apart : ∀ w ∈ between, w.stream ≠ x.stream) : y.stamp = x.stamp := by
  rw [paired (earlier ++ x :: between) y later rfl]
  refine due_of_latest ?_ epoch
  exact latest_append_cons earlier between (by simp [stream]) (by simpa [stream] using apart)

/-- Every stamp is the reading at a report of its epoch, which is that report or one
before it. The induction is on the number of reports before: a stamp that is taken over
was given earlier. -/
theorem Paired.provenance {earlier : List Stamping} {x : Stamping} {later : List Stamping}
    (paired : Paired (earlier ++ x :: later)) :
    ∃ w ∈ earlier ++ [x], w.reading = x.stamp ∧ w.iTow = x.iTow := by
  induction hn : earlier.length using Nat.strongRecOn generalizing earlier x later with
  | _ n ih =>
      have hx : x.stamp = x.due earlier := paired earlier x later rfl
      obtain ⟨z, hz, epoch, hdue⟩ | ⟨-, hdue⟩ := due_cases earlier x
      · obtain ⟨before, after, rfl, -, -⟩ := eq_append_cons_of_latest hz
        have hlt : before.length < n := by
          simp only [← hn, List.length_append, List.length_cons]
          omega
        obtain ⟨w, hw, hreading, hepoch⟩ := ih before.length hlt paired.of_append rfl
        exact ⟨w, List.mem_append_left _ (mem_append_cons_of_mem hw),
          by rw [hreading, hx, hdue], by rw [hepoch, epoch]⟩
      · exact ⟨x, by simp, by rw [hx, hdue], rfl⟩

theorem stamping?_eq_some_iff {moment : Moment} {x : Stamping} :
    moment.stamping? = some x ↔ moment.action.mark? = some (x.stream, x.iTow) ∧
      moment.output.stamp? = some x.stamp ∧ moment.reading = x.reading := by
  obtain ⟨stream, iTow, reading, stamp⟩ := x
  cases hmark : moment.action.mark? with
  | none => simp [Moment.stamping?, hmark]
  | some mark =>
      cases hstamp : moment.output.stamp? with
      | none => simp [Moment.stamping?, hmark, hstamp]
      | some given =>
          simp only [Moment.stamping?, hmark, hstamp, Option.some.injEq, Stamping.mk.injEq,
            Prod.ext_iff, and_assoc]
          exact and_congr_right fun _ => and_congr_right fun _ => and_comm

end Session

open Session

namespace Engine

/-- The run law of stamps: from a new engine every stamp is the due one. -/
theorem paired_history (frameId : String) (monitor : Option RateMonitor)
    (steps : List Step) : Paired (stampings ((new frameId monitor).history steps)) := by
  intro earlier x later hsplit
  obtain ⟨before, rest, hhistory, hbefore, hrest⟩ := List.filterMap_eq_append_iff.mp hsplit
  obtain ⟨gap, m, after, rfl, hgap, hm, -⟩ := List.filterMap_eq_cons_iff.mp hrest
  rw [← List.append_assoc] at hhistory
  obtain ⟨taken, step, htaken, hmoment⟩ := history_eq_append_cons hhistory
  have hearlier : stampings (before ++ gap) = earlier := by
    have hnone : stampings gap = [] := List.filterMap_eq_nil_iff.mpr hgap
    rw [stampings_append, hnone, List.append_nil]
    exact hbefore
  rw [← hmoment, stamping?_moment] at hm
  obtain ⟨mark, -, rfl⟩ := Option.map_eq_some_iff.mp hm
  simp only [Stamping.due, lastEpoch_after, htaken, hearlier, lastEpoch_new, Option.or_none]

theorem pairwise_readings (engine : Engine) {steps : List Step} (clock : NeverBack steps) :
    (stampings (engine.history steps)).Pairwise
      fun a b => a.reading.monotonic ≤ b.reading.monotonic := by
  rw [← map_toStep_history engine steps, NeverBack, List.pairwise_map] at clock
  rw [stampings, List.pairwise_filterMap]
  refine clock.imp ?_
  intro a b hle x hx y hy
  rw [← (stamping?_eq_some_iff.mp hx).2.2, ← (stamping?_eq_some_iff.mp hy).2.2]
  exact hle

section
variable {engine : Engine} {steps : List Step} {earlier later : List Moment} {m : Moment}

theorem stamping_of_mark (hsplit : engine.history steps = earlier ++ m :: later)
    {stream : Stream} {iTow : UInt32} (h : m.action.mark? = some (stream, iTow)) :
    ∃ x, m.stamping? = some x ∧ x.stream = stream ∧ x.iTow = iTow ∧
      m.output.stamp? = some x.stamp ∧ m.reading = x.reading := by
  obtain ⟨taken, step, -, rfl⟩ := history_eq_append_cons hsplit
  have hx := stamping?_moment (engine.after taken) step
  rw [show step.action.mark? = some (stream, iTow) from h, Option.map_some] at hx
  obtain ⟨-, hstamp, hreading⟩ := stamping?_eq_some_iff.mp hx
  exact ⟨_, hx, rfl, rfl, hstamp, hreading⟩

theorem mark_of_stamp (hsplit : engine.history steps = earlier ++ m :: later)
    {stamp : Timestamp} (h : m.output.stamp? = some stamp) :
    ∃ mark, m.action.mark? = some mark := by
  obtain ⟨taken, step, -, rfl⟩ := history_eq_append_cons hsplit
  obtain ⟨reading, action⟩ := step
  cases action with
  | position report | velocity report => exact ⟨_, rfl⟩
  | solution report | wait => nomatch h
  | query query => cases query <;> nomatch h

theorem reading_le (hsplit : engine.history steps = earlier ++ m :: later)
    (clock : NeverBack steps) :
    ∀ e ∈ earlier ++ [m], e.reading.monotonic ≤ m.reading.monotonic := by
  rw [← map_toStep_history engine steps, hsplit, NeverBack, List.pairwise_map,
    List.pairwise_append] at clock
  intro e he
  obtain he | he := List.mem_append.mp he
  · exact clock.2.2 e he m List.mem_cons_self
  · obtain rfl := List.mem_singleton.mp he
    exact Int.le_refl _

end

section
variable {frameId : String} {monitor : Option RateMonitor} {steps : List Step}
variable {earlier later : List Moment} {m : Moment}

theorem stampings_split {history : List Moment} {x : Stamping}
    (hsplit : history = earlier ++ m :: later) (hx : m.stamping? = some x) :
    stampings history = stampings earlier ++ x :: stampings later := by
  rw [hsplit, stampings_append, stampings_cons, hx]
  rfl

theorem reading_of_stamp {stamp : Timestamp}
    (hsplit : (new frameId monitor).history steps = earlier ++ m :: later)
    (h : m.output.stamp? = some stamp) :
    ∃ source ∈ earlier ++ [m], source.action.mark?.isSome ∧ source.reading = stamp := by
  obtain ⟨mark, hmark⟩ := mark_of_stamp hsplit h
  obtain ⟨x, hx, -, -, hstamp, -⟩ := stamping_of_mark hsplit hmark
  have paired := paired_history frameId monitor steps
  rw [stampings_split hsplit hx] at paired
  obtain ⟨w, hw, hreading, -⟩ := paired.provenance
  have hmem : w ∈ stampings (earlier ++ [m]) := by
    rw [stampings_split rfl hx]
    exact hw
  obtain ⟨source, hsource, hstamping⟩ := List.mem_filterMap.mp hmem
  obtain ⟨hmark, -, hread⟩ := stamping?_eq_some_iff.mp hstamping
  refine ⟨source, hsource, by simp [hmark], ?_⟩
  rw [hread, hreading]
  exact Option.some.inj (hstamp.symm.trans h)

theorem shared_stamp {between : List Moment} {n : Moment} {stream : Stream} {iTow : UInt32}
    (hsplit : (new frameId monitor).history steps =
      earlier ++ m :: between ++ n :: later)
    (hm : m.action.mark? = some (stream, iTow))
    (hn : n.action.mark? = some (stream.sibling, iTow))
    (apart : ∀ other ∈ between, ∀ epoch, other.action.mark? ≠ some (stream, epoch)) :
    ∃ stamp, m.output.stamp? = some stamp ∧ n.output.stamp? = some stamp := by
  have hsplit' := hsplit
  rw [List.append_assoc, List.cons_append] at hsplit'
  obtain ⟨x, hx, rfl, rfl, hxstamp, -⟩ := stamping_of_mark hsplit' hm
  obtain ⟨y, hy, hystream, hyepoch, hystamp, -⟩ := stamping_of_mark hsplit hn
  have paired := paired_history frameId monitor steps
  rw [stampings_split hsplit hy, stampings_split rfl hx] at paired
  have hshared : y.stamp = x.stamp := by
    refine paired.shared hystream hyepoch.symm ?_
    intro w hw hstream
    obtain ⟨other, hother, hstamping⟩ := List.mem_filterMap.mp hw
    exact apart other hother w.iTow (hstream ▸ (stamping?_eq_some_iff.mp hstamping).1)
  exact ⟨x.stamp, hxstamp, hshared ▸ hystamp⟩

theorem fresh_stamp {stream : Stream} {iTow : UInt32}
    (hsplit : (new frameId monitor).history steps = earlier ++ m :: later)
    (hm : m.action.mark? = some (stream, iTow))
    (other : lastReport stream.sibling earlier ≠ some iTow) :
    m.output.stamp? = some m.reading := by
  obtain ⟨x, hx, rfl, rfl, hstamp, hreading⟩ := stamping_of_mark hsplit hm
  have paired := paired_history frameId monitor steps
  rw [stampings_split hsplit hx] at paired
  obtain ⟨z, hz, epoch, -⟩ | ⟨-, hdue⟩ := due_cases (stampings earlier) x
  · exact absurd (by simp [lastReport, hz, epoch]) other
  · rw [hstamp, hreading, paired _ x _ rfl, hdue]

end

/-- Stamps over a whole run of a new engine. Reports of one epoch on both streams share
their stamp unless another report of the first one's stream comes between; a report whose
latest sibling is of another epoch or missing gets the clock's reading, which is not
before any earlier stamp if the clock never goes back; and every stamp is the reading at
the arrival of that report or an earlier one. -/
theorem stamps_follow_epochs (frameId : String) (monitor : Option RateMonitor)
    (steps : List Step) :
    let history := (new frameId monitor).history steps
    (∀ earlier first between second later stream iTow,
      history = earlier ++ first :: between ++ second :: later →
      first.action.mark? = some (stream, iTow) →
      second.action.mark? = some (stream.sibling, iTow) →
      (∀ m ∈ between, ∀ epoch, m.action.mark? ≠ some (stream, epoch)) →
      ∃ stamp, first.output.stamp? = some stamp ∧ second.output.stamp? = some stamp) ∧
    (∀ earlier m later stream iTow,
      history = earlier ++ m :: later →
      m.action.mark? = some (stream, iTow) →
      lastReport stream.sibling earlier ≠ some iTow →
      m.output.stamp? = some m.reading ∧
        (NeverBack steps → ∀ e ∈ earlier, ∀ stamp, e.output.stamp? = some stamp →
          stamp.monotonic ≤ m.reading.monotonic)) ∧
    (∀ earlier m later stamp,
      history = earlier ++ m :: later →
      m.output.stamp? = some stamp →
      ∃ source ∈ earlier ++ [m], source.action.mark?.isSome ∧ source.reading = stamp) := by
  refine ⟨?_, ?_, ?_⟩
  · intro earlier first between second later stream iTow hsplit hfirst hsecond apart
    exact shared_stamp hsplit hfirst hsecond apart
  · intro earlier m later stream iTow hsplit hm other
    refine ⟨fresh_stamp hsplit hm other, ?_⟩
    intro clock e he stamp hstamp
    obtain ⟨before, after, rfl⟩ := List.append_of_mem he
    have hsplit' := hsplit
    rw [List.append_assoc, List.cons_append] at hsplit'
    obtain ⟨source, hsource, -, rfl⟩ := reading_of_stamp hsplit' hstamp
    exact reading_le hsplit clock source
      (List.mem_append_left _ (mem_append_cons_of_mem hsource))
  · intro earlier m later stamp hsplit hstamp
    exact reading_of_stamp hsplit hstamp

/-- The first stamp is handed to the other stream and back, until another epoch comes. -/
example :
    let steps : List Step := [
      ⟨⟨⟨5, 0⟩, 10⟩, .position ⟨7000, 1, 2, 3, 4, 5, 6⟩⟩,
      ⟨⟨⟨5, 0⟩, 20⟩, .velocity ⟨7000, 1, 2, 3, 4⟩⟩,
      ⟨⟨⟨5, 0⟩, 30⟩, .position ⟨7000, 1, 2, 3, 4, 5, 6⟩⟩,
      ⟨⟨⟨5, 0⟩, 40⟩, .velocity ⟨8000, 1, 2, 3, 4⟩⟩]
    (stampings ((new "gps" none).history steps)).map (·.stamp.monotonic) = [10, 10, 10, 40] := by
  decide

end Engine
end GnssFusion
