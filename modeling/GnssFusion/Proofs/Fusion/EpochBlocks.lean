import GnssFusion.Proofs.Fusion.Pairing
import Mathlib.Data.List.Induction

/-!
Runs in which no epoch recurs after another one. Then a stamp that is taken over is the
stamp of the report just before (`due_continues`), so that stamps never decrease on a
clock that does not go back. Once both streams have reported an epoch its stamp is
settled for the rest of the block.
-/

namespace GnssFusion
namespace Session

/-- Equal elements are consecutive. -/
def Grouped {α : Type} (xs : List α) : Prop :=
  ∀ earlier a between later, xs = earlier ++ a :: between ++ a :: later → ∀ b ∈ between, b = a

section
variable {α : Type}

theorem Grouped.of_append {xs ys : List α} (h : Grouped (xs ++ ys)) : Grouped xs := by
  intro earlier a between later hsplit
  exact h earlier a between (later ++ ys) (by simp [hsplit])

theorem grouped_cons {a : α} {rest : List α} :
    Grouped (a :: rest) ↔ (a ∈ rest → rest.head? = some a) ∧ Grouped rest := by
  constructor
  · intro h
    refine ⟨?_, ?_⟩
    · intro hmem
      obtain ⟨between, later, rfl⟩ := List.append_of_mem hmem
      cases between with
      | nil => rfl
      | cons b between => simp [h [] a (b :: between) later rfl b List.mem_cons_self]
    · intro earlier b between later hsplit
      exact h (a :: earlier) b between later (by simp [hsplit])
  · rintro ⟨hhead, hrest⟩ earlier b between later hsplit
    cases earlier with
    | cons first earlier =>
        obtain ⟨-, rfl⟩ := List.cons.inj hsplit
        exact hrest earlier b between later rfl
    | nil =>
        obtain ⟨rfl, rfl⟩ := List.cons.inj hsplit
        have next := hhead (by simp)
        cases between with
        | nil => simp
        | cons c between =>
            have hc : c = a := by simpa using next
            subst hc
            intro x hx
            obtain rfl | hx := List.mem_cons.mp hx
            · rfl
            · exact hrest [] c between later rfl x hx

instance decidableGrouped [DecidableEq α] : (xs : List α) → Decidable (Grouped xs)
  | [] => .isTrue fun earlier a between later h => by simp at h
  | _ :: rest =>
      have := decidableGrouped rest
      decidable_of_iff _ grouped_cons.symm

end

/-- Both streams last reported this epoch, under this stamp. -/
def Settled (marks : List Stamping) (iTow : UInt32) (stamp : Timestamp) : Prop :=
  ∀ stream, ∃ x, latest stream marks = some x ∧ x.iTow = iTow ∧ x.stamp = stamp

theorem Settled.concat {marks : List Stamping} {iTow : UInt32} {stamp : Timestamp}
    (h : Settled marks iTow stamp) {x : Stamping} (epoch : x.iTow = iTow)
    (hx : x.stamp = x.due marks) : x.stamp = stamp ∧ Settled (marks ++ [x]) iTow stamp := by
  have hstamp : x.stamp = stamp := by
    obtain ⟨z, hz, hepoch, hzstamp⟩ := h x.stream.sibling
    rw [hx, due_of_latest hz (hepoch.trans epoch.symm), hzstamp]
  refine ⟨hstamp, ?_⟩
  intro stream
  by_cases hstream : x.stream = stream
  · exact ⟨x, latest_concat_same marks hstream, epoch, hstamp⟩
  · rw [latest_concat_other marks hstream]
    exact h stream

theorem Settled.stays {marks later : List Stamping} {iTow : UInt32} {stamp : Timestamp}
    (h : Settled marks iTow stamp) (paired : Paired (marks ++ later))
    (epoch : ∀ x ∈ later, x.iTow = iTow) : ∀ x ∈ later, x.stamp = stamp := by
  induction later generalizing marks with
  | nil => simp
  | cons first later ih =>
      obtain ⟨hfirst, hsettled⟩ :=
        h.concat (epoch first List.mem_cons_self) (paired marks first later rfl)
      rw [List.append_cons] at paired
      intro x hx
      obtain rfl | hx := List.mem_cons.mp hx
      · exact hfirst
      · exact ih hsettled paired (fun y hy => epoch y (List.mem_cons_of_mem _ hy)) x hx

theorem settled_of_change {earlier : List Stamping} {x y : Stamping}
    (paired : Paired (earlier ++ [x] ++ [y])) (epoch : x.iTow = y.iTow)
    (change : x.stream ≠ y.stream) :
    y.stamp = x.stamp ∧ Settled (earlier ++ [x] ++ [y]) x.iTow x.stamp := by
  have hstream : y.stream = x.stream.sibling :=
    Stream.eq_of_ne_sibling (by simpa using change.symm)
  have hpaired : Paired (earlier ++ x :: [] ++ y :: []) := by simpa using paired
  have hstamp : y.stamp = x.stamp := hpaired.shared hstream epoch (by simp)
  refine ⟨hstamp, ?_⟩
  intro stream
  by_cases hy : y.stream = stream
  · exact ⟨y, latest_concat_same _ hy, epoch.symm, hstamp⟩
  · have hx : x.stream = stream := Stream.eq_of_ne_sibling fun h => hy (by simp [hstream, h])
    exact ⟨x, by rw [latest_concat_other _ hy, latest_concat_same _ hx], rfl, rfl⟩

theorem stamp_of_change {earlier later : List Stamping} {x y z : Stamping}
    (paired : Paired (earlier ++ x :: y :: later))
    (grouped : Grouped ((earlier ++ x :: y :: later).map Stamping.iTow))
    (epoch : x.iTow = y.iTow) (change : x.stream ≠ y.stream)
    (hz : z ∈ y :: later) (hepoch : z.iTow = x.iTow) : z.stamp = x.stamp := by
  rw [List.append_cons, List.append_cons] at paired
  obtain ⟨hy, settled⟩ := settled_of_change paired.of_append epoch change
  obtain rfl | hz := List.mem_cons.mp hz
  · exact hy
  · obtain ⟨between, after, rfl⟩ := List.append_of_mem hz
    have hblock : ∀ w ∈ between ++ [z], w.iTow = x.iTow := by
      intro w hw
      obtain hw | hw := List.mem_append.mp hw
      · rw [epoch]
        refine grouped ((earlier ++ [x]).map Stamping.iTow) y.iTow
          (between.map Stamping.iTow) (after.map Stamping.iTow) ?_ w.iTow
          (List.mem_map_of_mem hw)
        simp [hepoch, epoch]
      · rw [List.mem_singleton.mp hw, hepoch]
    rw [List.append_cons between, ← List.append_assoc] at paired
    exact settled.stays paired.of_append hblock z (by simp)

/-- Where epochs are grouped, a stamp that is not fresh continues the one before it. -/
theorem due_continues {earlier : List Stamping} {x : Stamping} (paired : Paired earlier)
    (grouped : Grouped ((earlier ++ [x]).map Stamping.iTow)) :
    x.due earlier = x.reading ∨
      ∃ before y, earlier = before ++ [y] ∧ x.due earlier = y.stamp := by
  obtain ⟨z, hz, hepoch, hdue⟩ | ⟨-, hdue⟩ := due_cases earlier x
  · right
    obtain ⟨before, after, rfl, hstream, apart⟩ := eq_append_cons_of_latest hz
    obtain rfl | ⟨between, y, rfl⟩ := List.eq_nil_or_concat after
    · exact ⟨before, z, rfl, hdue⟩
    · -- The report just before lies between two of one epoch, so it is of that epoch,
      -- and being on the stream of the new report it shares the sibling's stamp.
      have hy : y.iTow = z.iTow := by
        refine grouped (before.map Stamping.iTow) z.iTow
          ((between ++ [y]).map Stamping.iTow) [] ?_ y.iTow (by simp)
        simp [hepoch]
      have hystream : y.stream = z.stream.sibling := by
        rw [hstream, Stream.sibling_sibling]
        exact Stream.eq_of_ne_sibling (apart y (by simp))
      have hpaired : Paired (before ++ z :: between ++ y :: []) := by simpa using paired
      have hshared : y.stamp = z.stamp := by
        refine hpaired.shared hystream hy.symm ?_
        intro w hw
        rw [hstream]
        exact apart w (by simp [hw])
      exact ⟨before ++ z :: between, y, by simp, by rw [hdue, hshared]⟩
  · exact .inl hdue

theorem pairwise_stamps {marks : List Stamping} (paired : Paired marks)
    (grouped : Grouped (marks.map Stamping.iTow))
    (clock : marks.Pairwise fun a b => a.reading.monotonic ≤ b.reading.monotonic) :
    marks.Pairwise fun a b => a.stamp.monotonic ≤ b.stamp.monotonic := by
  induction marks using List.reverseRecOn with
  | nil => exact List.Pairwise.nil
  | append_singleton earlier x ih =>
      have hordered := ih paired.of_append
        (Grouped.of_append (by simpa using grouped)) (List.pairwise_append.mp clock).1
      refine List.pairwise_append.mpr ⟨hordered, List.pairwise_singleton _ _, ?_⟩
      intro a ha b hb
      rw [List.mem_singleton.mp hb, paired earlier x [] rfl]
      obtain hfresh | ⟨before, y, rfl, hy⟩ := due_continues paired.of_append grouped
      · obtain ⟨before, after, rfl⟩ := List.append_of_mem ha
        obtain ⟨w, hw, hreading, -⟩ := paired.of_append.provenance
        rw [hfresh, ← hreading]
        exact (List.pairwise_append.mp clock).2.2 w (mem_append_cons_of_mem hw) x
          (List.mem_singleton.mpr rfl)
      · rw [hy]
        obtain ha | ha := List.mem_append.mp ha
        · exact (List.pairwise_append.mp hordered).2.2 a ha y (List.mem_singleton.mpr rfl)
        · obtain rfl := List.mem_singleton.mp ha
          exact Int.le_refl _

theorem two_le_length_filter {α : Type} {p : α → Bool} (earlier between later : List α)
    {x y : α} (hx : p x) (hy : p y) :
    2 ≤ ((earlier ++ x :: between ++ y :: later).filter p).length := by
  simp only [List.filter_append, List.filter_cons, hx, hy, if_true, List.length_append,
    List.length_cons]
  omega

/-- The reports of one stream and epoch. -/
def reportsOf (marks : List Stamping) (stream : Stream) (iTow : UInt32) : List Stamping :=
  marks.filter fun x => x.stream = stream ∧ x.iTow = iTow

theorem shared_of_single {earlier between later : List Stamping} {x y : Stamping}
    (paired : Paired (earlier ++ x :: between ++ y :: later))
    (grouped : Grouped ((earlier ++ x :: between ++ y :: later).map Stamping.iTow))
    (epoch : y.iTow = x.iTow)
    (single : ∀ stream,
      (reportsOf (earlier ++ x :: between ++ y :: later) stream x.iTow).length ≤ 1) :
    y.stamp = x.stamp := by
  have hbetween : ∀ w ∈ between, w.iTow = x.iTow := by
    intro w hw
    refine grouped (earlier.map Stamping.iTow) x.iTow (between.map Stamping.iTow)
      (later.map Stamping.iTow) ?_ w.iTow (List.mem_map_of_mem hw)
    simp [epoch]
  have hsingle := single x.stream
  have hother : y.stream ≠ x.stream := by
    intro h
    have := two_le_length_filter
      (p := fun z : Stamping => z.stream = x.stream ∧ z.iTow = x.iTow)
      earlier between later (x := x) (y := y) (by simp) (by simp [h, epoch])
    rw [reportsOf] at hsingle
    omega
  refine paired.shared ?_ epoch.symm ?_
  · exact Stream.eq_of_ne_sibling (by simpa using hother)
  · intro w hw h
    obtain ⟨before, after, rfl⟩ := List.append_of_mem hw
    have := two_le_length_filter
      (p := fun z : Stamping => z.stream = x.stream ∧ z.iTow = x.iTow)
      earlier before (after ++ y :: later) (x := x) (y := w) (by simp)
      (by simp [h, hbetween w hw])
    simp only [reportsOf, List.append_assoc, List.cons_append] at hsingle this
    omega

theorem stamp_of_single {marks : List Stamping} {x y : Stamping} (paired : Paired marks)
    (grouped : Grouped (marks.map Stamping.iTow)) (hx : x ∈ marks) (hy : y ∈ marks)
    (epoch : y.iTow = x.iTow)
    (single : ∀ stream, (reportsOf marks stream x.iTow).length ≤ 1) : y.stamp = x.stamp := by
  obtain ⟨before, after, rfl⟩ := List.append_of_mem hx
  obtain hy | hy := List.mem_append.mp hy
  · obtain ⟨earlier, between, rfl⟩ := List.append_of_mem hy
    exact (shared_of_single paired grouped epoch.symm (by simpa only [epoch] using single)).symm
  · obtain rfl | hy := List.mem_cons.mp hy
    · rfl
    · obtain ⟨between, later, rfl⟩ := List.append_of_mem hy
      rw [← List.cons_append, ← List.append_assoc] at paired grouped single
      exact shared_of_single paired grouped epoch single

/-- Epochs of the reports that are stamped, in order. -/
def epochs (steps : List Step) : List UInt32 :=
  steps.filterMap fun step => step.action.mark?.map Prod.snd

end Session

open Session

namespace Engine

theorem map_iTow_stampings (engine : Engine) (steps : List Step) :
    (stampings (engine.history steps)).map Stamping.iTow = epochs steps := by
  induction steps generalizing engine with
  | nil => rfl
  | cons step rest ih =>
      rw [history_cons, stampings_cons, List.map_append, ih, stamping?_moment]
      cases h : step.action.mark? <;> simp [epochs, h]

theorem stamp?_moment (engine : Engine) (step : Step) :
    (engine.moment step).output.stamp? = (engine.moment step).stamping?.map Stamping.stamp := by
  obtain ⟨reading, action⟩ := step
  cases action with
  | position report | velocity report | solution report | wait => rfl
  | query query => cases query <;> rfl

theorem map_stamp_stampings (engine : Engine) (steps : List Step) :
    (stampings (engine.history steps)).map Stamping.stamp =
      (engine.history steps).filterMap fun m => m.output.stamp? := by
  induction steps generalizing engine with
  | nil => rfl
  | cons step rest ih =>
      rw [history_cons, stampings_cons, List.map_append, ih, List.filterMap_cons, stamp?_moment]
      cases (engine.moment step).stamping? <;> rfl

/-- Runs of a new engine in which the reports of every epoch are consecutive, on a clock
that never goes back. Stamps never decrease; from the report before a change of stream on,
all reports of its epoch carry its stamp; and an epoch with at most one report on each
stream has one stamp. -/
theorem stamps_in_order_of_grouped (frameId : String) (monitor : Option RateMonitor)
    (steps : List Step) (clock : NeverBack steps) (grouped : Grouped (epochs steps)) :
    let history := (new frameId monitor).history steps
    ((history.filterMap fun m => m.output.stamp?).Pairwise
      fun a b => a.monotonic ≤ b.monotonic) ∧
    (∀ earlier x y later, stampings history = earlier ++ x :: y :: later →
      x.iTow = y.iTow → x.stream ≠ y.stream →
      ∀ z ∈ y :: later, z.iTow = x.iTow → z.stamp = x.stamp) ∧
    (∀ x ∈ stampings history, ∀ y ∈ stampings history, y.iTow = x.iTow →
      (∀ stream, (reportsOf (stampings history) stream x.iTow).length ≤ 1) →
      y.stamp = x.stamp) := by
  intro history
  have paired : Paired (stampings history) := paired_history frameId monitor steps
  rw [← map_iTow_stampings (new frameId monitor)] at grouped
  refine ⟨?_, ?_, ?_⟩
  · rw [← map_stamp_stampings, List.pairwise_map]
    exact pairwise_stamps paired grouped (pairwise_readings _ clock)
  · intro earlier x y later hsplit epoch change z hz hepoch
    rw [hsplit] at paired grouped
    exact stamp_of_change paired grouped epoch change hz hepoch
  · intro x hx y hy epoch single
    exact stamp_of_single paired grouped hx hy epoch single

/-- Three reports at the end of a week, two after the rollover. -/
theorem stamps_in_order_at_rollover :
    let steps : List Step := [
      ⟨⟨⟨5, 0⟩, 10⟩, .position ⟨604799000, 1, 2, 3, 4, 5, 6⟩⟩,
      ⟨⟨⟨4, 0⟩, 20⟩, .velocity ⟨604799000, 1, 2, 3, 4⟩⟩,
      ⟨⟨⟨6, 0⟩, 30⟩, .position ⟨604799000, 7, 8, 9, 0, 1, 2⟩⟩,
      ⟨⟨⟨6, 0⟩, 35⟩, .wait⟩,
      ⟨⟨⟨7, 0⟩, 40⟩, .velocity ⟨0, 5, 6, 7, 8⟩⟩,
      ⟨⟨⟨7, 0⟩, 40⟩, .position ⟨0, 1, 2, 3, 4, 5, 6⟩⟩]
    NeverBack steps ∧ Grouped (epochs steps) ∧
      (((new "gps" none).history steps).filterMap fun m => m.output.stamp?).Pairwise
        fun a b => a.monotonic ≤ b.monotonic :=
  ⟨by decide, by decide, (stamps_in_order_of_grouped "gps" none _ (by decide) (by decide)).1⟩

end Engine
end GnssFusion
