import Mathlib.Data.Int.Order.Basic
import Mathlib.Tactic.Simproc.ExistsAndEq
import GnssFusion.Replay.Recording

/-!
Reports by the names of their fields. Each field takes the integers of its width and no
others (`decode_eq_some_iff`), so a report is read exactly from fields that have its values
(`report?_eq_some_iff`), and any values in range are those of a report (`exists_report`).
-/

namespace GnssFusion

open Json

/-! Reports by the names of their fields. -/

def Report.kind : Report → Recording.ReportKind
  | .position _ => .position
  | .velocity _ => .velocity
  | .solution _ => .solution

/-- The fields with their values, in the order in which their kind names them. -/
def Report.values : Report → List (String × ℤ)
  | .position r => [("i_tow", r.iTow.toNat), ("lon", r.lon.toInt), ("lat", r.lat.toInt),
      ("height", r.height.toInt), ("h_msl", r.hMsl.toInt), ("h_acc", r.hAcc.toNat),
      ("v_acc", r.vAcc.toNat)]
  | .velocity r => [("i_tow", r.iTow.toNat), ("vel_n", r.velN.toInt), ("vel_e", r.velE.toInt),
      ("vel_d", r.velD.toInt), ("s_acc", r.sAcc.toNat)]
  | .solution r => [("i_tow", r.iTow.toNat), ("gps_fix", r.gpsFix.toNat),
      ("flags", r.flags.toNat), ("num_sv", r.numSv.toNat)]

namespace Recording

def ReportKind.name : ReportKind → String
  | .position => "position"
  | .velocity => "velocity"
  | .solution => "solution"

theorem ofName?_eq_some_iff {name : String} {kind : ReportKind} :
    ReportKind.ofName? name = some kind ↔ name = kind.name := by
  constructor
  · intro h
    unfold ReportKind.ofName? at h
    split at h
    · cases h; rfl
    · cases h; rfl
    · cases h; rfl
    · cases h
  · rintro rfl
    cases kind <;> rfl

/-! The widths of fields. -/

theorem uint32_range (w : UInt32) : 0 ≤ (w.toNat : ℤ) ∧ (w.toNat : ℤ) ≤ 0xffffffff := by
  have := w.toNat_lt
  omega

theorem uint32_of_range {z : ℤ} (h : 0 ≤ z ∧ z ≤ 0xffffffff) :
    ((UInt32.ofNat z.toNat).toNat : ℤ) = z := by
  have hlt : z.toNat < UInt32.size := by simp only [UInt32.size]; omega
  rw [UInt32.toNat_ofNat_of_lt' hlt, Int.toNat_of_nonneg h.1]

theorem int32_range (w : Int32) : -0x80000000 ≤ w.toInt ∧ w.toInt ≤ 0x7fffffff := by
  have hlow := w.le_toInt
  have hhigh := w.toInt_lt
  omega

theorem int32_of_range {z : ℤ} (h : -0x80000000 ≤ z ∧ z ≤ 0x7fffffff) :
    (Int32.ofInt z).toInt = z :=
  Int32.toInt_ofInt_of_le h.1 (by omega)

theorem uint8_range (w : UInt8) : 0 ≤ (w.toNat : ℤ) ∧ (w.toNat : ℤ) ≤ 0xff := by
  have := w.toNat_lt
  omega

theorem uint8_of_range {z : ℤ} (h : 0 ≤ z ∧ z ≤ 0xff) : ((UInt8.ofNat z.toNat).toNat : ℤ) = z := by
  have hlt : z.toNat < UInt8.size := by simp only [UInt8.size]; omega
  rw [UInt8.toNat_ofNat_of_lt' hlt, Int.toNat_of_nonneg h.1]

/-! Fields. -/

section
variable {fields : Fields} {name : String}

theorem integerIn_eq_some_iff {low high z : ℤ} {value : Value} :
    integerIn low high value = some z ↔ value = .integer z ∧ low ≤ z ∧ z ≤ high := by
  cases value with
  | integer y =>
      simp only [integerIn, Option.ite_none_right_eq_some, Option.some.injEq, Value.integer.injEq]
      constructor
      · rintro ⟨hrange, rfl⟩
        exact ⟨rfl, hrange⟩
      · rintro ⟨rfl, hrange⟩
        exact ⟨hrange, rfl⟩
  | _ => simp [integerIn]

/-- A field of a width is present exactly with the integers that its width can hold. -/
theorem decode_eq_some_iff {ω : Type} {low high : ℤ} (decode : ℤ → ω) (encode : ω → ℤ)
    (hencode : ∀ z, low ≤ z → z ≤ high → encode (decode z) = z)
    (hdecode : ∀ w, decode (encode w) = w) (hrange : ∀ w, low ≤ encode w ∧ encode w ≤ high)
    {w : ω} :
    (do return decode (← integerIn low high (← fields.lookup name)) : Option ω) = some w
      ↔ fields.lookup name = some (.integer (encode w)) := by
  simp only [Option.bind_eq_bind, Option.bind_eq_some_iff, integerIn_eq_some_iff, Option.pure_def,
    Option.some.injEq]
  constructor
  · rintro ⟨value, hvalue, z, ⟨rfl, hlow, hhigh⟩, rfl⟩
    rw [hvalue, hencode z hlow hhigh]
  · intro h
    exact ⟨_, h, _, ⟨rfl, hrange w⟩, hdecode w⟩

theorem uint32_eq_some_iff {u : UInt32} :
    uint32 fields name = some u ↔ fields.lookup name = some (.integer u.toNat) :=
  decode_eq_some_iff (fun z => UInt32.ofNat z.toNat) (fun w => (w.toNat : ℤ))
    (fun _ hlow hhigh => uint32_of_range ⟨hlow, hhigh⟩)
    (fun w => by rw [Int.toNat_natCast, UInt32.ofNat_toNat]) uint32_range

theorem int32_eq_some_iff {w : Int32} :
    int32 fields name = some w ↔ fields.lookup name = some (.integer w.toInt) :=
  decode_eq_some_iff Int32.ofInt Int32.toInt (fun _ hlow hhigh => int32_of_range ⟨hlow, hhigh⟩)
    (fun w => Int32.ofInt_toInt w) int32_range

theorem uint8_eq_some_iff {u : UInt8} :
    uint8 fields name = some u ↔ fields.lookup name = some (.integer u.toNat) :=
  decode_eq_some_iff (fun z => UInt8.ofNat z.toNat) (fun w => (w.toNat : ℤ))
    (fun _ hlow hhigh => uint8_of_range ⟨hlow, hhigh⟩)
    (fun w => by rw [Int.toNat_natCast, UInt8.ofNat_toNat]) uint8_range

theorem uint8Or_eq_some_iff {u default : UInt8} :
    uint8Or default fields name = some u ↔ fields.lookup name = some (.integer u.toNat)
      ∨ u = default ∧ fields.lookup name = none := by
  rw [uint8Or]
  split
  case isTrue h =>
    rw [uint8_eq_some_iff, or_iff_left fun hnone => by simp [hnone.2] at h]
  case isFalse h =>
    rw [Bool.not_eq_true, Option.isSome_eq_false_iff, Option.isNone_iff_eq_none] at h
    simp [h, eq_comm]

end

/-- A field has a value: it is given so, or it is the flags, left out and zero. -/
def FieldIs (fields : Fields) (v : String × ℤ) : Prop :=
  fields.lookup v.1 = some (.integer v.2) ∨ v = ("flags", 0) ∧ fields.lookup "flags" = none

theorem report?_eq_some_iff {kind : ReportKind} {fields : Fields} {report : Report} :
    report? kind fields = some report
      ↔ report.kind = kind ∧ ∀ v ∈ report.values, FieldIs fields v := by
  cases kind with
  | position =>
      cases report with
      | position report =>
          cases report
          simp [report?, position?, Report.kind, Report.values, FieldIs, Option.bind_eq_some_iff,
            uint32_eq_some_iff, int32_eq_some_iff]
      | velocity report => simp [report?, Report.kind]
      | solution report => simp [report?, Report.kind]
  | velocity =>
      cases report with
      | velocity report =>
          cases report
          simp [report?, velocity?, Report.kind, Report.values, FieldIs, Option.bind_eq_some_iff,
            uint32_eq_some_iff, int32_eq_some_iff]
      | position report => simp [report?, Report.kind]
      | solution report => simp [report?, Report.kind]
  | solution =>
      cases report with
      | solution report =>
          obtain ⟨iTow, gpsFix, flags, numSv⟩ := report
          have hzero : flags = 0 ↔ flags.toNat = 0 := UInt8.toNat_inj.symm
          simp [report?, solution?, Report.kind, Report.values, FieldIs, Option.bind_eq_some_iff,
            uint32_eq_some_iff, uint8_eq_some_iff, uint8Or_eq_some_iff, hzero]
      | position report => simp [report?, Report.kind]
      | velocity report => simp [report?, Report.kind]

/-! Ranges. -/

/-- The values that a field can hold. -/
def fieldRange : String → ℤ × ℤ
  | "i_tow" | "h_acc" | "v_acc" | "s_acc" => (0, 2 ^ 32 - 1)
  | "gps_fix" | "flags" | "num_sv" => (0, 2 ^ 8 - 1)
  | _ => (-2 ^ 31, 2 ^ 31 - 1)

def InRange (v : String × ℤ) : Prop := (fieldRange v.1).1 ≤ v.2 ∧ v.2 ≤ (fieldRange v.1).2

instance (v : String × ℤ) : Decidable (InRange v) := inferInstanceAs (Decidable (_ ∧ _))

theorem values_inRange (report : Report) : ∀ v ∈ report.values, InRange v := by
  cases report with
  | position r =>
      simp only [Report.values, List.forall_mem_cons]
      exact ⟨uint32_range _, int32_range _, int32_range _, int32_range _, int32_range _,
        uint32_range _, uint32_range _, List.forall_mem_nil _⟩
  | velocity r =>
      simp only [Report.values, List.forall_mem_cons]
      exact ⟨uint32_range _, int32_range _, int32_range _, int32_range _, uint32_range _,
        List.forall_mem_nil _⟩
  | solution r =>
      simp only [Report.values, List.forall_mem_cons]
      exact ⟨uint32_range _, uint8_range _, uint8_range _, uint8_range _, List.forall_mem_nil _⟩

/-- Any values in range are those of a report. -/
theorem exists_report (kind : ReportKind) {f : String → ℤ}
    (h : ∀ name ∈ kind.fields, InRange (name, f name)) :
    ∃ report : Report, report.kind = kind
      ∧ report.values = kind.fields.map fun name => (name, f name) := by
  cases kind with
  | position =>
      simp only [ReportKind.fields, List.forall_mem_cons] at h
      obtain ⟨iTow, lon, lat, height, hMsl, hAcc, vAcc, -⟩ := h
      refine ⟨.position ⟨.ofNat (f "i_tow").toNat, .ofInt (f "lon"), .ofInt (f "lat"),
        .ofInt (f "height"), .ofInt (f "h_msl"), .ofNat (f "h_acc").toNat,
        .ofNat (f "v_acc").toNat⟩, rfl, ?_⟩
      simp only [Report.values, ReportKind.fields, List.map_cons, List.map_nil,
        uint32_of_range iTow, int32_of_range lon, int32_of_range lat, int32_of_range height,
        int32_of_range hMsl, uint32_of_range hAcc, uint32_of_range vAcc]
  | velocity =>
      simp only [ReportKind.fields, List.forall_mem_cons] at h
      obtain ⟨iTow, velN, velE, velD, sAcc, -⟩ := h
      refine ⟨.velocity ⟨.ofNat (f "i_tow").toNat, .ofInt (f "vel_n"), .ofInt (f "vel_e"),
        .ofInt (f "vel_d"), .ofNat (f "s_acc").toNat⟩, rfl, ?_⟩
      simp only [Report.values, ReportKind.fields, List.map_cons, List.map_nil,
        uint32_of_range iTow, int32_of_range velN, int32_of_range velE, int32_of_range velD,
        uint32_of_range sAcc]
  | solution =>
      simp only [ReportKind.fields, List.forall_mem_cons] at h
      obtain ⟨iTow, gpsFix, flags, numSv, -⟩ := h
      refine ⟨.solution ⟨.ofNat (f "i_tow").toNat, .ofNat (f "gps_fix").toNat,
        .ofNat (f "flags").toNat, .ofNat (f "num_sv").toNat⟩, rfl, ?_⟩
      simp only [Report.values, ReportKind.fields, List.map_cons, List.map_nil,
        uint32_of_range iTow, uint8_of_range gpsFix, uint8_of_range flags, uint8_of_range numSv]

theorem values_names (report : Report) : report.values.map Prod.fst = report.kind.fields := by
  cases report <;> rfl

theorem fieldRange_within (name : String) :
    -2 ^ 63 ≤ (fieldRange name).1 ∧ (fieldRange name).2 < 2 ^ 64 := by
  unfold fieldRange
  split <;> decide

end Recording
end GnssFusion
