import GnssFusion.Json.Value
import GnssFusion.Report

/-!
Recordings of receiver reports and their JSON form. The recording and its entries are
read member by member, and members that are not known are passed over; a report is
read as a whole and decoded at its closing bracket, except that its type is checked at
once. Each of the three may also be an array of its fields in order.
-/

namespace GnssFusion

/-- A report with the time in seconds at which it was received. -/
structure Entry where
  time : Binary64
  report : Report
  deriving DecidableEq

structure Recording where
  name : String
  entries : List Entry
  deriving DecidableEq

namespace Recording

open Json (Fault Read Value)

inductive ReportKind
  | position
  | velocity
  | solution
  deriving DecidableEq, Repr

def ReportKind.ofName? : String → Option ReportKind
  | "position" => some .position
  | "velocity" => some .velocity
  | "solution" => some .solution
  | _ => none

def ReportKind.fields : ReportKind → List String
  | .position => ["i_tow", "lon", "lat", "height", "h_msl", "h_acc", "v_acc"]
  | .velocity => ["i_tow", "vel_n", "vel_e", "vel_d", "s_acc"]
  | .solution => ["i_tow", "gps_fix", "flags", "num_sv"]

/-! Decoding the fields of a report. -/

abbrev Fields := List (String × Value)

def integerIn (low high : Int) : Value → Option Int
  | .integer z => if low ≤ z ∧ z ≤ high then some z else none
  | _ => none

def uint32 (fields : Fields) (name : String) : Option UInt32 := do
  let z ← integerIn 0 0xffffffff (← fields.lookup name)
  return UInt32.ofNat z.toNat

def int32 (fields : Fields) (name : String) : Option Int32 := do
  let z ← integerIn (-0x80000000) 0x7fffffff (← fields.lookup name)
  return Int32.ofInt z

def uint8 (fields : Fields) (name : String) : Option UInt8 := do
  let z ← integerIn 0 0xff (← fields.lookup name)
  return UInt8.ofNat z.toNat

def uint8Or (default : UInt8) (fields : Fields) (name : String) : Option UInt8 :=
  if (fields.lookup name).isSome then uint8 fields name else some default

def position? (fields : Fields) : Option PositionReport := do
  return {
    iTow := ← uint32 fields "i_tow"
    lon := ← int32 fields "lon"
    lat := ← int32 fields "lat"
    height := ← int32 fields "height"
    hMsl := ← int32 fields "h_msl"
    hAcc := ← uint32 fields "h_acc"
    vAcc := ← uint32 fields "v_acc" }

def velocity? (fields : Fields) : Option VelocityReport := do
  return {
    iTow := ← uint32 fields "i_tow"
    velN := ← int32 fields "vel_n"
    velE := ← int32 fields "vel_e"
    velD := ← int32 fields "vel_d"
    sAcc := ← uint32 fields "s_acc" }

def solution? (fields : Fields) : Option SolutionRecord := do
  return {
    iTow := ← uint32 fields "i_tow"
    gpsFix := ← uint8 fields "gps_fix"
    flags := ← uint8Or 0 fields "flags"
    numSv := ← uint8 fields "num_sv" }

def report? (kind : ReportKind) (fields : Fields) : Option Report :=
  match kind with
  | .position => Report.position <$> position? fields
  | .velocity => Report.velocity <$> velocity? fields
  | .solution => Report.solution <$> solution? fields

/-- Whether no known field is given twice. -/
def unrepeated (known : List String) (fields : Fields) : Bool :=
  known.all fun name => (fields.filter (·.1 == name)).length ≤ 1

/-- The fields of an array of values in order, of which there are not too many. -/
def positional? (known : List String) (items : List Value) : Option Fields :=
  if items.length ≤ known.length then some (known.zip items) else none

/-! Reading. -/

def require {α : Type} : Option α → Read α
  | some a => return a
  | none => throw .mismatch

def readKind : Read ReportKind := do require (ReportKind.ofName? (← Read.text))

/-- One member of a report: its type, or a field with any value. -/
def reportMember (levels : Nat) (before : Option ReportKind × Fields) (key : String) :
    Read (Option ReportKind × Fields) := do
  let (kind, fields) := before
  if key = "type" then
    if kind.isSome then throw .mismatch
    Read.colon
    return (some (← readKind), fields)
  else
    Read.colon
    return (kind, fields ++ [(key, ← Read.value levels)])

/-- A report, in whose fields the given number of brackets may be open at once. -/
def readReport (levels : Nat) : Read Report := do
  match ← Read.token? with
  | some '\x7b' => do
      let (kind, fields) ← Read.members Read.quoted (reportMember levels) (none, [])
      let kind ← require kind
      if unrepeated kind.fields fields then require (report? kind fields) else throw .mismatch
  | some '[' => do
      Read.drop
      if !(← Read.nextElement true) then throw .mismatch
      let kind ← readKind
      let items ← Read.elementsWithin (Read.value levels) (← get) false
      Read.drop
      let fields ← require (positional? kind.fields items)
      require (report? kind fields)
  | _ => Read.unexpected

/-- Reads the value of a member that may not be given twice. -/
def once {α : Type} (before : Option α) (read : Read α) : Read (Option α) := do
  if before.isSome then throw .mismatch
  Read.colon
  some <$> read

/-- Brackets that may be open at once inside the fields of a report. -/
def reportLevels : Nat := Read.nestingLimit - 4

def entryMember (before : Option Binary64 × Option Report) (key : String) :
    Read (Option Binary64 × Option Report) := do
  match key with
  | "t" => return (← once before.1 Read.float, before.2)
  | "report" => return (before.1, ← once before.2 (readReport reportLevels))
  | _ => do
      Read.colon
      Read.skip
      return before

def readEntry : Read Entry := do
  match ← Read.token? with
  | some '\x7b' => do
      let (time, report) ← Read.members Read.quoted entryMember (none, none)
      return ⟨← require time, ← require report⟩
  | some '[' => do
      Read.drop
      if !(← Read.nextElement true) then throw .mismatch
      let time ← Read.float
      if !(← Read.nextElement false) then throw .mismatch
      let report ← readReport reportLevels
      Read.endArray
      return ⟨time, report⟩
  | _ => Read.unexpected

def readEntries : Read (List Entry) := do
  if (← Read.token?) = some '[' then Read.elements readEntry else Read.unexpected

def recordingMember (before : Option String × Option (List Entry)) (key : String) :
    Read (Option String × Option (List Entry)) := do
  match key with
  | "name" => return (← once before.1 Read.text, before.2)
  | "entries" => return (before.1, ← once before.2 readEntries)
  | _ => do
      Read.colon
      Read.skip
      return before

/-- A recording; one without a name has the empty name. -/
def read : Read Recording := do
  match ← Read.token? with
  | some '\x7b' => do
      let (name, entries) ← Read.members Read.quoted recordingMember (none, none)
      return ⟨name.getD "", ← require entries⟩
  | some '[' => do
      Read.drop
      let named ← Read.nextElement true
      let name ← if named then Read.text else pure ""
      if !(← Read.nextElement !named) then throw .mismatch
      let entries ← readEntries
      Read.endArray
      return ⟨name, entries⟩
  | none => throw .truncated
  | _ => Read.unexpected

def parse (text : String) : Except Fault Recording := do
  let (recording, rest) ← Recording.read.run text.toList
  let _ ← Read.finish.run rest
  return recording

end Recording
end GnssFusion
