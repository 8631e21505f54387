import GnssFusion.Log
import GnssFusion.Time

/-!
The stamp of a report: reports of one epoch describe the same instant, so a report
takes over the stamp of the sibling stream's last report when their epoch counters
agree, and the clock's reading otherwise.
-/

namespace GnssFusion

/-- Stamp of a report with epoch `iTow`, read at `now`, beside the epoch and stamp
of the sibling's last report. -/
def correlate (iTow : UInt32) (sibling : Option (UInt32 × Timestamp)) (now : Timestamp) :
    Logged Timestamp :=
  match sibling with
  | some (epoch, stamp) =>
      if epoch = iTow then do
        Logged.emit (.stampReused iTow)
        return stamp
      else return now
  | none => return now

end GnssFusion
