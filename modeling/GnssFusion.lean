import GnssFusion.Binary64.Basic
import GnssFusion.Binary64.Rounding
import GnssFusion.Binary64.Arithmetic
import GnssFusion.Binary64.Integer
import GnssFusion.Digits
import GnssFusion.Decimal.Basic
import GnssFusion.Decimal.Numeral
import GnssFusion.Decimal.Shortest
import GnssFusion.Decimal.Layout
import GnssFusion.Units
import GnssFusion.Time
import GnssFusion.Report
import GnssFusion.Scan
import GnssFusion.Pattern.CharSet
import GnssFusion.Pattern.Basic
import GnssFusion.Pattern.Reader
import GnssFusion.Log
import GnssFusion.Log.Filter
import GnssFusion.Diagnostic
import GnssFusion.SolutionTracker
import GnssFusion.Correlation
import GnssFusion.RateMonitor
import GnssFusion.Fusion.SquareMatrix
import GnssFusion.Fusion.Output
import GnssFusion.Fusion.Engine
import GnssFusion.Fusion.Shared
import GnssFusion.Toml.Document
import GnssFusion.Settings.Receiver
import GnssFusion.Replay.Recording
import GnssFusion.Replay.Table
import GnssFusion.Replay.Run
import GnssFusion.CommandLine.Options
import GnssFusion.CommandLine.Program
import GnssFusion.CommandLine.Files
import GnssFusion.Main
import GnssFusion.Proofs.Fusion.Session
import GnssFusion.Proofs.Fusion.Pairing
import GnssFusion.Proofs.Fusion.EpochBlocks
import GnssFusion.Proofs.Fusion.StreamOrder
import GnssFusion.Proofs.Fusion.Observation
import GnssFusion.Proofs.Replay.Feed
import GnssFusion.Proofs.Replay.Timeline
import GnssFusion.Proofs.Settings.Resolution
import GnssFusion.Proofs.RateMonitor.ProgrammedRate
import GnssFusion.Proofs.Replay.Composition
import GnssFusion.Proofs.Binary64.Sign
import GnssFusion.Proofs.Replay.Republication
import GnssFusion.Proofs.Settings.Nesting
import GnssFusion.RateMonitor.Shared
import GnssFusion.Proofs.RateMonitor.Readings
import GnssFusion.Proofs.Fusion.Covariance
import GnssFusion.Proofs.Binary64.Bounds
import GnssFusion.Proofs.Fusion.Ticks
import GnssFusion.Proofs.Decimal.Nearest
import GnssFusion.Proofs.Decimal.ReadBack
import GnssFusion.Proofs.Replay.TableReading
import GnssFusion.Proofs.Json.Document
import GnssFusion.Proofs.Json.Reading
import GnssFusion.Proofs.Json.Values
import GnssFusion.Proofs.Replay.RecordingReading
import GnssFusion.Proofs.Replay.Decoding
import GnssFusion.Proofs.Json.Range
import GnssFusion.Proofs.Json.Accuracy
import GnssFusion.Proofs.Replay.RecordingText
import GnssFusion.Proofs.Settings.Answers
import GnssFusion.Proofs.Settings.Offences
import GnssFusion.Proofs.Settings.Toggles
import GnssFusion.Proofs.Settings.Subgroups
import GnssFusion.Proofs.CommandLine.Files
import GnssFusion.Proofs.CommandLine.Outcome
import GnssFusion.Proofs.Fusion.Transitions
import GnssFusion.Proofs.Binary64.Order
import GnssFusion.Proofs.Binary64.NearestInteger
import GnssFusion.Proofs.RateMonitor.Decay
import GnssFusion.Proofs.RateMonitor.Jitter
import GnssFusion.Proofs.Duration.Conversion
import GnssFusion.Proofs.Replay.ReceiveTimes
import GnssFusion.Proofs.Settings.MeasurementPeriod
import GnssFusion.Proofs.Units.RawValues
