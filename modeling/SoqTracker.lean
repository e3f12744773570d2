import SoqTracker.Runs
import SoqTracker.Delimited
import SoqTracker.LineAssembler
import SoqTracker.ExtendedNumber
import SoqTracker.Utf8
import SoqTracker.Decimal
import SoqTracker.DecimalText
import SoqTracker.Json
import SoqTracker.JsonScan
import SoqTracker.Controller
import SoqTracker.Polling
import SoqTracker.TrackerLoop
import SoqTracker.LockHold
import SoqTracker.SteeringCommands
import SoqTracker.JsonRoundTrip
import SoqTracker.InputTotality
import SoqTracker.HeadingReports
import SoqTracker.Firmware
import SoqTracker.SerialReader
import SoqTracker.CommandLink
import SoqTracker.ServoSafety
import SoqTracker.HeardLines
import SoqTracker.ImuFreshness
import SoqTracker.HeadingRange
import SoqTracker.JsonSound
import SoqTracker.TelemetryBridge
import SoqTracker.DatagramEffects
import SoqTracker.PacketReading
import SoqTracker.TelemetryLink
import SoqTracker.Blocks
import SoqTracker.AudioCapture
import SoqTracker.MeasureRms
import SoqTracker.Averages
import SoqTracker.HistoryPanel
import SoqTracker.AngleRange
import SoqTracker.PrunedHistory
import SoqTracker.DisplayArithmetic
import SoqTracker.AudioDot
import SoqTracker.ScreenHeading
import SoqTracker.SmoothedError
import SoqTracker.CentredLock
import SoqTracker.WellSizedLines
import SoqTracker.ReadBoundaries
import SoqTracker.Utf8Boundaries
import SoqTracker.DiscreteFourier
import SoqTracker.GccPhat
import SoqTracker.HeadingCircle
import SoqTracker.ScreenArc
import SoqTracker.Buckets
import SoqTracker.HistoryBins
import SoqTracker.HistoryTrack
import SoqTracker.FirmwareTiming
import SoqTracker.SilenceHold
import SoqTracker.SwappedMicrophones
import SoqTracker.Latches
import SoqTracker.KinectAudio
import SoqTracker.OutgoingAudio
import SoqTracker.IsoTransfers
import SoqTracker.CaptureProgram
import SoqTracker.AudioLink
import SoqTracker.Deliveries
import SoqTracker.FirmwareUpload
import SoqTracker.Announcements
import SoqTracker.DashboardRuns
import SoqTracker.DisplayRanges
import SoqTracker.HeroOrbit
import SoqTracker.Components
import SoqTracker.ClosedLoop
import SoqTracker.LoopSteering
import SoqTracker.LoopReports
import SoqTracker.DashboardMirror
import SoqTracker.LoopDisplay
import SoqTracker.SteadySource
import SoqTracker.Ledger
import SoqTracker.SubdeviceOpening
import SoqTracker.OpeningBooks
import SoqTracker.OpeningSteps
import SoqTracker.OpeningAccount
import SoqTracker.SiblingChoice
