import BatteryMonitor.Binary64.Basic
import BatteryMonitor.Binary64.Bits
import BatteryMonitor.ChargeControl
import BatteryMonitor.CommandLine.Arguments
import BatteryMonitor.CommandLine.Control
import BatteryMonitor.CommandLine.Display
import BatteryMonitor.CommandLine.Outcome
import BatteryMonitor.CommandLine.Service
import BatteryMonitor.Conditions
import BatteryMonitor.Daemon
import BatteryMonitor.Decimal.Digits
import BatteryMonitor.Decimal.Numeral
import BatteryMonitor.Decimal.Shortest
import BatteryMonitor.Decimal.Style
import BatteryMonitor.Disk.Basic
import BatteryMonitor.Disk.Path
import BatteryMonitor.Estimate
import BatteryMonitor.Extended
import BatteryMonitor.Fault
import BatteryMonitor.Health
import BatteryMonitor.Json.Escape
import BatteryMonitor.Json.Printer
import BatteryMonitor.Json.Reader
import BatteryMonitor.Main
import BatteryMonitor.Monitor
import BatteryMonitor.Process
import BatteryMonitor.Proofs.Binary64
import BatteryMonitor.Proofs.ChargeControl.Client
import BatteryMonitor.Proofs.ChargeControl.Controller
import BatteryMonitor.Proofs.CommandLine.Control
import BatteryMonitor.Proofs.CommandLine.Display
import BatteryMonitor.Proofs.CommandLine.Service
import BatteryMonitor.Proofs.Daemon.Abiding
import BatteryMonitor.Proofs.Daemon.Interval
import BatteryMonitor.Proofs.Daemon.Minding
import BatteryMonitor.Proofs.Daemon.Polling
import BatteryMonitor.Proofs.Daemon.Sources
import BatteryMonitor.Proofs.Decimal
import BatteryMonitor.Proofs.Disk
import BatteryMonitor.Proofs.Effect
import BatteryMonitor.Proofs.Estimate
import BatteryMonitor.Proofs.Frame
import BatteryMonitor.Proofs.Health
import BatteryMonitor.Proofs.Hearing
import BatteryMonitor.Proofs.Hysteresis
import BatteryMonitor.Proofs.Json.Canonical
import BatteryMonitor.Proofs.Json.Double
import BatteryMonitor.Proofs.Json.Escape
import BatteryMonitor.Proofs.Json.Integer
import BatteryMonitor.Proofs.Json.Parsed
import BatteryMonitor.Proofs.Json.Portable
import BatteryMonitor.Proofs.Json.Record
import BatteryMonitor.Proofs.Json.RoundTrip
import BatteryMonitor.Proofs.Mirror
import BatteryMonitor.Proofs.Monitor.Bench
import BatteryMonitor.Proofs.Monitor.CatchUp
import BatteryMonitor.Proofs.Monitor.Consistency
import BatteryMonitor.Proofs.Monitor.Ear
import BatteryMonitor.Proofs.Monitor.Events
import BatteryMonitor.Proofs.Monitor.Expiry
import BatteryMonitor.Proofs.Monitor.Following
import BatteryMonitor.Proofs.Monitor.Frame
import BatteryMonitor.Proofs.Monitor.Notices
import BatteryMonitor.Proofs.Monitor.Outcome
import BatteryMonitor.Proofs.Monitor.Ownership
import BatteryMonitor.Proofs.Monitor.Pass
import BatteryMonitor.Proofs.Monitor.Presence
import BatteryMonitor.Proofs.Monitor.Records
import BatteryMonitor.Proofs.Monitor.Recovery
import BatteryMonitor.Proofs.Monitor.Rest
import BatteryMonitor.Proofs.Monitor.Restart
import BatteryMonitor.Proofs.Monitor.Separation
import BatteryMonitor.Proofs.Monitor.States
import BatteryMonitor.Proofs.Monitor.Suppression
import BatteryMonitor.Proofs.Monitor.Tenure
import BatteryMonitor.Proofs.Monitor.Totality
import BatteryMonitor.Proofs.Monitor.Trust
import BatteryMonitor.Proofs.Monitor.Window
import BatteryMonitor.Proofs.Monotone
import BatteryMonitor.Proofs.Nearest
import BatteryMonitor.Proofs.Numeral
import BatteryMonitor.Proofs.Outlook
import BatteryMonitor.Proofs.Percentage
import BatteryMonitor.Proofs.PidFile
import BatteryMonitor.Proofs.Range
import BatteryMonitor.Proofs.Reading
import BatteryMonitor.Proofs.Replay
import BatteryMonitor.Proofs.Report
import BatteryMonitor.Proofs.Settings
import BatteryMonitor.Proofs.Snapshot
import BatteryMonitor.Proofs.StateFile
import BatteryMonitor.Proofs.StateText
import BatteryMonitor.Proofs.Status
import BatteryMonitor.Proofs.Steady
import BatteryMonitor.Proofs.Store
import BatteryMonitor.Proofs.Table
import BatteryMonitor.Proofs.Telemetry.Average
import BatteryMonitor.Proofs.Telemetry.Curve
import BatteryMonitor.Proofs.Telemetry.Shunt
import BatteryMonitor.Proofs.Telemetry.SnapshotFile
import BatteryMonitor.Proofs.Ties
import BatteryMonitor.Proofs.Truncation
import BatteryMonitor.Proofs.Value
import BatteryMonitor.Proofs.Vitals
import BatteryMonitor.Proofs.Watch
import BatteryMonitor.Proofs.Wear
import BatteryMonitor.Reading
import BatteryMonitor.Report
import BatteryMonitor.Rounding
import BatteryMonitor.Settings
import BatteryMonitor.Snapshot
import BatteryMonitor.Sorting.Merge
import BatteryMonitor.Sorting.Runs
import BatteryMonitor.Sorting.Search
import BatteryMonitor.Status
import BatteryMonitor.Store
import BatteryMonitor.Telemetry.Curve
import BatteryMonitor.Telemetry.Shunt
import BatteryMonitor.Telemetry.SnapshotFile
import BatteryMonitor.Telemetry.Source
import BatteryMonitor.Text.Blank
import BatteryMonitor.Text.Digit
import BatteryMonitor.Text.Printable
import BatteryMonitor.Text.Quoted
import BatteryMonitor.Timers.Agenda
import BatteryMonitor.Timers.Loop
import BatteryMonitor.Timers.Scheduler
import BatteryMonitor.Value.Arithmetic
import BatteryMonitor.Value.Basic
import BatteryMonitor.Value.Display
import BatteryMonitor.Value.Equality
import BatteryMonitor.Value.Table
import BatteryMonitor.Watch
