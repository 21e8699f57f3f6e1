import StrategyDesk.Arithmetic
import StrategyDesk.Backtest.Request
import StrategyDesk.Backtest.Result
import StrategyDesk.Backtest.Simulation
import StrategyDesk.Calendar.Date
import StrategyDesk.Calendar.Instant
import StrategyDesk.Calendar.Reader
import StrategyDesk.Calendar.Window
import StrategyDesk.Candle
import StrategyDesk.CommandLine.Arguments
import StrategyDesk.CommandLine.Identifier
import StrategyDesk.CommandLine.Report
import StrategyDesk.CommandLine.Session
import StrategyDesk.Count
import StrategyDesk.Csv.Candles
import StrategyDesk.Csv.Files
import StrategyDesk.Csv.Record
import StrategyDesk.Decimal.Binary64
import StrategyDesk.Decimal.Format
import StrategyDesk.Decimal.Integer
import StrategyDesk.Decimal.Reader
import StrategyDesk.Decimal.Shortest
import StrategyDesk.Failure
import StrategyDesk.FileTree
import StrategyDesk.Indicator.Average
import StrategyDesk.Indicator.Basic
import StrategyDesk.Indicator.Counted
import StrategyDesk.Indicator.Parser
import StrategyDesk.Indicator.Readings
import StrategyDesk.Indicator.Series
import StrategyDesk.Ini.DeskSettings
import StrategyDesk.Ini.Document
import StrategyDesk.Ini.File
import StrategyDesk.Ini.Lookup
import StrategyDesk.Ini.StrategySettings
import StrategyDesk.Json.Config
import StrategyDesk.Json.Form
import StrategyDesk.Json.Printer
import StrategyDesk.Json.Reader
import StrategyDesk.Json.Strategy
import StrategyDesk.Json.Trading
import StrategyDesk.Json.Value
import StrategyDesk.Live.Pair
import StrategyDesk.Live.Schedule
import StrategyDesk.Live.Settings
import StrategyDesk.Live.Tick
import StrategyDesk.Main
import StrategyDesk.Market.Request
import StrategyDesk.ParseError
import StrategyDesk.Performance
import StrategyDesk.Position
import StrategyDesk.Rehearsal.Stage
import StrategyDesk.Rule.Basic
import StrategyDesk.Rule.Evaluation
import StrategyDesk.Rule.Parser
import StrategyDesk.Scan
import StrategyDesk.Service.Backtest
import StrategyDesk.Service.Lifecycle
import StrategyDesk.Service.Program
import StrategyDesk.Service.Store
import StrategyDesk.Signal
import StrategyDesk.Strategy.Basic
import StrategyDesk.Strategy.Config
import StrategyDesk.Strategy.Event
import StrategyDesk.Strategy.Kind
import StrategyDesk.Strategy.Status
import StrategyDesk.Text.Alphanumeric
import StrategyDesk.Text.Ascii
import StrategyDesk.Text.Blank
import StrategyDesk.Text.Bytes
import StrategyDesk.Text.Word
import StrategyDesk.Proofs.Service.Conduct
import StrategyDesk.Proofs.Service.Interleaving
import StrategyDesk.Proofs.Service.Parts
import StrategyDesk.Proofs.Service.Discipline
import StrategyDesk.Proofs.Service.History
import StrategyDesk.Proofs.Service.Publication
import StrategyDesk.Proofs.Service.Stranding
import StrategyDesk.Proofs.Service.Judgement
import StrategyDesk.Proofs.Backtest.Counting
import StrategyDesk.Proofs.Backtest.Lookahead
import StrategyDesk.Proofs.Backtest.Balance
import StrategyDesk.Proofs.Backtest.Drawdown
import StrategyDesk.Proofs.Backtest.Reasons
import StrategyDesk.Proofs.Backtest.Schedule
import StrategyDesk.Proofs.Arithmetic.Exact
import StrategyDesk.Proofs.Strategy.Release
import StrategyDesk.Proofs.Strategy.Journal
import StrategyDesk.Proofs.Strategy.Admission
import StrategyDesk.Proofs.Indicator.WarmUp
import StrategyDesk.Proofs.Indicator.Alignment
import StrategyDesk.Proofs.Indicator.Components
import StrategyDesk.Proofs.Indicator.Averages
import StrategyDesk.Proofs.Indicator.Oscillators
import StrategyDesk.Proofs.Indicator.Bounds
import StrategyDesk.Proofs.Live.Window
import StrategyDesk.Proofs.Live.Entry
import StrategyDesk.Proofs.Live.Work
import StrategyDesk.Proofs.Live.Floor
import StrategyDesk.Proofs.Live.Accounting
import StrategyDesk.Proofs.Live.Clock
import StrategyDesk.Proofs.Live.Isolation
import StrategyDesk.Proofs.Live.Snapshot
import StrategyDesk.Proofs.Live.CarryOut
import StrategyDesk.Proofs.Live.Supply
import StrategyDesk.Proofs.Text.Pieces
import StrategyDesk.Proofs.Decimal.Nearest
import StrategyDesk.Proofs.Decimal.Numeral
import StrategyDesk.Proofs.Decimal.Rounding
import StrategyDesk.Proofs.Decimal.Comparison
import StrategyDesk.Proofs.Decimal.Plain
import StrategyDesk.Proofs.Scan
import StrategyDesk.Proofs.Rule.Grammar
import StrategyDesk.Proofs.Rule.Printing
import StrategyDesk.Proofs.Indicator.Grammar
import StrategyDesk.Proofs.Indicator.Printing
import StrategyDesk.Proofs.Indicator.Acceptance
import StrategyDesk.Proofs.Strategy.Keys
import StrategyDesk.Proofs.Strategy.Staleness
import StrategyDesk.Proofs.Service.Quiet
import StrategyDesk.Proofs.Calendar.Days
import StrategyDesk.Proofs.Calendar.Rfc3339
import StrategyDesk.Proofs.Calendar.Order
import StrategyDesk.Proofs.Calendar.Progression
import StrategyDesk.Proofs.Json.Lossless
import StrategyDesk.Proofs.Json.Records
import StrategyDesk.Proofs.Json.RoundTrip
import StrategyDesk.Proofs.Csv.Order
import StrategyDesk.Proofs.Csv.Loading
import StrategyDesk.Proofs.Text.Positions
import StrategyDesk.Proofs.Faults
import StrategyDesk.Proofs.Rule.Pieces
import StrategyDesk.Proofs.Caret
import StrategyDesk.Proofs.Rule.Naming
import StrategyDesk.Proofs.Decimal.Whole
import StrategyDesk.Proofs.Ini.Desk
import StrategyDesk.Proofs.Ini.Strategy
