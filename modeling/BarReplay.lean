import BarReplay.Files.Tree
import BarReplay.Machine.Variables
import BarReplay.Main
import BarReplay.Market.Record
import BarReplay.Report.Json
import BarReplay.Rule.Json
import BarReplay.Proofs.Calendar.Formats
import BarReplay.Proofs.CommandLine.DryRun
import BarReplay.Proofs.Config.Ranges
import BarReplay.Proofs.Indicator.Convergence
import BarReplay.Proofs.Indicator.Requests
import BarReplay.Proofs.Market.Fetching
import BarReplay.Proofs.Metrics.Breakdown
import BarReplay.Proofs.Metrics.Drawdown
import BarReplay.Proofs.Metrics.Scaling
import BarReplay.Proofs.Portfolio.Atomicity
import BarReplay.Proofs.Portfolio.Costs
import BarReplay.Proofs.Portfolio.Levels
import BarReplay.Proofs.Replay.Arrival
import BarReplay.Proofs.Replay.Bystander
import BarReplay.Proofs.Replay.Limits
import BarReplay.Proofs.Replay.Regrouping
import BarReplay.Proofs.Replay.Series
import BarReplay.Proofs.Rule.Positions
import BarReplay.Proofs.Rule.PriceUnit
import BarReplay.Proofs.Rule.Progress
import BarReplay.Proofs.Rule.Windows
import BarReplay.Proofs.Yahoo.Credentials
import BarReplay.Proofs.Yahoo.Retries
import BarReplay.Proofs.Yahoo.Window
