import LintGate.Main
import LintGate.Host.Snapshot
import LintGate.Host.Start
import LintGate.Proofs.Report.Native
import LintGate.Proofs.Report.Document
import LintGate.Proofs.Run.Paths
import LintGate.Proofs.Run.Output
import LintGate.Proofs.Program.Exit
import LintGate.Proofs.Ruleset.Document
import LintGate.Proofs.Engine.Outcome
import LintGate.Proofs.Program.Presentation
import LintGate.Proofs.Program.Verdict
import LintGate.Proofs.Program.ReadOnly
import LintGate.Proofs.Run.Streams
import LintGate.Proofs.Report.Coloring
import LintGate.Proofs.Program.Colors
import LintGate.Proofs.CommandLine
import LintGate.Proofs.Settings.Sources
import LintGate.Proofs.Report.Stylish
import LintGate.Proofs.Json.Extent
import LintGate.Proofs.Report.Extent
import LintGate.Proofs.Text.Lossy
import LintGate.Proofs.Json.Octets
import LintGate.Proofs.Report.Octets
import LintGate.Proofs.Program.Corruption
import LintGate.Proofs.Json.Lexing
import LintGate.Proofs.Json.Soundness
import LintGate.Proofs.Report.Severity
import LintGate.Proofs.Settings.Precedence
import LintGate.Proofs.Settings.Refusal
import LintGate.Proofs.Program.Resolution
import LintGate.Proofs.Engine.Arguments
import LintGate.Proofs.Run.Strictness
import LintGate.Proofs.Report.Unix
import LintGate.Proofs.Report.Alignment
import LintGate.Proofs.Report.Listing
import LintGate.Proofs.Path.Displayed
import LintGate.Proofs.Report.Naming
import LintGate.Proofs.Report.Totals
import LintGate.Proofs.Report.Trailer
import LintGate.Proofs.Report.Naming
import LintGate.Proofs.Report.Trailer
import LintGate.Proofs.Report.Totals
