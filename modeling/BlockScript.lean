import BlockScript.Bench.Session
import BlockScript.Bench.Stage
import BlockScript.Main
import BlockScript.Proofs.Block.Children
import BlockScript.Proofs.Block.Observation
import BlockScript.Proofs.Block.LeafCalls
import BlockScript.Proofs.Block.Lifecycle
import BlockScript.Proofs.Block.Upholds
import BlockScript.Proofs.Runner.Visits
import BlockScript.Proofs.Scene.Emitted
import BlockScript.Proofs.Simulation.Infallible
import BlockScript.Proofs.Scene.References
import BlockScript.Proofs.Scene.Resolution
import BlockScript.Proofs.Block.Lockstep
import BlockScript.Proofs.Block.Renewal
import BlockScript.Proofs.Block.Quiet
import BlockScript.Proofs.Simulation.Opening
import BlockScript.Proofs.Simulation.Loading
import BlockScript.Proofs.Simulation.Confinement
import BlockScript.Proofs.Simulation.Independence
import BlockScript.Proofs.Block.Line
import BlockScript.Proofs.Runner.Tenure
import BlockScript.Proofs.Runner.Schedule
import BlockScript.Proofs.Block.Owner
import BlockScript.Proofs.Block.Parts
import BlockScript.Proofs.Block.Nesting
import BlockScript.Proofs.Block.Blank
import BlockScript.Proofs.Block.Course
import BlockScript.Proofs.Block.Unrolling
import BlockScript.Proofs.Block.Tandem
import BlockScript.Proofs.Block.Delay
import BlockScript.Proofs.Runner.Requests
import BlockScript.Proofs.Runner.History
import BlockScript.Proofs.Runner.Registry
import BlockScript.Proofs.Runner.Leaving
import BlockScript.Proofs.Simulation.Splitting
import BlockScript.Proofs.Simulation.Bookkeeping
import BlockScript.Proofs.Block.Mirror
import BlockScript.Proofs.Context.Operations
import BlockScript.Proofs.Context.Recorders
import BlockScript.Proofs.Context.Division
import BlockScript.Proofs.Context.Independence
import BlockScript.Proofs.Context.Firings
import BlockScript.Proofs.Context.Sketch
import BlockScript.Proofs.Context.Estate
import BlockScript.Proofs.Context.Ledger
import BlockScript.Proofs.Context.Attendance
import BlockScript.Proofs.Context.Deltas
import BlockScript.Proofs.Block.Polling
import BlockScript.Proofs.Block.Succession
import BlockScript.Proofs.Block.ChildOrder
import BlockScript.Proofs.Block.Opposite
import BlockScript.Proofs.Simulation.Variables
import BlockScript.Proofs.Double.Whole
import BlockScript.Proofs.Scene.Encoding
import BlockScript.Proofs.Scene.RoundTrip
import BlockScript.Proofs.Text.Lines
import BlockScript.Proofs.Simulation.Playing
import BlockScript.Proofs.Simulation.Transcript
import BlockScript.Proofs.Scenario.Judging
import BlockScript.Proofs.Scenario.OwnTranscript
import BlockScript.Proofs.CommandLine.Closing
import BlockScript.Proofs.CommandLine.Agreement
import BlockScript.Proofs.Scene.UnknownKeys
import BlockScript.Proofs.Value.Laws
import BlockScript.Proofs.Decimal.Reading
import BlockScript.Proofs.Decimal.Rounding
import BlockScript.Proofs.Value.Equality
import BlockScript.Proofs.Table
import BlockScript.Proofs.Scenario.Discovery
import BlockScript.Proofs.Scenario.Selection
import BlockScript.Proofs.Scenario.Coverage
