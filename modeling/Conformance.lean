import Conformance.Main
import Conformance.Session.Run
import Conformance.Proofs.Call.Binding
import Conformance.Proofs.Sequence.Reentrancy
import Conformance.Proofs.Sequence.Uses
import Conformance.Proofs.Text.Split
import Conformance.Proofs.Text.Bounds
import Conformance.Proofs.Text.Slice
import Conformance.Proofs.Text.Replace
import Conformance.Proofs.Text.Mirror
import Conformance.Proofs.Text.Stride
import Conformance.Proofs.Text.Concatenation
import Conformance.Proofs.Text.Repetition
import Conformance.Proofs.Text.Words
import Conformance.Proofs.Text.Finding
import Conformance.Proofs.Text.WordSlice
import Conformance.Proofs.Runner.Discovery
import Conformance.Proofs.Assignment.Unpack
import Conformance.Proofs.Call.Regrouping
import Conformance.Proofs.Call.Defaults
import Conformance.Proofs.Assignment.Scope
import Conformance.Proofs.Call.Positional
import Conformance.Proofs.Sequence.Agreement
import Conformance.Proofs.Call.Feeding
import Conformance.Proofs.Scenario.Feeding
import Conformance.Proofs.Scenario.Convert
import Conformance.Proofs.Scenario.Assignment
import Conformance.Proofs.Call.Forwarding
import Conformance.Proofs.Runner.Tally
import Conformance.Proofs.Runner.FailFast
import Conformance.Proofs.Assignment.Spacing
import Conformance.Proofs.Assignment.Grammar
import Conformance.Proofs.Value.Readable
import Conformance.Proofs.Scenario.Refusal
import Conformance.Proofs.Sequence.Consumers
import Conformance.Proofs.Runner.Rendering
import Conformance.Proofs.Runner.Reporting
import Conformance.Proofs.Cli.Gather
import Conformance.Proofs.Scenario.Outcome
import Conformance.Proofs.Scenario.RoundTrip
import Conformance.Proofs.Suite.Expectation
import Conformance.Proofs.Call.Walk
import Conformance.Proofs.Call.Faults
import Conformance.Proofs.Call.KeywordOrder
import Conformance.Proofs.Sequence.Isolation
import Conformance.Proofs.Call.Consumption
import Conformance.Proofs.Call.Joining
import Conformance.Proofs.Text.Stripping
import Conformance.Proofs.Assignment.Simultaneous
import Conformance.Proofs.Call.Declaring
import Conformance.Proofs.Scenario.Binding
import Conformance.Proofs.Suite.Acceptance
import Conformance.Proofs.Sequence.Nesting
