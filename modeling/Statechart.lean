import Statechart.OrderedMap.Lemmas
import Statechart.Json.Lemmas
import Statechart.Json.Parse
import Statechart.Json.Render
import Statechart.Implementation
import Statechart.StateNode.Kind
import Statechart.StateNode.Written
import Statechart.Fragment
import Statechart.Compilation
import Statechart.Siblings.Check
import Statechart.Options.Leading
import Statechart.Options.Derive
import Statechart.Machine.Written
import Statechart.Compile.Compiler
import Statechart.Demo.TrafficLight
import Statechart.Demo.Fetcher
import Statechart.Demo.Switchboard
import Statechart.Proofs.Policy
import Statechart.Proofs.Strict
import Statechart.Proofs.Pruned
import Statechart.Proofs.Failure
import Statechart.Proofs.Settled
import Statechart.Proofs.Routing
import Statechart.Proofs.Parallel
import Statechart.Proofs.Boundary
import Statechart.Proofs.Rearranged
import Statechart.Proofs.Reading
import Statechart.Proofs.RawStates
import Statechart.Proofs.RearrangedStates
import Statechart.Proofs.MemberOrder
import Statechart.Proofs.Findings
import Statechart.Proofs.Losses
import Statechart.Proofs.Precompiled
import Statechart.Proofs.Introspection
import Statechart.Proofs.Layers
import Statechart.Proofs.StateMembers
import Statechart.Proofs.Bindings
import Statechart.Proofs.Contributions
import Statechart.Proofs.KeyedFolds
import Statechart.Proofs.Unions
import Statechart.Proofs.Kinds
import Statechart.Proofs.Omissions
import Statechart.Proofs.Steps
