import CommonSubgraph.OrderedSet.Lemmas
import CommonSubgraph.Graph.Cycle
import CommonSubgraph.Graph.Component
import CommonSubgraph.Graph.Induced
import CommonSubgraph.Graph.EdgeList
import CommonSubgraph.Isomorphism
import CommonSubgraph.Cancellation
import CommonSubgraph.Trace
import CommonSubgraph.Main
import CommonSubgraph.Proofs.Solver.Soundness
import CommonSubgraph.Proofs.Solver.Completeness
import CommonSubgraph.Proofs.Solver.Levels
import CommonSubgraph.Proofs.Solver.History
import CommonSubgraph.Proofs.Solver.EarlyExit
import CommonSubgraph.Proofs.Solver.ArenaLimit
import CommonSubgraph.Proofs.Solver.Maximum
import CommonSubgraph.Proofs.Solver.FirstFound
import CommonSubgraph.Proofs.OrderedSet.Edits
import CommonSubgraph.Proofs.Graph.ErasureEffect
import CommonSubgraph.Proofs.Graph.Values
import CommonSubgraph.Proofs.Graph.History
import CommonSubgraph.Proofs.Graph.Acyclic
import CommonSubgraph.Proofs.Graph.CyclesBroken
import CommonSubgraph.Proofs.Graph.Components
import CommonSubgraph.Proofs.Graph.EdgeListGrammar
import CommonSubgraph.Proofs.Graph.NumberedEnds
import CommonSubgraph.Proofs.Graph.InducedSubgraph
import CommonSubgraph.Proofs.Graph.CopyOrder
import CommonSubgraph.Proofs.CandidateMap.Nested
import CommonSubgraph.Proofs.Solver.Outcomes
import CommonSubgraph.Proofs.Solver.Overheard
import CommonSubgraph.Proofs.Solver.StepBudget
import CommonSubgraph.Proofs.Solver.Cancelled
import CommonSubgraph.Proofs.Solver.Promises
import CommonSubgraph.Proofs.Solver.EdgeNumbering
import CommonSubgraph.Proofs.Solver.ArenaUse
import CommonSubgraph.Proofs.CommandLine.Limit
import CommonSubgraph.Proofs.CommandLine.Presets
import CommonSubgraph.Proofs.Solver.Moments
import CommonSubgraph.Proofs.Solver.Released
