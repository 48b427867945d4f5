import LogicNet.Equivalence
import LogicNet.Network.Copy
import LogicNet.Network.Scratch
import LogicNet.Proofs.Edit
import LogicNet.Proofs.FunctionCache
import LogicNet.Proofs.GateFunction
import LogicNet.View.Audit
import LogicNet.View.Make
import LogicNet.Proofs.Graph
import LogicNet.Proofs.Worklist
import LogicNet.Proofs.Invariants
import LogicNet.Proofs.HashTable
import LogicNet.Proofs.Release
import LogicNet.Proofs.Redirection
import LogicNet.Proofs.Replacements
import LogicNet.Proofs.Cascade
import LogicNet.Proofs.Dependence
import LogicNet.Proofs.Substitution
import LogicNet.Proofs.SubstitutionValues
import LogicNet.Proofs.Growth
import LogicNet.Proofs.Representation
import LogicNet.Proofs.Creation
import LogicNet.Proofs.Gates
import LogicNet.Proofs.Calls
import LogicNet.Proofs.Workspaces
import LogicNet.Proofs.Sharing
import LogicNet.Proofs.Primitives
import LogicNet.Proofs.Retention
import LogicNet.Proofs.Reordering
import LogicNet.Proofs.Cycles
import LogicNet.Proofs.FanoutCounts
import LogicNet.Proofs.SubstitutionMeaning
import LogicNet.Proofs.Polarities
import LogicNet.Proofs.ComplementedEdges
import LogicNet.Proofs.InverterPass
import LogicNet.Proofs.InverterRounds
import LogicNet.Proofs.InverterOptimization
import LogicNet.Proofs.InverterConvergence
import LogicNet.Proofs.Postorder
import LogicNet.Proofs.Simulation
import LogicNet.Proofs.Recipes
import LogicNet.Proofs.GateClauses
import LogicNet.Proofs.Sinks
import LogicNet.Proofs.Encoding
import LogicNet.Proofs.HeldViews
import LogicNet.Proofs.Miter
import LogicNet.Proofs.EquivalenceChecking
import LogicNet.Proofs.Lanes
import LogicNet.Proofs.LaneSimulation
import LogicNet.Proofs.Identities
import LogicNet.Proofs.Conversations
import LogicNet.Proofs.IndexedViews
import LogicNet.Proofs.Covers
import LogicNet.Proofs.DontCareShape
import LogicNet.Proofs.CascadeSteps
import LogicNet.Proofs.Termination
import LogicNet.Proofs.SubstitutionFrame
import LogicNet.Proofs.GateInversion
import LogicNet.Proofs.CoverFunctions
import LogicNet.Proofs.DepthFirst
import LogicNet.Proofs.LinesAndFields
import LogicNet.Proofs.CubeLists
import LogicNet.Proofs.HeldCubeLists
import LogicNet.Proofs.ExclusionClauses
import LogicNet.Proofs.Refusals
import LogicNet.Proofs.Interning
import LogicNet.Proofs.InverterResumption
import LogicNet.Proofs.GateEvaluation
import LogicNet.Proofs.Copies
import LogicNet.Proofs.Depth
import LogicNet.Proofs.Symmetry
import LogicNet.Proofs.Canonicalization
import LogicNet.Proofs.InverterTrials
import LogicNet.Proofs.TableClauses
