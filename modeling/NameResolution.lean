import NameResolution.Cancellation
import NameResolution.EditDistance
import NameResolution.Interner
import NameResolution.Lookup.Access
import NameResolution.Lookup.Diagnostics
import NameResolution.Lookup.Error
import NameResolution.Lookup.Options
import NameResolution.Lookup.Request
import NameResolution.Lookup.Result
import NameResolution.Lookup.Suggestion
import NameResolution.Lookup.Viability
import NameResolution.OrderedSet
import NameResolution.PositionMap
import NameResolution.Proofs.Chain.Completion
import NameResolution.Proofs.Chain.Diagnosing
import NameResolution.Proofs.Chain.Levels
import NameResolution.Proofs.Chain.Shadowing
import NameResolution.Proofs.Chain.Totality
import NameResolution.Proofs.Diagnostics.Appending
import NameResolution.Proofs.Diagnostics.CycleReports
import NameResolution.Proofs.Diagnostics.ProblemReports
import NameResolution.Proofs.FirstOccurrences
import NameResolution.Proofs.Hierarchy.GraphSearch
import NameResolution.Proofs.Hierarchy.Outcome
import NameResolution.Proofs.Hierarchy.Runs
import NameResolution.Proofs.Inheritance.Cycles
import NameResolution.Proofs.Inheritance.Exploration
import NameResolution.Proofs.Inheritance.Walk
import NameResolution.Proofs.Results.Collecting
import NameResolution.Proofs.Results.Consistency
import NameResolution.Proofs.Results.Reasons
import NameResolution.Proofs.Tables.Building
import NameResolution.Proofs.Tables.Members
import NameResolution.Resolver
import NameResolution.Scenario.Basic
import NameResolution.Scenario.Declare
import NameResolution.Scenario.Fixture
import NameResolution.Scenario.Path
import NameResolution.Scope.BaseStack
import NameResolution.Scope.Basic
import NameResolution.Scope.Hierarchy
import NameResolution.Scope.Lookup
import NameResolution.Scope.Names
import NameResolution.Scope.Search
import NameResolution.Span
import NameResolution.Symbol.Basic
import NameResolution.Symbol.Containment
import NameResolution.Symbol.Declaration
import NameResolution.Symbol.Inheritance
import NameResolution.Symbol.NameTable
import NameResolution.Symbol.Table
import NameResolution.Symbol.Vocabulary
import NameResolution.Proofs.Chain.Asking
import NameResolution.Proofs.Tables.Outward
import NameResolution.Proofs.Access.Inherited
import NameResolution.Proofs.Tables.Naming
import NameResolution.Proofs.Chain.Entries
import NameResolution.Proofs.Chain.UnknownNames
import NameResolution.Proofs.Results.Histories
import NameResolution.Proofs.Tables.Contents
import NameResolution.Proofs.Chain.Gates
import NameResolution.Proofs.Tables.Agreement
import NameResolution.Proofs.Chain.Unrelated
import NameResolution.Proofs.Results.Merging
import NameResolution.Proofs.Scopes.OwnCandidates
import NameResolution.Proofs.Access.Rules
import NameResolution.Proofs.Access.Deepening
import NameResolution.Proofs.Access.Requirements
import NameResolution.Proofs.Inheritance.Derivation
import NameResolution.Proofs.Suggestions
import NameResolution.Proofs.Positions
import NameResolution.Proofs.EditDistance
import NameResolution.Proofs.EditDistance.TwoRows
import NameResolution.Proofs.Scenario.Paths
import NameResolution.Proofs.Scenario.Outline
import NameResolution.Proofs.Scenario.Declaring
import NameResolution.Proofs.Scenario.Bases
import NameResolution.Proofs.Scenario.QualifiedNames
import NameResolution.Proofs.Scenario.Acceptance
import NameResolution.Proofs.Tables.Nesting
import NameResolution.Proofs.Access.Runs
import NameResolution.Proofs.Chain.Runs
