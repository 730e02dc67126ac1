import Acausal.Expr.Value
import Acausal.Session.Numeric
import Acausal.Proofs.Expressions
import Acausal.Proofs.Success
import Acausal.Proofs.StackCode
import Acausal.Proofs.Names
import Acausal.Proofs.DefinitionOrder
import Acausal.Proofs.ParameterValues
import Acausal.Proofs.Orientation
import Acausal.Proofs.CompiledModels
import Acausal.Proofs.EquationsHold
import Acausal.Proofs.Acceptance
import Acausal.Proofs.ClassNames
import Acausal.Proofs.Resolution
import Acausal.Proofs.InstanceInvariant
import Acausal.Proofs.ClosedModels
import Acausal.Proofs.ExpressionGrammar
import Acausal.Proofs.DeclarationGrammar
import Acausal.Proofs.Lexemes
import Acausal.Proofs.ParsedExpressions
import Acausal.Proofs.ParsedClasses
import Acausal.Proofs.LastingReadings
import Acausal.Proofs.ClosedInstances
import Acausal.Proofs.Counts
import Acausal.Proofs.Lexing
import Acausal.Proofs.Regrouping
import Acausal.Proofs.NumberTexts
import Acausal.Proofs.PrintedTokens
import Acausal.Proofs.PrintedGroups
import Acausal.Proofs.ReadBack
import Acausal.Proofs.JoinedTexts
import Acausal.Proofs.LargerPrograms
import Acausal.Proofs.MergedLibraries
import Acausal.Proofs.ArrayEquations
import Acausal.Proofs.Actions
import Acausal.Proofs.SessionSteps
import Acausal.Proofs.FailedOperations
import Acausal.Proofs.SessionHistory
import Acausal.Proofs.NumericSessions
import Acausal.Proofs.Reruns
import Acausal.Proofs.FrontendInvariants
import Acausal.Proofs.StandardEditions
import Acausal.Proofs.LibraryShapes
import Acausal.Proofs.Trajectories
import Acausal.Proofs.RepeatedExpansion
import Acausal.Proofs.CompilationErrors
import Acausal.Proofs.ExpectedErrors
import Acausal.Proofs.EquationOrder
import Acausal.Proofs.PairedActions
import Acausal.Proofs.ExpansionTime
import Acausal.Proofs.LayoutSteps
import Acausal.Proofs.UnexpandedInstances
import Acausal.Proofs.ClassCycles
import Acausal.Proofs.ResolvedReferences
import Acausal.Proofs.ConstantChains
import Acausal.Proofs.ModifiedDeclarations
import Acausal.Proofs.StemmedModels
import Acausal.Proofs.WrappedInstances
import Acausal.Proofs.GatheredPrograms
import Acausal.Proofs.DiagnosticFlags
import Acausal.Proofs.TwinSessions
import Acausal.Proofs.RepeatedComponents
import Acausal.Proofs.ParameterOrder
import Acausal.Proofs.DualValues
import Acausal.Proofs.SpecialDoubles
import Acausal.Proofs.UnfoldedCode
import Acausal.Proofs.UnchangedSlopes
import Acausal.Proofs.NewtonIteration
import Acausal.Proofs.AbandonedSteps
import Acausal.Proofs.SubstitutedDefinitions
import Acausal.Proofs.ExactJacobians
import Acausal.Proofs.ForgottenScratch
import Acausal.Proofs.LinearFlows
import Acausal.Proofs.StiffDecay
import Acausal.Proofs.OrderedDoubles
import Acausal.Proofs.AcceptedCorrections
import Acausal.Proofs.Rounding
import Acausal.Proofs.RoundedMantissas
import Acausal.Proofs.RoundedDoubles
import Acausal.Proofs.GridMoments
import Acausal.Proofs.SaneTrajectories
import Acausal.Proofs.AcceptedDerivations
import Acausal.Proofs.ArrayShapes
import Acausal.Proofs.Elimination
import Acausal.Proofs.LinearImplicitSteps
import Acausal.Proofs.StabilityPolynomials
import Acausal.Proofs.SlotAccesses
import Acausal.Proofs.ReadingProgress
import Acausal.Proofs.LexemePositions
import Acausal.Proofs.DroppedAttributes
import Acausal.Proofs.InheritedNames
