import LinProg.Scalar.Exact
import LinProg.Expression.Formula
import LinProg.DenseMatrix.Entries
import LinProg.Solve
import LinProg.Failure.Printer
import LinProg.Model.Printer
import LinProg.Solution.Printer
import LinProg.Event.Printer
import LinProg.Script.Command
import LinProg.Proofs.ExactScalar
import LinProg.Proofs.ExactUnits
import LinProg.Proofs.Binary64Units
import LinProg.Proofs.Satisfaction
import LinProg.Proofs.Building
import LinProg.Proofs.Occurrences
import LinProg.Proofs.TableauChanges
import LinProg.Proofs.RowSpace
import LinProg.Proofs.BasisScan
import LinProg.Proofs.Ownership
import LinProg.Proofs.PivotRules
import LinProg.Proofs.Canonical
import LinProg.Proofs.RowOperations
import LinProg.Proofs.PhaseRun
import LinProg.Proofs.Columns
import LinProg.Proofs.StandardForm
import LinProg.Proofs.FirstTableau
import LinProg.Proofs.Pricing
import LinProg.Proofs.Artificials
import LinProg.Proofs.Expunge
import LinProg.Proofs.Handover
import LinProg.Proofs.PhaseTwo
import LinProg.Proofs.PhaseOne
import LinProg.Proofs.Verdicts
import LinProg.Proofs.AntiCycling
import LinProg.Proofs.Termination
import LinProg.Proofs.Course
import LinProg.Proofs.PivotCount
import LinProg.Proofs.Rank
import LinProg.Proofs.Restored
import LinProg.Proofs.Visited
import LinProg.Proofs.Equivalence
import LinProg.Proofs.Rounding
import LinProg.Proofs.Expulsion
import LinProg.Proofs.Correspondence
import LinProg.Proofs.SameChoices
import LinProg.Proofs.Tolerance
import LinProg.Proofs.Margin
import LinProg.Proofs.ClearedRows
import LinProg.Proofs.Feasibility
import LinProg.Proofs.TableauModels
import LinProg.Proofs.ObjectiveValue
import LinProg.Proofs.Answers
import LinProg.Proofs.ModelStore
import LinProg.Proofs.Formulas
import LinProg.Proofs.Shapes
import LinProg.Proofs.StoreSafety
import LinProg.Proofs.SignSymmetry
import LinProg.Proofs.Binary64Signs
import LinProg.Proofs.Constants
import LinProg.Proofs.MirrorImages
import LinProg.Proofs.MirroredSolve
import LinProg.Proofs.Allowance
import LinProg.Proofs.Layout
import LinProg.Proofs.RatioTest
import LinProg.Proofs.Binary64Overflow
import LinProg.Proofs.StoredNumbers
import LinProg.Proofs.RuleSwitch
import LinProg.Expression.Indexed
import LinProg.Proofs.IndexMap
