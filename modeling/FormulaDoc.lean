import FormulaDoc.Engine
import FormulaDoc.Formula.ArenaParser
import FormulaDoc.Document.Slot
import FormulaDoc.Proofs.Formula.Grammar
import FormulaDoc.Proofs.Formula.Unambiguous
import FormulaDoc.Proofs.Formula.Recognition
import FormulaDoc.Proofs.Formula.Lexing
import FormulaDoc.Proofs.Formula.Reading
import FormulaDoc.Proofs.Formula.Locality
import FormulaDoc.Proofs.Formula.Composition
import FormulaDoc.Proofs.Formula.Literals
import FormulaDoc.Proofs.Document.Content
import FormulaDoc.Proofs.Document.FormulaFree
import FormulaDoc.Proofs.Document.FormulaObjects
import FormulaDoc.Proofs.Number.Encoding
import FormulaDoc.Proofs.Number.Nearest
import FormulaDoc.Proofs.Number.Shortest
import FormulaDoc.Proofs.Document.JsonRoundTrip
import FormulaDoc.Proofs.Document.Reordering
import FormulaDoc.Proofs.Function.Results
import FormulaDoc.Proofs.Function.MemberOrder
import FormulaDoc.Proofs.Evaluation.Execution
import FormulaDoc.Proofs.Evaluation.Accounting
import FormulaDoc.Proofs.Evaluation.Agreement
import FormulaDoc.Proofs.Evaluation.Cycle
import FormulaDoc.Proofs.Evaluation.Order
import FormulaDoc.Proofs.Evaluation.Reference
import FormulaDoc.Proofs.Evaluation.Conservation
import FormulaDoc.Proofs.Evaluation.Meaning
import FormulaDoc.Proofs.Evaluation.Result
import FormulaDoc.Proofs.Evaluation.JsonResult
import FormulaDoc.Proofs.Evaluation.PlainDocument
import FormulaDoc.Proofs.Evaluation.LifeCycle
import FormulaDoc.Proofs.Evaluation.Causality
import FormulaDoc.Proofs.Evaluation.Termination
import FormulaDoc.Proofs.Document.Outline
import FormulaDoc.Proofs.Evaluation.Simulation
import FormulaDoc.Proofs.Evaluation.RootExpression
import FormulaDoc.Proofs.Evaluation.Noninterference
import FormulaDoc.Proofs.Evaluation.Callees
import FormulaDoc.Proofs.Evaluation.MemberOrder
import FormulaDoc.Proofs.Evaluation.FixedPath
import FormulaDoc.Proofs.Evaluation.Scoping
import FormulaDoc.Proofs.Evaluation.Navigation
import FormulaDoc.Proofs.Evaluation.Propagation
import FormulaDoc.Proofs.Evaluation.Unreadable
import FormulaDoc.Proofs.Evaluation.Fallbacks
import FormulaDoc.Proofs.Formula.Patterns
import FormulaDoc.Proofs.Formula.Tiling
import FormulaDoc.Proofs.Formula.Spacing
import FormulaDoc.Proofs.Formula.Progress
import FormulaDoc.Proofs.Formula.Following
import FormulaDoc.Proofs.Formula.Finishing
import FormulaDoc.Proofs.Formula.Expectation
import FormulaDoc.Proofs.Formula.Nesting
import FormulaDoc.Proofs.Formula.Writing
import FormulaDoc.Proofs.Evaluation.Scalars
import FormulaDoc.Proofs.Text.Division
import FormulaDoc.Proofs.Document.PathText
import FormulaDoc.Proofs.Formula.Spelling
import FormulaDoc.Proofs.Formula.Notation
import FormulaDoc.Proofs.Formula.PostOrder
import FormulaDoc.Proofs.Formula.Storing
import FormulaDoc.Proofs.Text.Lines
import FormulaDoc.Proofs.Formula.Messages
import FormulaDoc.Proofs.Function.Messages
import FormulaDoc.Proofs.Evaluation.Messages
import FormulaDoc.Proofs.Evaluation.Reporting
import FormulaDoc.Proofs.Document.Equality
import FormulaDoc.Proofs.Evaluation.Comparison
import FormulaDoc.Proofs.Text.Slug
import FormulaDoc.Proofs.Function.Extremum
import FormulaDoc.Proofs.Document.DocumentOrder
import FormulaDoc.Proofs.Document.Update
