import StructScript.Ast.Text
import StructScript.ParseTree.Text
import StructScript.Proofs.Arithmetic.Exactness
import StructScript.Proofs.Evaluation.Ancestry
import StructScript.Proofs.Evaluation.Balance
import StructScript.Proofs.Evaluation.Conformity
import StructScript.Proofs.Evaluation.FieldOrder
import StructScript.Proofs.Evaluation.Limits
import StructScript.Proofs.Evaluation.Location
import StructScript.Proofs.Evaluation.Output
import StructScript.Proofs.Evaluation.Termination
import StructScript.Proofs.Evaluation.Unmentioned
import StructScript.Proofs.Failure.Constructs
import StructScript.Proofs.Grammar.Exactness
import StructScript.Proofs.Grammar.Parentheses
import StructScript.Proofs.Layout.Invariance
import StructScript.Proofs.Naming.Functions
import StructScript.Proofs.Naming.Primitives
import StructScript.Proofs.Piecewise.Session
import StructScript.Proofs.Printing.ReadBack
import StructScript.Proofs.Reading.Resumption
import StructScript.Proofs.Reading.Shape
import StructScript.Proofs.Scanning.Blanking
import StructScript.Proofs.Spans.Program
import StructScript.Proofs.Store.Visibility
import StructScript.Session
