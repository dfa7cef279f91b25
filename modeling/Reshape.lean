import Reshape.Command.FileTree
import Reshape.Document.Describe
import Reshape.Json.Value
import Reshape.Main
import Reshape.Scalar.Convert
import Reshape.Proofs.Document.RoundTrip
import Reshape.Proofs.Template.Failures
import Reshape.Proofs.Path.Append
import Reshape.Proofs.Template.Options
import Reshape.Proofs.Template.Strict
import Reshape.Proofs.Template.Meaning
import Reshape.Proofs.Template.Rules
import Reshape.Proofs.Template.Simulation
import Reshape.Proofs.Document.Outline
import Reshape.Proofs.Document.Refinement
import Reshape.Proofs.Template.Calls
import Reshape.Proofs.Template.Depth
import Reshape.Proofs.Template.Independence
import Reshape.Proofs.Template.Acceptance
import Reshape.Proofs.Template.FirstMatch
import Reshape.Proofs.Path.Compile
import Reshape.Proofs.Document.Value
import Reshape.Proofs.Path.Key
import Reshape.Proofs.Document.Place
import Reshape.Proofs.Path.Place
import Reshape.Proofs.Template.Pattern
import Reshape.Proofs.Json.Brackets
import Reshape.Proofs.Document.SyntaxError
import Reshape.Proofs.Template.Address
import Reshape.Proofs.Path.Literal
import Reshape.Proofs.Path.Filter
import Reshape.Proofs.Path.Quoted
import Reshape.Proofs.Path.Piece
import Reshape.Proofs.Path.Order
import Reshape.Proofs.Path.Display
import Reshape.Proofs.Path.Compare
import Reshape.Proofs.Document.Copy
import Reshape.Proofs.Document.Follow
import Reshape.Proofs.Document.Pretty
import Reshape.Proofs.Scalar.Convert
import Reshape.Proofs.Path.Inert
import Reshape.Proofs.Path.Evaluation
import Reshape.Proofs.Path.Selected
import Reshape.Proofs.Command.Run
import Reshape.Proofs.Scalar.Integral
