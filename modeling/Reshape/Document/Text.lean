import Reshape.Document.Build
import Reshape.Json.Reader
import Reshape.Json.Writer
import Reshape.Text.Utf8

/-!
# Documents as text

Reading documents from JSON text, characters or bytes, and writing them.

## Main definitions

* `Document.dialect`: how numbers in a text become scalars, and how deep containers nest.
* `Document.parse`: the document that a text denotes.
* `Document.parseBytes`: the same for encoded text.
* `Document.SourceError`: why a document cannot be had from a text, from bytes or from a file.
* `Document.Node`: a node with its document.
-/

namespace Reshape

/-- Why a file cannot be read or written. -/
inductive FileError where
  | notFound
  | notADirectory
  | isADirectory
  | nameTooLong
  | zeroByte
  | other (message : String)
deriving DecidableEq, Repr

/-- The wording of a failed access to a file. -/
def FileError.message : FileError → String
  | notFound => "I/O error: No such file or directory (os error 2)"
  | notADirectory => "I/O error: Not a directory (os error 20)"
  | isADirectory => "I/O error: Is a directory (os error 21)"
  | nameTooLong => "I/O error: File name too long (os error 36)"
  | zeroByte => "I/O error: file name contained an unexpected NUL byte"
  | other m => "I/O error: " ++ m

namespace Document

/-! ## Reading -/

/-- The scalar that a number token denotes: an integer if it is written as one, and a real
otherwise. -/
def readScalar? (token : List Char) : Option Scalar :=
  if Json.isWhole token then Scalar.readInt? token
  else (Binary.readFinite? .double token).map Scalar.ofReal

/-- Documents nest containers up to 512 deep. -/
def dialect : Json.Dialect Scalar where
  limit := 512
  lenient := false
  number := readScalar?
  string := .string
  boolean := .boolean
  null := .null

/-- The document that a text denotes, given as characters. -/
def parseChars (cs : List Char) : Except (Json.Fault Location) Document :=
  match Json.read dialect cs with
  | .ok t => .ok (ofReading t)
  | .error e => .error (e.locate cs)

/-- The document that a text denotes. -/
def parse (text : String) : Except (Json.Fault Location) Document :=
  parseChars text.toList

/-- Why a document cannot be read. -/
inductive SourceError where
  | syntactic (e : Json.Fault Location)
  | encoding (e : Utf8.Fault)
  | file (e : FileError)
deriving DecidableEq, Repr

/-- The wording of a failed reading. -/
def SourceError.message : SourceError → String
  | syntactic e => e.message
  | encoding e => "UTF-8 encoding error: " ++ e.message
  | file e => e.message

/-- The document that a text denotes, with the error of any source. -/
def parseSource (text : String) : Except SourceError Document :=
  (parse text).mapError .syntactic

/-- The document that bytes denote; a byte order mark in front is skipped. -/
def parseBytes (bytes : List UInt8) : Except SourceError Document :=
  match Utf8.decode (Utf8.dropMark bytes) with
  | .ok cs => (parseChars cs).mapError .syntactic
  | .error e => .error (.encoding e)

/-! ## Writing -/

/-- The compact text of what lies below a node. -/
def nodeJson (d : Document) (id : NodeId) : String := (d.tree id).toJson

/-- A node, with the document that it belongs to. -/
structure Node where
  document : Document
  id : NodeId

/-- The compact text of what lies below a node. -/
def Node.toJson (n : Node) : String := n.document.nodeJson n.id

/-- The compact text of a document. -/
def toJson (d : Document) : String := d.toTree.toJson

/-- The text of a document with `indent` spaces per level. -/
def toPrettyJson (indent : Nat) (d : Document) : String := d.toTree.toPrettyJson indent

end Document

end Reshape
