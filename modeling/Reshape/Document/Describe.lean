import Reshape.Document.Text
import Reshape.Text.Printable

/-!
# Descriptions for diagnosis

One-line descriptions of nodes and documents, with texts between quotes and unprintable characters
as escapes.

## Main definitions

* `Text.describe`: a text between quotes.
* `Document.describe`, `Document.describeNode`: a document and one of its nodes.
-/

namespace Reshape

namespace Text

/-- The hexadecimal digits of a number. -/
def hexDigits (n : Nat) : List Char := Nat.toDigits 16 n

/-- A character inside quotes. -/
def describeChar (c : Char) : List Char :=
  if c = '"' then ['\\', '"']
  else if c = '\\' then ['\\', '\\']
  else if c = '\n' then ['\\', 'n']
  else if c = '\r' then ['\\', 'r']
  else if c = '\t' then ['\\', 't']
  else if c.toNat = 0 then ['\\', '0']
  else if isPrintable c then [c]
  else ['\\', 'u', '{'] ++ hexDigits c.toNat ++ ['}']

/-- A text between quotes. -/
def describe (s : String) : List Char :=
  '"' :: (s.toList.flatMap describeChar ++ ['"'])

/-- A list of texts. -/
def describeList (ss : List String) : List Char :=
  '[' :: ([',', ' '].intercalate (ss.map describe) ++ [']'])

end Text

namespace Document

/-- The word for a kind of nodes. -/
def Shape.word : Shape → String
  | value => "Value"
  | array => "Array"
  | object => "Object"

/-- The number, kind and path of a node. -/
def describeNode (d : Document) (id : NodeId) : String :=
  "Node \x7b id: " ++ toString id ++ ", type: " ++ (d.shape id).word ++ ", path: " ++
    String.ofList (Text.describeList (d.path id)) ++ " \x7d"

/-- A document with its compact text. -/
def describe (d : Document) : String := "Document(" ++ d.toJson ++ ")"

end Document

end Reshape
