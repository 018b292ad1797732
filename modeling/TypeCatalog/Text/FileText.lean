import TypeCatalog.Text.Marking

/-!
# Text/FileText — text from the bytes of a file

A file holds the encoding of a text with any of three line ends. `fileText?` decodes it strictly and
leaves one line end, the line feed.
-/

namespace TypeCatalog.Text

/-- Makes a line feed of every carriage return, and of one with a line feed after it. -/
def unifyLines : List Char → List Char
  | [] => []
  | '\r' :: '\n' :: rest => '\n' :: unifyLines rest
  | '\r' :: rest => '\n' :: unifyLines rest
  | c :: rest => c :: unifyLines rest

/-- The text of a file's bytes, if they encode one. -/
def fileText? (bytes : ByteArray) : Option String :=
  (String.fromUTF8? bytes).map fun text => String.ofList (unifyLines text.toList)

/-- How the texts of a file's document are spelled. -/
def Marking.ofFile (bytes : ByteArray) : Marking :=
  ((fileText? bytes).map Marking.ofText).getD .plain

end TypeCatalog.Text
