/-!
# Metamodel.File

What comes of reading a file as text.
-/

namespace Metamodel

/-- A file, as the attempt to read it finds it. -/
inductive File where
  | bytes (content : ByteArray)
  | unreadable (reason : String)

namespace File

def missing : File := .unreadable "No such file or directory (os error 2)"

def directory : File := .unreadable "Is a directory (os error 21)"

def ofText (s : String) : File := .bytes s.toUTF8

/-- The text of a file, which has to be UTF-8. -/
def text : File → Except String String
  | .unreadable reason => .error reason
  | .bytes content =>
    match String.fromUTF8? content with
    | some s => .ok s
    | none => .error "stream did not contain valid UTF-8"

theorem text_ofText (s : String) : (ofText s).text = .ok s := by
  have hvalid : s.toUTF8.IsValidUTF8 := s.isValidUTF8
  simp only [text, ofText, String.fromUTF8?, hvalid, dite_true]
  rfl

end File

end Metamodel
