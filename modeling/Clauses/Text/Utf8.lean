import Clauses.Base64

/-!
# Texts as bytes

The UTF-8 form of a text, as a list of bytes, and the text behind a list of bytes if there is one.
-/

namespace Clauses.Text

/-- The UTF-8 form of a text. -/
def toBytes (s : String) : Bytes := s.toList.flatMap String.utf8EncodeChar

/-- The text with this UTF-8 form. -/
def ofBytes? (bytes : Bytes) : Option String := String.fromUTF8? ⟨bytes.toArray⟩

theorem toBytes_eq (s : String) : toBytes s = s.toByteArray.data.toList := by
  have h : s.toByteArray = s.toList.utf8Encode := by simp
  rw [h]
  simp [toBytes, List.utf8Encode]

/-- A text is what its UTF-8 form is the form of. -/
theorem ofBytes?_toBytes (s : String) : ofBytes? (toBytes s) = some s := by
  rw [toBytes_eq, ofBytes?, Array.toArray_toList]
  simp only [String.fromUTF8?, s.isValidUTF8, ↓reduceDIte]
  rfl

end Clauses.Text
