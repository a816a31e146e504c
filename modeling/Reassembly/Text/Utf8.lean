import Reassembly.SeqNum

/-! Text as the bytes that are stored and sent. -/
namespace Reassembly.Text

def utf8 (cs : List Char) : Bytes := cs.flatMap String.utf8EncodeChar

def utf8String (s : String) : Bytes := utf8 s.toList

def ofUtf8? (bytes : Bytes) : Option String := String.fromUTF8? ⟨bytes.toArray⟩

@[simp] theorem utf8_nil : utf8 [] = [] := rfl
theorem utf8_append (cs ds : List Char) : utf8 (cs++ds) = utf8 cs ++ utf8 ds :=
  List.flatMap_append

end Reassembly.Text
