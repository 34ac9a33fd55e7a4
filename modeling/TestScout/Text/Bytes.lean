/-! The bytes of a text in UTF-8. -/

namespace TestScout.Text

def bytes (text : List Char) : List UInt8 := text.flatMap String.utf8EncodeChar

theorem bytes_append (first second : List Char) : bytes (first ++ second) = bytes first ++ bytes second :=
  List.flatMap_append

end TestScout.Text
