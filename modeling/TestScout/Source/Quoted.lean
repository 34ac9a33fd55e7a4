import TestScout.Text.Blank

/-! String literals in quotes. A backslash escapes the quote character and itself; any
other backslash stands for itself. Main statement: reading undoes writing. -/

namespace TestScout.Source.Quoted

/-- Resolves the escapes of a literal between two quote characters. -/
def unescape (quote : Char) : List Char → List Char
  | [] => []
  | '\\' :: c :: rest =>
    if c = quote ∨ c = '\\' then c :: unescape quote rest else '\\' :: unescape quote (c :: rest)
  | c :: rest => c :: unescape quote rest

/-- Writes a backslash in front of every quote character and every backslash. -/
def escape (quote : Char) : List Char → List Char
  | [] => []
  | c :: rest => if c = quote ∨ c = '\\' then '\\' :: c :: escape quote rest else c :: escape quote rest

def isQuote (c : Char) : Bool := c == '\x27' || c == '"'

def encode (quote : Char) (text : List Char) : List Char := quote :: escape quote text ++ [quote]

/-- The text of a literal. What is not enclosed in one kind of quotes stands for itself,
apart from the blanks around it. -/
def decode (raw : List Char) : List Char :=
  let literal := Text.trim raw
  match literal with
  | quote :: rest =>
    if isQuote quote && rest.getLast? == some quote then unescape quote rest.dropLast else literal
  | [] => []

theorem unescape_escape {quote : Char} (text : List Char) : unescape quote (escape quote text) = text := by
  induction text with
  | nil => rfl
  | cons c rest ih =>
    by_cases special : c = quote ∨ c = '\\'
    · simp [escape, special, unescape, ih]
    · simp only [escape, special, ite_false]
      unfold unescape
      split
      · contradiction
      next same => simp_all
      next same => cases same; simp [ih]

end TestScout.Source.Quoted

namespace TestScout.Source

/-- The text of a string literal. -/
def unquote (raw : String) : String := String.ofList (Quoted.decode raw.toList)

end TestScout.Source
