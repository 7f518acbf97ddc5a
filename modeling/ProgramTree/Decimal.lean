namespace ProgramTree

/-- Drops an optional sign. -/
def dropSign : List Char → List Char
  | '+' :: rest => rest
  | '-' :: rest => rest
  | cs => cs

/-- Accepts nothing at all, or `e` or `E`, an optional sign and at least one digit. -/
def isExponentPart : List Char → Bool
  | [] => true
  | c :: rest =>
    let digits := dropSign rest
    (c == 'e' || c == 'E') && !digits.isEmpty && digits.all Char.isDigit

/-- Accepts digits, optionally with a point before, among or after them, then optionally an
exponent. -/
def isUnsigned (text : List Char) : Bool :=
  let whole := text.takeWhile Char.isDigit
  match text.dropWhile Char.isDigit with
  | '.' :: rest =>
    (!whole.isEmpty || rest.head?.any Char.isDigit) &&
      isExponentPart (rest.dropWhile Char.isDigit)
  | rest => !whole.isEmpty && isExponentPart rest

/-- What floating point knows besides numbers; the letters may be large or small. -/
def floatWords : List String :=
  ["inf", "infinity", "nan"]

/-- Accepts what can be read as a floating-point number, with an optional sign. -/
def isFloat (text : List Char) : Bool :=
  let unsigned := dropSign text
  isUnsigned unsigned || floatWords.any (·.toList == unsigned.map Char.toLower)

/-- A decimal is a floating-point number that opens with a digit. So it has neither a sign nor a
leading point, and is no word. -/
def isDecimal (text : List Char) : Bool :=
  text.head?.any Char.isDigit && isFloat text

end ProgramTree
