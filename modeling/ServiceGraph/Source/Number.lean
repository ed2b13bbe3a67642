namespace ServiceGraph.Source

/-- The length of the digits at the start of a text. Underscores may stand between them. -/
def digitsLength (isDigit : Char → Bool) (text : List Char) : Nat :=
  (text.takeWhile fun c => isDigit c || c == '_').length

def isHexDigit (c : Char) : Bool :=
  c.isDigit || ('a' ≤ c && c ≤ 'f') || ('A' ≤ c && c ≤ 'F')

def signLength : List Char → Nat
  | '+' :: _ => 1
  | '-' :: _ => 1
  | _ => 0

/-- The length of an exponent, which starts with one of two marks and has at least one digit. -/
def exponentLength (small large : Char) : List Char → Nat
  | [] => 0
  | c :: rest =>
    if c = small || c = large then
      let sign := signLength rest
      match digitsLength Char.isDigit (rest.drop sign) with
      | 0 => 0
      | digits => 1 + sign + digits
    else 0

/-- The length of a point and the digits after it. -/
def fractionLength (isDigit : Char → Bool) : List Char → Nat
  | '.' :: rest => 1 + digitsLength isDigit rest
  | _ => 0

/-- The length of a number in base ten. -/
def decimalLength (text : List Char) : Nat :=
  let whole := digitsLength Char.isDigit text
  let fraction := fractionLength Char.isDigit (text.drop whole)
  whole + fraction + exponentLength 'e' 'E' (text.drop (whole + fraction))

/-- The length of a number in base sixteen after its mark. It has a fraction only before an
exponent: otherwise a point selects a field. -/
def hexLength (text : List Char) : Nat :=
  let whole := digitsLength isHexDigit text
  let fraction := fractionLength isHexDigit (text.drop whole)
  match exponentLength 'p' 'P' (text.drop (whole + fraction)) with
  | 0 => whole
  | exponent => whole + fraction + exponent

/-- The length of the number at the start of a text. The unit of imaginary numbers may end it. -/
def numberLength (text : List Char) : Nat :=
  let length :=
    match text with
    | '0' :: c :: rest =>
      if c = 'x' || c = 'X' then 2 + hexLength rest
      else if c = 'b' || c = 'B' || c = 'o' || c = 'O' then 2 + digitsLength Char.isDigit rest
      else decimalLength text
    | _ => decimalLength text
  if (text.drop length).head? == some 'i' then length + 1 else length

end ServiceGraph.Source
