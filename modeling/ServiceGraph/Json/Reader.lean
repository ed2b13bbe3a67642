import ServiceGraph.Json.Basic

namespace ServiceGraph.Json

namespace Reader

/-- A text with `none` for a gap. -/
abbrev Input := List (Option Char)

def isSpace (c : Char) : Bool := c = ' ' || c = '\n' || c = '\t' || c = '\r'

def skipSpace (cs : Input) : Input := cs.dropWhile (·.any isSpace)

def isDigit (c : Char) : Bool := '0' ≤ c && c ≤ '9'

/-- The digits at the start of a text, and what follows them. -/
def digits : Input → List Char × Input
  | some c :: rest =>
    if isDigit c then
      let (found, rest) := digits rest
      (c :: found, rest)
    else ([], some c :: rest)
  | cs => ([], cs)

/-- The number that digits spell, the first digit counting most. -/
def digitsValue (cs : List Char) : Nat := cs.foldl (fun n c => 10 * n + Numeral.digitValue c) 0

def hexValue? (c : Char) : Option Nat :=
  if '0' ≤ c && c ≤ '9' then some (c.toNat - '0'.toNat)
  else if 'a' ≤ c && c ≤ 'f' then some (c.toNat - 'a'.toNat + 10)
  else if 'A' ≤ c && c ≤ 'F' then some (c.toNat - 'A'.toNat + 10)
  else none

def hexUnit? (a b c d : Char) : Option Nat := do
  let a ← hexValue? a
  let b ← hexValue? b
  let c ← hexValue? c
  let d ← hexValue? d
  return 4096 * a + 256 * b + 16 * c + d

/-- The character that a letter after a backslash stands for. -/
def simpleEscape? (c : Char) : Option Char :=
  match c with
  | '"' => some '"'
  | '\\' => some '\\'
  | '/' => some '/'
  | 'b' => some '\x08'
  | 'f' => some '\x0c'
  | 'n' => some '\n'
  | 'r' => some '\r'
  | 't' => some '\t'
  | _ => none

/-- One item of a string: a character, a 16-bit unit that was escaped, or a gap. -/
inductive StringItem where
  | char (c : Char)
  | unit (n : Nat)
  | gap

/-- The items of a string up to its closing quote, which is consumed. -/
def stringItems : Input → Option (List StringItem × Input)
  | [] => none
  | some '"' :: rest => some ([], rest)
  | some '\\' :: some 'u' :: some a :: some b :: some c :: some d :: rest => do
    let n ← hexUnit? a b c d
    let (items, rest) ← stringItems rest
    return (.unit n :: items, rest)
  | some '\\' :: some e :: rest => do
    let c ← simpleEscape? e
    let (items, rest) ← stringItems rest
    return (.char c :: items, rest)
  | some c :: rest =>
    if c.toNat < 32 || c = '\\' then none
    else do
      let (items, rest) ← stringItems rest
      return (.char c :: items, rest)
  | none :: rest => do
    let (items, rest) ← stringItems rest
    return (.gap :: items, rest)

def isHighSurrogate (n : Nat) : Bool := 0xD800 ≤ n && n ≤ 0xDBFF

def isLowSurrogate (n : Nat) : Bool := 0xDC00 ≤ n && n ≤ 0xDFFF

/-- The characters of a string: a high and a low surrogate next to each other are one character. A
surrogate that stands alone is none, and neither is a gap. -/
def stringChars? : List StringItem → Option (List Char)
  | [] => some []
  | .gap :: _ => none
  | .char c :: rest => do return c :: (← stringChars? rest)
  | .unit n :: rest =>
    if isHighSurrogate n then
      match rest with
      | .unit m :: rest =>
        if isLowSurrogate m then do
          return Char.ofNat (0x10000 + (n - 0xD800) * 0x400 + (m - 0xDC00)) :: (← stringChars? rest)
        else none
      | _ => none
    else if isLowSurrogate n then none
    else do return Char.ofNat n :: (← stringChars? rest)

/-- A string after its opening quote; the text is `none` when it is unreadable. -/
def string? (cs : Input) : Option (Option String × Input) := do
  let (items, rest) ← stringItems cs
  return ((stringChars? items).map String.ofList, rest)

/-- The whole part of a number: one zero, or digits that do not start with one. -/
def wholePart? (cs : Input) : Option (List Char × Input) :=
  match digits cs with
  | ([], _) => none
  | ('0' :: _ :: _, _) => none
  | found => some found

/-- The digits after a point, if there is a point. -/
def fraction? : Input → Option (Option (List Char) × Input)
  | some '.' :: rest =>
    match digits rest with
    | ([], _) => none
    | (found, rest) => some (some found, rest)
  | cs => some (none, cs)

/-- The digits of a power of ten with a sign. -/
def power? (sign : Int) (cs : Input) : Option (Option Int × Input) :=
  match digits cs with
  | ([], _) => none
  | (found, rest) => some (some (sign * digitsValue found), rest)

/-- The power of ten after a mark `e`, if there is one. -/
def exponent? : Input → Option (Option Int × Input)
  | some c :: rest =>
    if c = 'e' || c = 'E' then
      match rest with
      | some '+' :: rest => power? 1 rest
      | some '-' :: rest => power? (-1) rest
      | _ => power? 1 rest
    else some (none, some c :: rest)
  | cs => some (none, cs)

/-- A number after its sign. -/
def unsigned? (negative : Bool) (cs : Input) : Option (JsonNumber × Input) := do
  let (whole, rest) ← wholePart? cs
  let (fraction, rest) ← fraction? rest
  let (exponent, rest) ← exponent? rest
  let n := digitsValue whole
  let isInt := fraction.isNone && exponent.isNone && !(negative && n = 0)
  if isInt then return (.int (if negative then -n else n), rest)
  else return (.numeral ⟨negative, whole, fraction.getD [], exponent.getD 0⟩, rest)

def number? : Input → Option (JsonNumber × Input)
  | some '-' :: rest => unsigned? true rest
  | cs => unsigned? false cs

/-- What follows a word, if the text starts with it. -/
def word? : (word : List Char) → Input → Option Input
  | [], cs => some cs
  | _ :: _, [] => none
  | w :: word, c :: cs => if some w = c then word? word cs else none

/-- An object, unless one of its names is unreadable. -/
def ofMembers (members : List (Option String × Json)) : Json :=
  match members.mapM fun m => m.1.map (·, m.2) with
  | some members => .obj members
  | none => .unreadable

mutual

/-- A value at the start of the text, and what follows it. The fuel bounds the nesting and the
number of items that are read; the length of the text is enough. -/
def value? : (fuel : Nat) → Input → Option (Json × Input)
  | 0, _ => none
  | fuel + 1, cs =>
    match skipSpace cs with
    | [] => none
    | some '"' :: rest => do
      let (s, rest) ← string? rest
      return (s.elim .unreadable .str, rest)
    | some '[' :: rest =>
      match skipSpace rest with
      | some ']' :: rest => some (.arr [], rest)
      | rest => do
        let (items, rest) ← items? fuel rest
        return (.arr items, rest)
    | some '\x7b' :: rest =>
      match skipSpace rest with
      | some '\x7d' :: rest => some (.obj [], rest)
      | rest => do
        let (members, rest) ← members? fuel rest
        return (ofMembers members, rest)
    | some 'n' :: rest => (word? "ull".toList rest).map (.null, ·)
    | some 't' :: rest => (word? "rue".toList rest).map (.bool true, ·)
    | some 'f' :: rest => (word? "alse".toList rest).map (.bool false, ·)
    | rest => (number? rest).map fun p => (.num p.1, p.2)

/-- The items of an array that is not empty, up to its closing bracket. -/
def items? : (fuel : Nat) → Input → Option (List Json × Input)
  | 0, _ => none
  | fuel + 1, cs => do
    let (j, rest) ← value? fuel cs
    match skipSpace rest with
    | some ',' :: rest =>
      let (items, rest) ← items? fuel rest
      return (j :: items, rest)
    | some ']' :: rest => return ([j], rest)
    | _ => none

/-- The members of an object that is not empty, up to its closing brace. -/
def members? : (fuel : Nat) → Input → Option (List (Option String × Json) × Input)
  | 0, _ => none
  | fuel + 1, cs =>
    match skipSpace cs with
    | some '"' :: rest => do
      let (name, rest) ← string? rest
      match skipSpace rest with
      | some ':' :: rest =>
        let (j, rest) ← value? fuel rest
        match skipSpace rest with
        | some ',' :: rest =>
          let (members, rest) ← members? fuel rest
          return ((name, j) :: members, rest)
        | some '\x7d' :: rest => return ([(name, j)], rest)
        | _ => none
      | _ => none
    | _ => none

end

end Reader

/-- The value of a text that holds nothing else. -/
def parseInput? (cs : Reader.Input) : Option Json := do
  let (j, rest) ← Reader.value? (cs.length + 1) cs
  if (Reader.skipSpace rest).isEmpty then return j else none

/-- The value of a text without gaps. -/
def parse? (cs : List Char) : Option Json := parseInput? (cs.map some)

end ServiceGraph.Json
