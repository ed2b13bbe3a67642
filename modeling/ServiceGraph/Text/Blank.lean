namespace ServiceGraph.Text

/-- The code points with the property `White_Space`, as inclusive ranges in ascending order. -/
def blankRanges : List (Nat × Nat) :=
  [(0x09, 0x0D), (0x20, 0x20), (0x85, 0x85), (0xA0, 0xA0), (0x1680, 0x1680), (0x2000, 0x200A),
    (0x2028, 0x2029), (0x202F, 0x202F), (0x205F, 0x205F), (0x3000, 0x3000)]

def isBlank (c : Char) : Bool :=
  blankRanges.any fun r => r.1 ≤ c.toNat && c.toNat ≤ r.2

/-- Drops the blanks at both ends. -/
def trim (cs : List Char) : List Char :=
  ((cs.dropWhile isBlank).reverse.dropWhile isBlank).reverse

/-- Adds a character to the word that is being read from the right. -/
def pushWord (c : Char) : List (List Char) → List (List Char)
  | [] => [[c]]
  | w :: ws => (c :: w) :: ws

/-- The pieces between separators, read from the right: one more than there are separators. -/
def pieces (isSeparator : Char → Bool) : List Char → List (List Char)
  | [] => [[]]
  | c :: rest =>
    if isSeparator c then [] :: pieces isSeparator rest else pushWord c (pieces isSeparator rest)

/-- The maximal runs of characters that are not blank. -/
def words (cs : List Char) : List (List Char) :=
  (pieces isBlank cs).filter fun w => !w.isEmpty

/-- The lines of a text. A final newline is followed by one more, empty line. -/
def lines (cs : List Char) : List (List Char) :=
  pieces (· == '\n') cs

/-- The parts before and after the first `sep`. -/
def splitAtFirst? (sep : Char) : List Char → Option (List Char × List Char)
  | [] => none
  | c :: rest =>
    if c = sep then some ([], rest)
    else (splitAtFirst? sep rest).map fun p => (c :: p.1, p.2)

/-- The part after the last `sep`, or all of the text when there is none. -/
def afterLast (sep : Char) (cs : List Char) : List Char :=
  (pieces (· == sep) cs).getLastD []

/-- What follows `start`, if the list starts with it. -/
def dropStart? {α : Type} [DecidableEq α] : (start cs : List α) → Option (List α)
  | [], cs => some cs
  | _ :: _, [] => none
  | a :: start, c :: cs => if a = c then dropStart? start cs else none

def startsWith (start cs : List Char) : Bool := (dropStart? start cs).isSome

def endsWith (ending cs : List Char) : Bool := startsWith ending.reverse cs.reverse

/-- Whether `part` stands somewhere in the text. -/
def contains (part : List Char) : List Char → Bool
  | [] => part.isEmpty
  | c :: cs => startsWith part (c :: cs) || contains part cs

end ServiceGraph.Text
