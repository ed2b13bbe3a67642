namespace ServiceGraph.Text

/-- A text read so far, last character first and `none` for a gap, and the current character: how
many bytes it still needs, the range of the next one, and the value of its bits so far. -/
structure Utf8 where
  needed : Nat
  low : Nat
  high : Nat
  code : Nat
  chars : List (Option Char)
  deriving DecidableEq

namespace Utf8

def empty : Utf8 := ⟨0, 0x80, 0xbf, 0, []⟩

def push (u : Utf8) (c : Option Char) : Utf8 := { empty with chars := c :: u.chars }

/-- The first byte of a character. -/
def first (u : Utf8) (b : Nat) : Utf8 :=
  let more (needed low high code : Nat) : Utf8 := ⟨needed, low, high, code, u.chars⟩
  if b < 0x80 then u.push (some (Char.ofNat b))
  else if b < 0xc2 then u.push none
  else if b < 0xe0 then more 1 0x80 0xbf (b - 0xc0)
  else if b = 0xe0 then more 2 0xa0 0xbf 0
  else if b = 0xed then more 2 0x80 0x9f 0xd
  else if b < 0xf0 then more 2 0x80 0xbf (b - 0xe0)
  else if b = 0xf0 then more 3 0x90 0xbf 0
  else if b < 0xf4 then more 3 0x80 0xbf (b - 0xf0)
  else if b = 0xf4 then more 3 0x80 0x8f 4
  else u.push none

def step (u : Utf8) (byte : UInt8) : Utf8 :=
  let b := byte.toNat
  if u.needed = 0 then u.first b
  else if u.low ≤ b && b ≤ u.high then
    let code := u.code * 64 + (b - 0x80)
    if u.needed = 1 then u.push (some (Char.ofNat code))
    else ⟨u.needed - 1, 0x80, 0xbf, code, u.chars⟩
  else (u.push none).first b

end Utf8

/-- The bytes of a text. -/
def encode (cs : List Char) : List UInt8 := (String.ofList cs).toUTF8.toList

/-- The characters and gaps of a text. -/
def decode (bytes : ByteArray) : List (Option Char) :=
  let u := bytes.toList.foldl Utf8.step Utf8.empty
  (if u.needed = 0 then u.chars else none :: u.chars).reverse

def replacement : Char := '\ufffd'

/-- The text with replacements for its gaps. -/
def ofBytes (bytes : ByteArray) : List Char := (decode bytes).map (·.getD replacement)

end ServiceGraph.Text
