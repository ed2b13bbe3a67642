import Mathlib.Tactic.SplitIfs
import ServiceGraph.Text.Utf8

namespace ServiceGraph.Text

namespace Utf8

theorem step_of_needed_eq_zero {u : Utf8} (h : u.needed = 0) (b : UInt8) :
    u.step b = u.first b.toNat :=
  if_pos h

theorem step_last {low high code : Nat} {chars : List (Option Char)} {b : UInt8}
    (hb : low ≤ b.toNat ∧ b.toNat ≤ high) :
    step ⟨1, low, high, code, chars⟩ b =
      push ⟨1, low, high, code, chars⟩ (some (Char.ofNat (code * 64 + (b.toNat - 0x80)))) := by
  simp [step, hb.1, hb.2]

theorem step_more {needed low high code : Nat} {chars : List (Option Char)} {b : UInt8}
    (hb : low ≤ b.toNat ∧ b.toNat ≤ high) :
    step ⟨needed + 2, low, high, code, chars⟩ b =
      ⟨needed + 1, 0x80, 0xbf, code * 64 + (b.toNat - 0x80), chars⟩ := by
  simp [step, hb.1, hb.2]

theorem first_ascii (u : Utf8) {b : Nat} (h : b < 0x80) :
    u.first b = u.push (some (Char.ofNat b)) :=
  if_pos h

theorem first_of_two (u : Utf8) {b : Nat} (h : 0xc2 ≤ b ∧ b < 0xe0) :
    u.first b = ⟨1, 0x80, 0xbf, b - 0xc0, u.chars⟩ := by
  have above : ¬ b < 0x80 ∧ ¬ b < 0xc2 := by omega
  simp [first, above.1, above.2, h.2]

/-- The second of three bytes is restricted so that no short or surrogate character is written. -/
theorem first_of_three (u : Utf8) {b second : Nat} (h : 0xe0 ≤ b ∧ b < 0xf0)
    (range : 0x80 ≤ second ∧ second ≤ 0xbf) (long : b = 0xe0 → 0xa0 ≤ second)
    (valid : b = 0xed → second ≤ 0x9f) :
    ∃ low high, u.first b = ⟨2, low, high, b - 0xe0, u.chars⟩ ∧ low ≤ second ∧ second ≤ high := by
  have above : ¬ b < 0x80 ∧ ¬ b < 0xc2 ∧ ¬ b < 0xe0 := by omega
  unfold first
  simp only [above.1, above.2.1, above.2.2, if_false]
  split_ifs with hshort hsurrogate
  · exact ⟨_, _, by rw [hshort], long hshort, range.2⟩
  · exact ⟨_, _, by rw [hsurrogate], range.1, valid hsurrogate⟩
  · exact ⟨_, _, rfl, range⟩
  all_goals omega

/-- The second of four bytes is restricted so that no short or too large character is written. -/
theorem first_of_four (u : Utf8) {b second : Nat} (h : 0xf0 ≤ b ∧ b ≤ 0xf4)
    (range : 0x80 ≤ second ∧ second ≤ 0xbf) (long : b = 0xf0 → 0x90 ≤ second)
    (valid : b = 0xf4 → second ≤ 0x8f) :
    ∃ low high, u.first b = ⟨3, low, high, b - 0xf0, u.chars⟩ ∧ low ≤ second ∧ second ≤ high := by
  have above : ¬ b < 0x80 ∧ ¬ b < 0xc2 ∧ ¬ b < 0xe0 ∧ b ≠ 0xe0 ∧ b ≠ 0xed ∧ ¬ b < 0xf0 := by omega
  unfold first
  simp only [above, if_false]
  split_ifs with hshort hmiddle hlarge
  · exact ⟨_, _, by rw [hshort], long hshort, range.2⟩
  · exact ⟨_, _, rfl, range⟩
  · exact ⟨_, _, by rw [hlarge], range.1, valid hlarge⟩
  · omega

section Characters

variable {u : Utf8} {a b c d : UInt8}

/-- A byte after the first one. -/
def IsTail (b : UInt8) : Prop := 0x80 ≤ b.toNat ∧ b.toNat ≤ 0xbf

theorem foldl_step_two (h : u.needed = 0) (ha : 0xc2 ≤ a.toNat ∧ a.toNat < 0xe0) (hb : IsTail b) :
    [a, b].foldl step u =
      u.push (some (Char.ofNat ((a.toNat - 0xc0) * 64 + (b.toNat - 0x80)))) := by
  rw [List.foldl_cons, step_of_needed_eq_zero h, first_of_two u ha, List.foldl_cons,
    step_last hb]
  rfl

theorem foldl_step_three (h : u.needed = 0) (ha : 0xe0 ≤ a.toNat ∧ a.toNat < 0xf0) (hb : IsTail b)
    (long : a.toNat = 0xe0 → 0xa0 ≤ b.toNat) (valid : a.toNat = 0xed → b.toNat ≤ 0x9f)
    (hc : IsTail c) :
    [a, b, c].foldl step u =
      u.push (some (Char.ofNat
        (((a.toNat - 0xe0) * 64 + (b.toNat - 0x80)) * 64 + (c.toNat - 0x80)))) := by
  obtain ⟨low, high, first, range⟩ := first_of_three u ha hb long valid
  rw [List.foldl_cons, step_of_needed_eq_zero h, first, List.foldl_cons,
    step_more range, List.foldl_cons, step_last hc]
  rfl

theorem foldl_step_four (h : u.needed = 0) (ha : 0xf0 ≤ a.toNat ∧ a.toNat ≤ 0xf4) (hb : IsTail b)
    (long : a.toNat = 0xf0 → 0x90 ≤ b.toNat) (valid : a.toNat = 0xf4 → b.toNat ≤ 0x8f)
    (hc : IsTail c) (hd : IsTail d) :
    [a, b, c, d].foldl step u =
      u.push (some (Char.ofNat
        ((((a.toNat - 0xf0) * 64 + (b.toNat - 0x80)) * 64 + (c.toNat - 0x80)) * 64 +
          (d.toNat - 0x80)))) := by
  obtain ⟨low, high, first, range⟩ := first_of_four u ha hb long valid
  rw [List.foldl_cons, step_of_needed_eq_zero h, first, List.foldl_cons,
    step_more range, List.foldl_cons, step_more hc, List.foldl_cons,
    step_last hd]
  rfl

end Characters

theorem toNat_ofNat_add {n k : Nat} (h : n + k < 256) : (UInt8.ofNat (n + k)).toNat = n + k := by
  rw [UInt8.toNat_ofNat']
  omega

theorem toNat_tail (n : Nat) : (UInt8.ofNat (n % 64 + 128)).toNat = n % 64 + 128 :=
  toNat_ofNat_add (by omega)

theorem isTail_ofNat (n : Nat) : IsTail (UInt8.ofNat (n % 64 + 128)) := by
  have byte := toNat_tail n
  unfold IsTail
  omega

theorem foldl_step_encodeChar (c : Char) {u : Utf8} (h : u.needed = 0) :
    (String.utf8EncodeChar c).foldl step u = u.push (some c) := by
  have char : Char.ofNat c.val.toNat = c := Char.ofNat_toNat c
  have valid : c.val.toNat < 0xd800 ∨ 0xdfff < c.val.toNat ∧ c.val.toNat < 0x110000 := c.valid
  unfold String.utf8EncodeChar
  generalize c.val.toNat = v at char valid
  dsimp only
  split_ifs with hone htwo hthree
  · have byte : (UInt8.ofNat v).toNat = v := toNat_ofNat_add (k := 0) (by omega)
    rw [List.foldl_cons, List.foldl_nil, step_of_needed_eq_zero h, byte, first_ascii u (by omega),
      char]
  · have lead : (UInt8.ofNat (v / 64 % 32 + 192)).toNat = v / 64 + 192 := by
      rw [toNat_ofNat_add (by omega)]
      omega
    rw [foldl_step_two h (by omega) (isTail_ofNat _), lead, toNat_tail]
    have code : (v / 64 + 192 - 0xc0) * 64 + (v % 64 + 128 - 0x80) = v := by omega
    rw [code, char]
  · have lead : (UInt8.ofNat (v / 4096 % 16 + 224)).toNat = v / 4096 + 224 := by
      rw [toNat_ofNat_add (by omega)]
      omega
    have second := toNat_tail (v / 64)
    rw [foldl_step_three h (by omega) (isTail_ofNat _) (by omega) (by omega) (isTail_ofNat _), lead,
      second, toNat_tail]
    have code : ((v / 4096 + 224 - 0xe0) * 64 + (v / 64 % 64 + 128 - 0x80)) * 64 +
        (v % 64 + 128 - 0x80) = v := by omega
    rw [code, char]
  · have lead : (UInt8.ofNat (v / 262144 % 8 + 240)).toNat = v / 262144 + 240 := by
      rw [toNat_ofNat_add (by omega)]
      omega
    have second := toNat_tail (v / 4096)
    rw [foldl_step_four h (by omega) (isTail_ofNat _) (by omega) (by omega) (isTail_ofNat _)
      (isTail_ofNat _), lead, second, toNat_tail, toNat_tail]
    have code : (((v / 262144 + 240 - 0xf0) * 64 + (v / 4096 % 64 + 128 - 0x80)) * 64 +
        (v / 64 % 64 + 128 - 0x80)) * 64 + (v % 64 + 128 - 0x80) = v := by omega
    rw [code, char]

theorem foldl_step_encode (cs : List Char) {u : Utf8} (h : u.needed = 0) :
    ((cs.flatMap String.utf8EncodeChar).foldl step u).needed = 0 ∧
      ((cs.flatMap String.utf8EncodeChar).foldl step u).chars =
        (cs.map some).reverse ++ u.chars := by
  induction cs generalizing u with
  | nil => simp [h]
  | cons c cs ih =>
    rw [List.flatMap_cons, List.foldl_append, foldl_step_encodeChar c h]
    obtain ⟨needed, chars⟩ := ih (u := u.push (some c)) rfl
    refine ⟨needed, chars.trans ?_⟩
    simp [push]

end Utf8

theorem toList_loop (bytes : ByteArray) (i : Nat) (read : List UInt8) :
    ByteArray.toList.loop bytes i read = read.reverse ++ bytes.data.toList.drop i := by
  fun_induction ByteArray.toList.loop bytes i read with
  | case1 i read h ih =>
    have inside : i < bytes.data.toList.length := h
    have byte : bytes.get! i = bytes.data.toList[i] := getElem!_pos bytes.data i h
    rw [ih, List.drop_eq_getElem_cons inside, byte]
    simp
  | case2 i read h =>
    have outside : bytes.data.toList.length ≤ i := by simpa using h
    rw [List.drop_eq_nil_of_le outside]
    simp

theorem toList_eq (bytes : ByteArray) : bytes.toList = bytes.data.toList := by
  rw [ByteArray.toList, toList_loop]
  simp

theorem toList_toByteArray (bytes : List UInt8) : bytes.toByteArray.toList = bytes := by
  rw [toList_eq, List.toList_data_toByteArray]

theorem encode_eq (cs : List Char) : encode cs = cs.flatMap String.utf8EncodeChar := by
  rw [encode, String.toUTF8, String.toByteArray_ofList, List.utf8Encode, toList_toByteArray]

theorem encode_append (a b : List Char) : encode (a ++ b) = encode a ++ encode b := by
  simp [encode_eq]

theorem length_encode (cs : List Char) :
    (encode cs).length = (String.ofList cs).utf8ByteSize := by
  rw [encode, toList_eq]
  rfl

theorem decode_ofList (cs : List Char) : decode (String.ofList cs).toUTF8 = cs.map some := by
  have bytes : (String.ofList cs).toUTF8.toList = cs.flatMap String.utf8EncodeChar := encode_eq cs
  obtain ⟨needed, chars⟩ := Utf8.foldl_step_encode cs (u := Utf8.empty) rfl
  simp only [decode, bytes, needed, chars, if_true]
  simp [Utf8.empty]

theorem encode_inj {a b : List Char} (h : encode a = encode b) : a = b := by
  have same : decode (String.ofList a).toUTF8 = decode (String.ofList b).toUTF8 := by
    rw [encode, encode] at h
    rw [decode, decode, h]
  rw [decode_ofList, decode_ofList] at same
  exact (List.map_inj_right fun _ _ => Option.some.inj).1 same

end ServiceGraph.Text
