import Mathlib.Data.List.DropRight
import ServiceGraph.Proofs.Json.Spelling
import ServiceGraph.Proofs.Text.Utf8

namespace ServiceGraph.Json

open Reader (Input isSpace skipSpace isDigit)

/-- A text without gaps. -/
def input (cs : List Char) : Input := cs.map some

@[simp] theorem input_nil : input [] = [] := rfl

@[simp] theorem input_cons (c : Char) (cs : List Char) : input (c :: cs) = some c :: input cs := rfl

@[simp] theorem input_append (cs ds : List Char) : input (cs ++ ds) = input cs ++ input ds :=
  List.map_append

section Blanks

theorem skipSpace_blank {w : List Char} (h : Blank w) (rest : Input) :
    skipSpace (input w ++ rest) = skipSpace rest := by
  induction w with
  | nil => rfl
  | cons c w ih =>
    have hc : isSpace c = true := h c List.mem_cons_self
    have tail := ih fun d hd => h d (List.mem_cons_of_mem _ hd)
    simpa [skipSpace, hc] using tail

theorem skipSpace_cons {c : Char} (h : isSpace c = false) (rest : Input) :
    skipSpace (some c :: rest) = some c :: rest := by
  simp [skipSpace, h]

theorem skipSpace_skipSpace (cs : Input) : skipSpace (skipSpace cs) = skipSpace cs := by
  unfold skipSpace
  exact List.dropWhile_idempotent _ _

end Blanks

section Strings

open Reader (stringItems stringChars? StringItem)

theorem isHighSurrogate_toNat (c : Char) : Reader.isHighSurrogate c.toNat = false := by
  have valid := c.valid
  simp only [Reader.isHighSurrogate, Bool.and_eq_false_iff, decide_eq_false_iff_not]
  simp only [UInt32.isValidChar, Nat.isValidChar] at valid
  simp only [Char.toNat]
  omega

theorem isLowSurrogate_toNat (c : Char) : Reader.isLowSurrogate c.toNat = false := by
  have valid := c.valid
  simp only [Reader.isLowSurrogate, Bool.and_eq_false_iff, decide_eq_false_iff_not]
  simp only [UInt32.isValidChar, Nat.isValidChar] at valid
  simp only [Char.toNat]
  omega

/-- A character is read as one item, which stands for it. -/
theorem SpellsChar.exists_item {t : List Char} {c : Char} (h : SpellsChar t c) :
    ∃ item : StringItem,
      (∀ rest items rest', stringItems rest = some (items, rest') →
        stringItems (input t ++ rest) = some (item :: items, rest')) ∧
      ∀ items cs, stringChars? items = some cs → stringChars? (item :: items) = some (c :: cs) := by
  cases h with
  | plain hcontrol hquote hback =>
    refine ⟨.char c, fun rest items rest' hrest => ?_, fun items cs hcs => by
      simp [stringChars?, hcs]⟩
    show stringItems (some c :: rest) = _
    rw [stringItems]
    · simp [hback, hrest]
      omega
    · exact hquote
    · exact fun _ _ _ _ _ _ => hback
    · exact fun _ _ _ => hback
  | @letter e _ he =>
    refine ⟨.char c, fun rest items rest' hrest => ?_, fun items cs hcs => by
      simp [stringChars?, hcs]⟩
    show stringItems (some '\\' :: some e :: rest) = _
    rw [stringItems]
    · simp [he, hrest]
    · rintro _ _ _ _ _ rfl rfl
      cases he
  | @unit x y z w _ hunit =>
    refine ⟨.unit c.toNat, fun rest items rest' hrest => ?_, fun items cs hcs => ?_⟩
    · show stringItems (some '\\' :: some 'u' :: some x :: some y :: some z :: some w :: rest) = _
      rw [stringItems]
      simp [hunit, hrest]
    · unfold stringChars?
      simp [isHighSurrogate_toNat, isLowSurrogate_toNat, hcs, Char.ofNat_toNat]

theorem SpellsChars.exists_items {t cs : List Char} (h : SpellsChars t cs) (rest : Input) :
    ∃ items, stringItems (input t ++ some '"' :: rest) = some (items, rest) ∧
      stringChars? items = some cs := by
  induction h with
  | nil => exact ⟨[], rfl, rfl⟩
  | cons hc _ ih =>
    obtain ⟨items, hitems, hcs⟩ := ih
    obtain ⟨item, hitem, hchar⟩ := hc.exists_item
    refine ⟨item :: items, ?_, hchar items _ hcs⟩
    rw [input_append, List.append_assoc]
    exact hitem _ _ _ hitems

theorem SpellsString.string? {t : List Char} {s : String} (h : SpellsString t s) (rest : Input) :
    ∃ body, input t ++ rest = some '"' :: body ∧ Reader.string? body = some (some s, rest) := by
  cases h with
  | @quoted t _ hchars =>
    obtain ⟨items, hitems, hcs⟩ := hchars.exists_items rest
    refine ⟨input t ++ some '"' :: rest, by simp, ?_⟩
    simp [Reader.string?, hitems, hcs, String.ofList_toList]

end Strings

section Numbers

open Reader (digits digitsValue wholePart? fraction? exponent? unsigned? number?)

/-- A text that does not go on with a number. -/
def Ends (rest : Input) : Prop :=
  ∀ c, rest.head? = some (some c) → isDigit c = false ∧ c ≠ '.' ∧ c ≠ 'e' ∧ c ≠ 'E'

theorem isDigit_of_mem_natText {n : Nat} {c : Char} (h : c ∈ Decimal.natText n) :
    isDigit c = true := by
  have digit := Nat.isDigit_of_mem_toDigits (by decide) (by decide) h
  simpa [isDigit, Char.isDigit, Char.le_def] using digit

theorem natText_cons (n : Nat) : ∃ d ds, Decimal.natText n = d :: ds :=
  List.exists_cons_of_ne_nil Nat.toDigits_ne_nil

theorem digits_of_ends {rest : Input} (h : Ends rest) : digits rest = ([], rest) := by
  match rest with
  | [] => rfl
  | none :: _ => rfl
  | some c :: rest =>
    have hc := (h c rfl).1
    simp [digits, hc]

theorem digits_append {ds : List Char} (hds : ∀ c ∈ ds, isDigit c = true) {rest : Input}
    (h : Ends rest) : digits (input ds ++ rest) = (ds, rest) := by
  induction ds with
  | nil => exact digits_of_ends h
  | cons d ds ih =>
    have hd := hds d List.mem_cons_self
    have tail := ih fun c hc => hds c (List.mem_cons_of_mem _ hc)
    simp [digits, hd, tail]

theorem digitsValue_natText (n : Nat) : digitsValue (Decimal.natText n) = n := by
  have value := Nat.ofDigitChars_toDigits (b := 10) (n := n) (by decide) (by decide)
  rwa [Nat.ofDigitChars_eq_foldl] at value

/-- Only the number zero starts with a zero. -/
theorem natText_head {n : Nat} {ds : List Char} (h : Decimal.natText n = '0' :: ds) : n = 0 := by
  induction n using Nat.strong_induction_on generalizing ds with
  | h n ih =>
    unfold Decimal.natText at h ih
    by_cases hn : n < 10
    · rw [Nat.toDigits_of_lt_base hn] at h
      have all : ∀ m < 10, Nat.digitChar m = '0' → m = 0 := by decide
      exact all n hn (List.cons.inj h).1
    · rw [Nat.toDigits_of_base_le (by decide) (by omega)] at h
      obtain ⟨d, rest, hd⟩ := natText_cons (n / 10)
      rw [Decimal.natText] at hd
      rw [hd] at h
      have first : d = '0' := (List.cons.inj h).1
      have zero := ih (n / 10) (by omega) (first ▸ hd)
      omega

theorem wholePart?_natText (n : Nat) {rest : Input} (h : Ends rest) :
    wholePart? (input (Decimal.natText n) ++ rest) = some (Decimal.natText n, rest) := by
  have read : digits (input (Decimal.natText n) ++ rest) = (Decimal.natText n, rest) :=
    digits_append (fun c hc => isDigit_of_mem_natText hc) h
  unfold wholePart?
  rw [read]
  split
  case h_1 heq => exact absurd (Prod.mk.inj heq).1 Nat.toDigits_ne_nil
  case h_2 heq =>
    have text := (Prod.mk.inj heq).1
    rw [natText_head text] at text
    cases text
  case h_3 => rfl

theorem fraction?_of_ends {rest : Input} (h : Ends rest) : fraction? rest = some (none, rest) := by
  match rest with
  | [] => rfl
  | none :: _ => rfl
  | some c :: rest =>
    have hc := (h c rfl).2.1
    rw [fraction?]
    rintro _ heq
    exact hc (Option.some.inj (List.cons.inj heq).1)

theorem exponent?_of_ends {rest : Input} (h : Ends rest) : exponent? rest = some (none, rest) := by
  match rest with
  | [] => rfl
  | none :: _ => rfl
  | some c :: rest =>
    obtain ⟨-, -, he, hE⟩ := h c rfl
    simp [exponent?, he, hE]

theorem unsigned?_natText (negative : Bool) {n : Nat} (hn : negative = true → n ≠ 0) {rest : Input}
    (h : Ends rest) :
    unsigned? negative (input (Decimal.natText n) ++ rest) =
      some (.int (if negative then -n else n), rest) := by
  have whole := wholePart?_natText n h
  have fraction := fraction?_of_ends h
  have exponent := exponent?_of_ends h
  simp [unsigned?, whole, fraction, exponent, digitsValue_natText]
  exact hn

theorem number?_intText (n : Int) {rest : Input} (h : Ends rest) :
    number? (input (Decimal.intText n) ++ rest) = some (.int n, rest) := by
  unfold Decimal.intText
  split
  case isTrue hneg =>
    have read := unsigned?_natText true (n := n.natAbs) (fun _ => by omega) h
    have value : -(n.natAbs : Int) = n := by omega
    rw [if_pos rfl, value] at read
    rw [input_cons, List.cons_append, number?]
    exact read
  case isFalse hpos =>
    have read := unsigned?_natText false (n := n.natAbs) (fun h => nomatch h) h
    have value : (n.natAbs : Int) = n := by omega
    rw [number?]
    · simpa [value] using read
    · intro rest' heq
      obtain ⟨d, ds, hd⟩ := natText_cons n.natAbs
      have digit : isDigit d = true := isDigit_of_mem_natText (n := n.natAbs) (by simp [hd])
      rw [hd] at heq
      have minus : d = '-' := Option.some.inj (List.cons.inj heq).1
      rw [minus] at digit
      exact absurd digit (by decide)

end Numbers

section Values

open Reader (value? items? members? number?)

theorem value?_skipSpace (fuel : Nat) (cs : Input) :
    value? fuel (skipSpace cs) = value? fuel cs := by
  cases fuel with
  | zero => rfl
  | succ fuel => rw [value?, value?, skipSpace_skipSpace]

theorem items?_skipSpace (fuel : Nat) (cs : Input) :
    items? fuel (skipSpace cs) = items? fuel cs := by
  cases fuel with
  | zero => rfl
  | succ fuel => rw [items?, items?, value?_skipSpace]

theorem members?_skipSpace (fuel : Nat) (cs : Input) :
    members? fuel (skipSpace cs) = members? fuel cs := by
  cases fuel with
  | zero => rfl
  | succ fuel => rw [members?, members?, skipSpace_skipSpace]

theorem value?_blank {w : List Char} (h : Blank w) (fuel : Nat) (rest : Input) :
    value? fuel (input w ++ rest) = value? fuel rest := by
  rw [← value?_skipSpace, skipSpace_blank h, value?_skipSpace]

theorem members?_blank {w : List Char} (h : Blank w) (fuel : Nat) (rest : Input) :
    members? fuel (input w ++ rest) = members? fuel rest := by
  rw [← members?_skipSpace, skipSpace_blank h, members?_skipSpace]

/-- What a number starts with. -/
def startsNumber (c : Char) : Bool := c = '-' || isDigit c

theorem intText_head (n : Int) : ∃ c cs, Decimal.intText n = c :: cs ∧ startsNumber c = true := by
  unfold Decimal.intText
  split
  · exact ⟨_, _, rfl, rfl⟩
  · obtain ⟨d, ds, hd⟩ := natText_cons n.natAbs
    have digit : isDigit d = true := isDigit_of_mem_natText (n := n.natAbs) (by simp [hd])
    exact ⟨d, ds, hd, by simp [startsNumber, digit]⟩

/-- A character by which a value is told apart does not start a number. -/
theorem ne_of_startsNumber {c d : Char} (hc : startsNumber c = true)
    (hd : startsNumber d = false) : c ≠ d := by
  rintro rfl
  rw [hc] at hd
  cases hd

theorem isSpace_of_startsNumber {c : Char} (hc : startsNumber c = true) : isSpace c = false := by
  have space := ne_of_startsNumber hc (d := ' ') rfl
  have newline := ne_of_startsNumber hc (d := '\n') rfl
  have tab := ne_of_startsNumber hc (d := '\t') rfl
  have return' := ne_of_startsNumber hc (d := '\r') rfl
  simp [isSpace, space, newline, tab, return']

theorem value?_number {c : Char} (hc : startsNumber c = true) (fuel : Nat) (cs : Input) :
    value? (fuel + 1) (some c :: cs) = (number? (some c :: cs)).map fun p => (.num p.1, p.2) := by
  have other {d : Char} (hd : startsNumber d = false) (rest : Input) :
      some c :: cs ≠ some d :: rest :=
    fun heq => ne_of_startsNumber hc hd (Option.some.inj (List.cons.inj heq).1)
  rw [value?, skipSpace_cons (isSpace_of_startsNumber hc)]
  split
  case h_1 heq => cases heq
  case h_2 heq => exact absurd heq (other rfl _)
  case h_3 heq => exact absurd heq (other rfl _)
  case h_4 heq => exact absurd heq (other rfl _)
  case h_5 heq => exact absurd heq (other rfl _)
  case h_6 heq => exact absurd heq (other rfl _)
  case h_7 heq => exact absurd heq (other rfl _)
  case h_8 => rfl

/-- What is read after the opening bracket of an array and blanks. -/
def afterBracket? (fuel : Nat) : Input → Option (Json × Input)
  | some ']' :: rest => some (arr [], rest)
  | rest => do
    let (items, rest) ← items? fuel rest
    return (arr items, rest)

/-- What is read after the opening brace of an object and blanks. -/
def afterBrace? (fuel : Nat) : Input → Option (Json × Input)
  | some '\x7d' :: rest => some (obj [], rest)
  | rest => do
    let (members, rest) ← members? fuel rest
    return (Reader.ofMembers members, rest)

theorem value?_bracket (fuel : Nat) (body : Input) :
    value? (fuel + 1) (some '[' :: body) = afterBracket? fuel (skipSpace body) := by
  rw [value?, skipSpace_cons rfl]
  rfl

theorem value?_brace (fuel : Nat) (body : Input) :
    value? (fuel + 1) (some '\x7b' :: body) = afterBrace? fuel (skipSpace body) := by
  rw [value?, skipSpace_cons rfl]
  rfl

theorem value?_array (fuel : Nat) {body : Input} (h : ∀ rest, skipSpace body ≠ some ']' :: rest) :
    value? (fuel + 1) (some '[' :: body) = (items? fuel body).map fun p => (.arr p.1, p.2) := by
  rw [value?_bracket, afterBracket?.eq_2 _ _ h, items?_skipSpace]
  cases items? fuel body <;> rfl

theorem value?_object (fuel : Nat) {body : Input}
    (h : ∀ rest, skipSpace body ≠ some '\x7d' :: rest) :
    value? (fuel + 1) (some '\x7b' :: body) =
      (members? fuel body).map fun p => (Reader.ofMembers p.1, p.2) := by
  rw [value?_brace, afterBrace?.eq_2 _ _ h, members?_skipSpace]
  cases members? fuel body <;> rfl

/-- A value starts neither with a blank nor with the end of an array. -/
theorem Spells.head {t : List Char} {j : Json} (h : Spells t j) :
    ∃ c cs, t = c :: cs ∧ isSpace c = false ∧ c ≠ ']' := by
  cases h with
  | null => exact ⟨'n', "ull".toList, rfl, rfl, by decide⟩
  | boolTrue => exact ⟨'t', "rue".toList, rfl, rfl, by decide⟩
  | boolFalse => exact ⟨'f', "alse".toList, rfl, rfl, by decide⟩
  | int n =>
    obtain ⟨c, cs, htext, hc⟩ := intText_head n
    exact ⟨c, cs, htext, isSpace_of_startsNumber hc, ne_of_startsNumber hc rfl⟩
  | str h =>
    cases h
    exact ⟨'"', _, rfl, rfl, by decide⟩
  | arr => exact ⟨'[', _, rfl, rfl, by decide⟩
  | obj => exact ⟨'\x7b', _, rfl, rfl, by decide⟩

theorem SpellsMember.head {t : List Char} {m : String × Json} (h : SpellsMember t m) :
    ∃ cs, t = '"' :: cs := by
  cases h with
  | member hn =>
    cases hn
    exact ⟨_, rfl⟩

theorem skipSpace_ne {w cs : List Char} {c d : Char} (hw : Blank w) (hc : isSpace c = false)
    (hne : c ≠ d) (rest rest' : Input) :
    skipSpace (input (w ++ c :: cs) ++ rest) ≠ some d :: rest' := by
  rw [input_append, List.append_assoc, skipSpace_blank hw, input_cons, List.cons_append,
    skipSpace_cons hc]
  exact fun heq => hne (Option.some.inj (List.cons.inj heq).1)

theorem SpellsItems.skipSpace_ne {t : List Char} {j : Json} {items : List Json}
    (h : SpellsItems t (j :: items)) (rest rest' : Input) :
    skipSpace (input t ++ rest) ≠ some ']' :: rest' := by
  cases h with
  | last hw ht =>
    obtain ⟨c, cs, rfl, hspace, hc⟩ := ht.head
    exact Json.skipSpace_ne hw hspace hc rest rest'
  | more hw ht =>
    obtain ⟨c, cs, rfl, hspace, hc⟩ := ht.head
    exact Json.skipSpace_ne hw hspace hc rest rest'

theorem SpellsMembers.skipSpace_ne {t : List Char} {m : String × Json}
    {members : List (String × Json)} (h : SpellsMembers t (m :: members)) (rest rest' : Input) :
    skipSpace (input t ++ rest) ≠ some '\x7d' :: rest' := by
  cases h with
  | last hw ht =>
    obtain ⟨cs, rfl⟩ := ht.head
    exact Json.skipSpace_ne hw rfl (by decide) rest rest'
  | more hw ht =>
    obtain ⟨cs, rfl⟩ := ht.head
    exact Json.skipSpace_ne hw rfl (by decide) rest rest'

theorem ends_blank {w : List Char} (h : Blank w) {rest : Input} (hrest : Ends rest) :
    Ends (input w ++ rest) := by
  cases w with
  | nil => exact hrest
  | cons c w =>
    rintro _ ⟨⟩
    have hc : isSpace c = true := h c List.mem_cons_self
    simp only [isSpace, Bool.or_eq_true, decide_eq_true_eq] at hc
    rcases hc with ((rfl | rfl) | rfl) | rfl <;> decide

theorem ends_cons {c : Char} (h : c = ',' ∨ c = ']' ∨ c = '\x7d') (rest : Input) :
    Ends (some c :: rest) := by
  rintro _ ⟨⟩
  rcases h with rfl | rfl | rfl <;> decide

theorem close_blank {w : List Char} (hw : Blank w) (c : Char) (hc : isSpace c = false)
    (rest : Input) : skipSpace (input w ++ some c :: rest) = some c :: rest := by
  rw [skipSpace_blank hw, skipSpace_cons hc]

theorem ofMembers_named (members : List (String × Json)) :
    Reader.ofMembers (members.map fun m => (some m.1, m.2)) = obj members := by
  have names : (members.map fun m => (some m.1, m.2)).mapM
      (fun m : Option String × Json => m.1.map (·, m.2)) = some members := by
    induction members with
    | nil => rfl
    | cons m rest ih => simp [List.mapM_cons, ih]
  rw [Reader.ofMembers, names]

theorem input_bracketed (o c : Char) (t : List Char) (rest : Input) :
    input (o :: (t ++ [c])) ++ rest = some o :: (input t ++ some c :: rest) := by
  simp

theorem value?_emptyArray {w : List Char} (hw : Blank w) (fuel : Nat) (rest : Input) :
    value? (fuel + 1) (some '[' :: (input w ++ some ']' :: rest)) = some (arr [], rest) := by
  rw [value?_bracket, close_blank hw _ rfl, afterBracket?]

theorem value?_emptyObject {w : List Char} (hw : Blank w) (fuel : Nat) (rest : Input) :
    value? (fuel + 1) (some '\x7b' :: (input w ++ some '\x7d' :: rest)) = some (obj [], rest) := by
  rw [value?_brace, close_blank hw _ rfl, afterBrace?]

section Sequences

variable {fuel : Nat} {rest rest' after : Input} {j : Json}

theorem items?_last (hread : value? fuel rest = some (j, rest'))
    (hafter : skipSpace rest' = some ']' :: after) :
    items? (fuel + 1) rest = some ([j], after) := by
  simp [items?, hread, hafter]

theorem items?_more {items : List Json} {tail : Input}
    (hread : value? fuel rest = some (j, rest')) (hafter : skipSpace rest' = some ',' :: after)
    (hitems : items? fuel after = some (items, tail)) :
    items? (fuel + 1) rest = some (j :: items, tail) := by
  simp [items?, hread, hafter, hitems]

variable {n w : List Char} {name : String}

theorem members?_last (hn : SpellsString n name) (hw : Blank w)
    (hread : value? fuel rest = some (j, rest'))
    (hafter : skipSpace rest' = some '\x7d' :: after) :
    members? (fuel + 1) (input n ++ (input w ++ some ':' :: rest)) =
      some ([(some name, j)], after) := by
  obtain ⟨body, hbody, hname⟩ := hn.string? (input w ++ some ':' :: rest)
  have colon := close_blank hw ':' rfl rest
  rw [hbody, members?, skipSpace_cons rfl]
  simp [hname, colon, hread, hafter]

theorem members?_more {members : List (Option String × Json)} {tail : Input}
    (hn : SpellsString n name) (hw : Blank w) (hread : value? fuel rest = some (j, rest'))
    (hafter : skipSpace rest' = some ',' :: after)
    (hmembers : members? fuel after = some (members, tail)) :
    members? (fuel + 1) (input n ++ (input w ++ some ':' :: rest)) =
      some ((some name, j) :: members, tail) := by
  obtain ⟨body, hbody, hname⟩ := hn.string? (input w ++ some ':' :: rest)
  have colon := close_blank hw ':' rfl rest
  rw [hbody, members?, skipSpace_cons rfl]
  simp [hname, colon, hread, hafter, hmembers]

end Sequences

mutual

/-- A text of a value is read as that value. -/
theorem Spells.value? {t : List Char} {j : Json} (h : Spells t j) {fuel : Nat}
    (hfuel : t.length ≤ fuel) {rest : Input} (hrest : Ends rest) :
    Reader.value? fuel (input t ++ rest) = some (j, rest) := by
  obtain ⟨c, cs, hcs, -⟩ := h.head
  cases fuel with
  | zero => simp [hcs] at hfuel
  | succ fuel =>
    match h with
    | .null => rfl
    | .boolTrue => rfl
    | .boolFalse => rfl
    | .int n =>
      obtain ⟨d, ds, htext, hd⟩ := intText_head n
      have read := number?_intText n hrest
      rw [htext, input_cons, List.cons_append] at read ⊢
      rw [value?_number hd, read]
      rfl
    | .str hs =>
      obtain ⟨body, hbody, hread⟩ := hs.string? rest
      rw [hbody]
      simp [Reader.value?, skipSpace_cons, isSpace, hread]
    | @Spells.arr ts items hitems =>
      rw [input_bracketed]
      cases items with
      | nil =>
        cases hitems with
        | none hw => exact value?_emptyArray hw fuel rest
      | cons j items =>
        have short : ts.length < fuel := by simp at hfuel; omega
        have read := hitems.items? (List.cons_ne_nil _ _) short rest
        rw [value?_array fuel (hitems.skipSpace_ne _), read]
        rfl
    | @Spells.obj ts members hmembers =>
      rw [input_bracketed]
      cases members with
      | nil =>
        cases hmembers with
        | none hw => exact value?_emptyObject hw fuel rest
      | cons m members =>
        have short : ts.length < fuel := by simp at hfuel; omega
        have read := hmembers.members? (List.cons_ne_nil _ _) short rest
        rw [value?_object fuel (hmembers.skipSpace_ne _), read, Option.map_some, ofMembers_named]

theorem SpellsItems.items? {t : List Char} {items : List Json} (h : SpellsItems t items)
    (hne : items ≠ []) {fuel : Nat} (hfuel : t.length < fuel) (rest : Input) :
    Reader.items? fuel (input t ++ some ']' :: rest) = some (items, rest) := by
  cases fuel with
  | zero => exact absurd hfuel (Nat.not_lt_zero _)
  | succ fuel =>
    match h with
    | .none _ => exact absurd rfl hne
    | @SpellsItems.last w t w' j hw ht hw' =>
      have short : t.length ≤ fuel := by simp at hfuel; omega
      have close := close_blank hw' ']' rfl rest
      have read := ht.value? short (ends_blank hw' (ends_cons (.inr (.inl rfl)) rest))
      rw [← value?_blank hw] at read
      simp only [input_append, List.append_assoc]
      exact items?_last read close
    | @SpellsItems.more w t w' ts j k items hw ht hw' hts =>
      have short : t.length ≤ fuel := by simp at hfuel; omega
      have short' : ts.length < fuel := by simp at hfuel; omega
      let tail := input ts ++ some ']' :: rest
      have comma := close_blank hw' ',' rfl tail
      have read := ht.value? short (ends_blank hw' (ends_cons (.inl rfl) tail))
      rw [← value?_blank hw] at read
      have others := hts.items? (List.cons_ne_nil _ _) short' rest
      simp only [input_append, input_cons, List.append_assoc, List.cons_append]
      exact items?_more read comma others

theorem SpellsMembers.members? {t : List Char} {members : List (String × Json)}
    (h : SpellsMembers t members) (hne : members ≠ []) {fuel : Nat} (hfuel : t.length < fuel)
    (rest : Input) :
    Reader.members? fuel (input t ++ some '\x7d' :: rest) =
      some (members.map fun m => (some m.1, m.2), rest) := by
  cases fuel with
  | zero => exact absurd hfuel (Nat.not_lt_zero _)
  | succ fuel =>
    match h with
    | .none _ => exact absurd rfl hne
    | @SpellsMembers.last w _ w' _ hw (@SpellsMember.member n v v' t name j hn hv hv' ht) hw' =>
      have short : t.length ≤ fuel := by simp at hfuel; omega
      have close := close_blank hw' '\x7d' rfl rest
      have read := ht.value? short (ends_blank hw' (ends_cons (.inr (.inr rfl)) rest))
      rw [← value?_blank hv'] at read
      rw [input_append, List.append_assoc, members?_blank hw]
      simp only [input_append, input_cons, List.append_assoc, List.cons_append]
      exact members?_last hn hv read close
    | @SpellsMembers.more w _ w' ts _ _ _ hw (@SpellsMember.member n v v' t name j hn hv hv' ht)
        hw' hts =>
      have short : t.length ≤ fuel := by simp at hfuel; omega
      have short' : ts.length < fuel := by simp at hfuel; omega
      let tail := input ts ++ some '\x7d' :: rest
      have comma := close_blank hw' ',' rfl tail
      have read := ht.value? short (ends_blank hw' (ends_cons (.inl rfl) tail))
      rw [← value?_blank hv'] at read
      have others := hts.members? (List.cons_ne_nil _ _) short' rest
      rw [input_append, List.append_assoc, members?_blank hw]
      simp only [input_append, input_cons, List.append_assoc, List.cons_append]
      exact members?_more hn hv read comma others

end

/-- A text of a value that nothing but blanks follow is read as that value. -/
theorem Spells.parse? {t w : List Char} {j : Json} (h : Spells t j) (hw : Blank w) :
    Json.parse? (t ++ w) = some j := by
  have blanks : Ends (input w) := by
    have ends : Ends [] := fun c hc => nomatch hc
    simpa using ends_blank hw ends
  have short : t.length ≤ (input (t ++ w)).length + 1 := by simp [input]; omega
  have read := h.value? short blanks
  have nothing : skipSpace (input w) = [] := by
    have skipped := skipSpace_blank hw []
    rwa [List.append_nil] at skipped
  rw [← input_append] at read
  show parseInput? (input (t ++ w)) = some j
  rw [parseInput?, read]
  simp [nothing]

end Values

/-- The same for the bytes of a text. -/
theorem Spells.parseInput? {t w : List Char} {j : Json} (h : Spells t j) (hw : Blank w) :
    Json.parseInput? (Text.decode (String.ofList (t ++ w)).toUTF8) = some j := by
  rw [Text.decode_ofList]
  exact h.parse? hw

end ServiceGraph.Json
