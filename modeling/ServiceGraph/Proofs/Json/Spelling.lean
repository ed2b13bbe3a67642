import Mathlib.Data.List.Basic
import ServiceGraph.Json.Printer
import ServiceGraph.Json.Reader

namespace ServiceGraph.Json

/-- What may stand between tokens. -/
def Blank (cs : List Char) : Prop := ∀ c ∈ cs, Reader.isSpace c = true

/-- The ways to write a character inside quotes: as it is, by a letter after a backslash, or as a
16-bit unit. -/
inductive SpellsChar : List Char → Char → Prop where
  | plain {c : Char} : 32 ≤ c.toNat → c ≠ '"' → c ≠ '\\' → SpellsChar [c] c
  | letter {e c : Char} : Reader.simpleEscape? e = some c → SpellsChar ['\\', e] c
  | unit {x y z w c : Char} :
      Reader.hexUnit? x y z w = some c.toNat → SpellsChar ['\\', 'u', x, y, z, w] c

/-- The characters of a string, one after the other. -/
inductive SpellsChars : List Char → List Char → Prop where
  | nil : SpellsChars [] []
  | cons {t ts cs : List Char} {c : Char} :
      SpellsChar t c → SpellsChars ts cs → SpellsChars (t ++ ts) (c :: cs)

/-- A string in quotes. -/
inductive SpellsString : List Char → String → Prop where
  | quoted {t : List Char} {s : String} :
      SpellsChars t s.toList → SpellsString ('"' :: (t ++ ['"'])) s

mutual

/-- A text is one of a value. -/
inductive Spells : List Char → Json → Prop where
  | null : Spells "null".toList null
  | boolTrue : Spells "true".toList (bool true)
  | boolFalse : Spells "false".toList (bool false)
  | int (n : Int) : Spells (Decimal.intText n) (num (.int n))
  | str {t : List Char} {s : String} : SpellsString t s → Spells t (str s)
  | arr {t : List Char} {items : List Json} :
      SpellsItems t items → Spells ('[' :: (t ++ [']'])) (arr items)
  | obj {t : List Char} {members : List (String × Json)} :
      SpellsMembers t members → Spells ('\x7b' :: (t ++ ['\x7d'])) (obj members)

/-- What stands between the brackets of an array. -/
inductive SpellsItems : List Char → List Json → Prop where
  | none {w : List Char} : Blank w → SpellsItems w []
  | last {w t w' : List Char} {j : Json} :
      Blank w → Spells t j → Blank w' → SpellsItems (w ++ (t ++ w')) [j]
  | more {w t w' ts : List Char} {j k : Json} {items : List Json} :
      Blank w → Spells t j → Blank w' → SpellsItems ts (k :: items) →
      SpellsItems (w ++ (t ++ (w' ++ ',' :: ts))) (j :: k :: items)

/-- What stands between the braces of an object. -/
inductive SpellsMembers : List Char → List (String × Json) → Prop where
  | none {w : List Char} : Blank w → SpellsMembers w []
  | last {w t w' : List Char} {m : String × Json} :
      Blank w → SpellsMember t m → Blank w' → SpellsMembers (w ++ (t ++ w')) [m]
  | more {w t w' ts : List Char} {m m' : String × Json} {members : List (String × Json)} :
      Blank w → SpellsMember t m → Blank w' → SpellsMembers ts (m' :: members) →
      SpellsMembers (w ++ (t ++ (w' ++ ',' :: ts))) (m :: m' :: members)

/-- A name, a colon and a value. -/
inductive SpellsMember : List Char → String × Json → Prop where
  | member {n w w' t : List Char} {name : String} {j : Json} :
      SpellsString n name → Blank w → Blank w' → Spells t j →
      SpellsMember (n ++ (w ++ ':' :: (w' ++ t))) (name, j)

end

/-- Values whose numbers are integers, with nothing in them that cannot be read. -/
inductive Plain : Json → Prop where
  | null : Plain null
  | bool (b : Bool) : Plain (bool b)
  | int (n : Int) : Plain (num (.int n))
  | str (s : String) : Plain (str s)
  | arr {items : List Json} : (∀ j ∈ items, Plain j) → Plain (arr items)
  | obj {members : List (String × Json)} : (∀ m ∈ members, Plain m.2) → Plain (obj members)

section Escapes

theorem hexValue?_digitChar {n : Nat} (h : n < 16) :
    Reader.hexValue? n.digitChar = some n := by
  have all : ∀ m < 16, Reader.hexValue? (Nat.digitChar m) = some m := by decide
  exact all n h

theorem hexUnit?_hex4 {n : Nat} (h : n < 65536) :
    Reader.hexUnit? (n / 4096 % 16).digitChar (n / 256 % 16).digitChar (n / 16 % 16).digitChar
      (n % 16).digitChar = some n := by
  have digit (m : Nat) : Reader.hexValue? (m % 16).digitChar = some (m % 16) :=
    hexValue?_digitChar (Nat.mod_lt m (by decide))
  have sum : 4096 * (n / 4096 % 16) + 256 * (n / 256 % 16) + 16 * (n / 16 % 16) + n % 16 = n := by
    omega
  simp [Reader.hexUnit?, digit, sum]

theorem spellsChar_escapeChar (c : Char) : SpellsChar (escapeChar c) c := by
  unfold escapeChar
  split_ifs with hquote hback hb ht hn hf hr hcontrol
  · subst hquote
    exact .letter rfl
  · subst hback
    exact .letter rfl
  · subst hb
    exact .letter rfl
  · subst ht
    exact .letter rfl
  · subst hn
    exact .letter rfl
  · subst hf
    exact .letter rfl
  · subst hr
    exact .letter rfl
  · exact .unit (hexUnit?_hex4 (by omega))
  · exact .plain (Nat.le_of_not_lt hcontrol) hquote hback

theorem spellsChars_escape (cs : List Char) : SpellsChars (cs.flatMap escapeChar) cs := by
  induction cs with
  | nil => exact .nil
  | cons c cs ih => exact .cons (spellsChar_escapeChar c) ih

theorem spellsString_quote (s : String) : SpellsString (quote s) s :=
  .quoted (spellsChars_escape s.toList)

end Escapes

section Printers

/-- Texts with commas between them, each after the same blanks. -/
def separated {α : Type} (w : List Char) (text : α → List Char) : List α → List Char
  | [] => []
  | [a] => w ++ text a
  | a :: b :: rest => w ++ (text a ++ ',' :: separated w text (b :: rest))

/-- A member, with blanks after its colon. -/
def memberText (w : List Char) (text : Json → List Char) (m : String × Json) : List Char :=
  quote m.1 ++ ':' :: (w ++ text m.2)

theorem compactItems_eq (items : List Json) : compactItems items = separated [] compact items := by
  induction items with
  | nil => rfl
  | cons j rest ih =>
    cases rest with
    | nil => rfl
    | cons k rest => simp [compactItems, ih, separated]

theorem compactMembers_eq (members : List (String × Json)) :
    compactMembers members = separated [] (memberText [] compact) members := by
  induction members with
  | nil => rfl
  | cons m rest ih =>
    cases rest with
    | nil => rfl
    | cons m' rest => simp [compactMembers, ih, separated, memberText]

theorem prettyItems_eq (level : Nat) (items : List Json) :
    prettyItems level items = separated (newline level) (pretty level) items := by
  induction items with
  | nil => rfl
  | cons j rest ih =>
    cases rest with
    | nil => rfl
    | cons k rest => simp [prettyItems, ih, separated]

theorem prettyMembers_eq (level : Nat) (members : List (String × Json)) :
    prettyMembers level members =
      separated (newline level) (memberText [' '] (pretty level)) members := by
  induction members with
  | nil => rfl
  | cons m rest ih =>
    cases rest with
    | nil => simp [prettyMembers, separated, memberText]
    | cons m' rest => simp [prettyMembers, ih, separated, memberText]

theorem blank_nil : Blank [] := fun _ hc => absurd hc List.not_mem_nil

theorem blank_newline (level : Nat) : Blank (newline level) := by
  intro c hc
  rcases List.mem_cons.1 hc with rfl | hc
  · rfl
  · rw [List.eq_of_mem_replicate hc]
    rfl

theorem spellsItems_separated {w w' : List Char} (hw : Blank w) (hw' : Blank w')
    {text : Json → List Char} {items : List Json} (hne : items ≠ [])
    (h : ∀ j ∈ items, Spells (text j) j) : SpellsItems (separated w text items ++ w') items := by
  induction items with
  | nil => exact absurd rfl hne
  | cons j rest ih =>
    have hj := h j List.mem_cons_self
    cases rest with
    | nil =>
      rw [separated, List.append_assoc]
      exact .last hw hj hw'
    | cons k rest =>
      have others := ih (List.cons_ne_nil _ _) fun k hk => h k (List.mem_cons_of_mem _ hk)
      have joined := SpellsItems.more hw hj blank_nil others
      simpa [separated] using joined

theorem spellsMembers_separated {w v w' : List Char} (hw : Blank w) (hv : Blank v) (hw' : Blank w')
    {text : Json → List Char} {members : List (String × Json)} (hne : members ≠ [])
    (h : ∀ m ∈ members, Spells (text m.2) m.2) :
    SpellsMembers (separated w (memberText v text) members ++ w') members := by
  have member {m : String × Json} (hm : m ∈ members) : SpellsMember (memberText v text m) m :=
    .member (spellsString_quote m.1) blank_nil hv (h m hm)
  induction members with
  | nil => exact absurd rfl hne
  | cons m rest ih =>
    have hm := member List.mem_cons_self
    cases rest with
    | nil =>
      rw [separated, List.append_assoc]
      exact .last hw hm hw'
    | cons m' rest =>
      have others := ih (List.cons_ne_nil _ _) (fun k hk => h k (List.mem_cons_of_mem _ hk))
        fun hk => member (List.mem_cons_of_mem _ hk)
      have joined := SpellsMembers.more hw hm blank_nil others
      simpa [separated] using joined

theorem spells_compact {j : Json} (h : Plain j) : Spells (compact j) j := by
  induction h with
  | null => exact .null
  | bool b =>
    cases b with
    | false => exact .boolFalse
    | true => exact .boolTrue
  | int n => exact .int n
  | str s => exact .str (spellsString_quote s)
  | @arr items _ ih =>
    change Spells ('[' :: (compactItems items ++ [']'])) _
    rw [compactItems_eq]
    cases items with
    | nil => exact .arr (.none blank_nil)
    | cons j rest =>
      have joined := spellsItems_separated blank_nil blank_nil (List.cons_ne_nil j rest) ih
      rw [List.append_nil] at joined
      exact .arr joined
  | @obj members _ ih =>
    change Spells ('\x7b' :: (compactMembers members ++ ['\x7d'])) _
    rw [compactMembers_eq]
    cases members with
    | nil => exact .obj (.none blank_nil)
    | cons m rest =>
      have joined :=
        spellsMembers_separated blank_nil blank_nil blank_nil (List.cons_ne_nil m rest) ih
      rw [List.append_nil] at joined
      exact .obj joined

theorem spells_pretty {j : Json} (h : Plain j) (level : Nat) : Spells (pretty level j) j := by
  induction h generalizing level with
  | null => exact .null
  | bool b =>
    cases b with
    | false => exact .boolFalse
    | true => exact .boolTrue
  | int n => exact .int n
  | str s => exact .str (spellsString_quote s)
  | @arr items _ ih =>
    cases items with
    | nil => exact .arr (.none blank_nil)
    | cons j rest =>
      change Spells ('[' :: (prettyItems (level + 1) (j :: rest) ++ newline level ++ [']'])) _
      rw [prettyItems_eq]
      exact .arr (spellsItems_separated (blank_newline _) (blank_newline _)
        (List.cons_ne_nil j rest) fun k hk => ih k hk (level + 1))
  | @obj members _ ih =>
    cases members with
    | nil => exact .obj (.none blank_nil)
    | cons m rest =>
      have blank : Blank [' '] := by simp [Blank, Reader.isSpace]
      change Spells
        ('\x7b' :: (prettyMembers (level + 1) (m :: rest) ++ newline level ++ ['\x7d'])) _
      rw [prettyMembers_eq]
      exact .obj (spellsMembers_separated (blank_newline _) blank (blank_newline _)
        (List.cons_ne_nil m rest) fun k hk => ih k hk (level + 1))

end Printers

end ServiceGraph.Json
