import Mathlib.Data.List.DropRight
import ServiceGraph.Text.Blank

namespace ServiceGraph.Text

/-- A run of blanks, which may be empty. -/
def Gap (cs : List Char) : Prop := ∀ c ∈ cs, isBlank c = true

/-- A text without blanks at its ends. -/
def Tight (cs : List Char) : Prop :=
  (∀ c ∈ cs.head?, isBlank c = false) ∧ ∀ c ∈ cs.getLast?, isBlank c = false

-- Only the characters of the text are looked at, and not all characters that there are.
instance (cs : List Char) : Decidable (Gap cs) := List.decidableBAll _ cs

instance (cs : List Char) : Decidable (Tight cs) :=
  @instDecidableAnd _ _ (Option.decidableForallMem cs.head?) (Option.decidableForallMem cs.getLast?)

section Trimming

variable {a b cs core : List Char}

theorem gap_nil : Gap [] := by simp [Gap]

theorem gap_cons {c : Char} : Gap (c :: cs) ↔ isBlank c = true ∧ Gap cs := List.forall_mem_cons

theorem Gap.append (ha : Gap a) (hb : Gap b) : Gap (a ++ b) := by
  intro c hc
  rcases List.mem_append.1 hc with hc | hc
  · exact ha c hc
  · exact hb c hc

theorem tight_of_forall (h : ∀ c ∈ cs, isBlank c = false) : Tight cs :=
  ⟨fun c hc => h c (List.mem_of_mem_head? hc), fun c hc => h c (List.mem_of_mem_getLast? hc)⟩

theorem dropWhile_isBlank_eq_self (h : ∀ c ∈ cs.head?, isBlank c = false) :
    cs.dropWhile isBlank = cs := by
  cases cs with
  | nil => rfl
  | cons c cs =>
    apply List.dropWhile_cons_of_neg
    simp [h c rfl]

theorem exists_gaps_trim (cs : List Char) :
    ∃ before after, Gap before ∧ Gap after ∧ cs = before ++ trim cs ++ after := by
  refine ⟨cs.takeWhile isBlank, (cs.dropWhile isBlank).rtakeWhile isBlank, ?_, ?_, ?_⟩
  · intro c hc
    exact List.mem_takeWhile_imp hc
  · intro c hc
    exact List.mem_rtakeWhile_imp hc
  · have last : trim cs ++ (cs.dropWhile isBlank).rtakeWhile isBlank = cs.dropWhile isBlank :=
      List.rdropWhile_append_rtakeWhile
    rw [List.append_assoc, last, List.takeWhile_append_dropWhile]

theorem tight_trim (cs : List Char) : Tight (trim cs) := by
  constructor
  · intro c hc
    have start : trim cs <+: cs.dropWhile isBlank := List.rdropWhile_prefix isBlank _
    obtain ⟨rest, hrest⟩ := List.head?_eq_some_iff.1 hc
    have hne : trim cs ≠ [] := by simp [hrest]
    have head := List.head_dropWhile_not isBlank (start.ne_nil hne)
    rw [← start.head hne] at head
    simpa [hrest] using head
  · intro c hc
    obtain ⟨init, hinit⟩ := List.getLast?_eq_some_iff.1 hc
    have hne : trim cs ≠ [] := by simp [hinit]
    have last := List.rdropWhile_last_not isBlank (cs.dropWhile isBlank) hne
    have hlast : (trim cs).getLast hne = c := by simp [hinit]
    rw [← hlast]
    exact eq_false_of_ne_true last

theorem trim_of_gaps (hcore : Tight core) (ha : Gap a) (hb : Gap b) :
    trim (a ++ core ++ b) = core := by
  have front : (a ++ core ++ b).dropWhile isBlank = (core ++ b).dropWhile isBlank := by
    rw [List.append_assoc, List.dropWhile_append_of_pos ha]
  cases hcs : core with
  | nil =>
    have none : b.dropWhile isBlank = [] := List.dropWhile_eq_nil_iff.2 hb
    rw [trim, ← hcs, front, hcs, List.nil_append, none]
    rfl
  | cons c cs =>
    have head : ∀ x ∈ (core ++ b).head?, isBlank x = false := by
      have hc : isBlank c = false := hcore.1 c (by simp [hcs])
      simpa [hcs] using hc
    have back : core.reverse.dropWhile isBlank = core.reverse := by
      apply dropWhile_isBlank_eq_self
      rw [List.head?_reverse]
      exact hcore.2
    have hb' : ∀ x ∈ b.reverse, isBlank x = true := fun x hx => hb x (List.mem_reverse.1 hx)
    rw [← hcs, trim, front, dropWhile_isBlank_eq_self head, List.reverse_append,
      List.dropWhile_append_of_pos hb', back, List.reverse_reverse]

/-- Trimming takes away the gaps around a text, and nothing else. -/
theorem trim_eq_iff : trim cs = core ↔
    Tight core ∧ ∃ before after, Gap before ∧ Gap after ∧ cs = before ++ core ++ after := by
  constructor
  · rintro rfl
    exact ⟨tight_trim cs, exists_gaps_trim cs⟩
  · rintro ⟨hcore, before, after, hbefore, hafter, rfl⟩
    exact trim_of_gaps hcore hbefore hafter

theorem dropWhile_append_cons {c : Char} (hc : isBlank c = false) (a b : List Char) :
    (a ++ c :: b).dropWhile isBlank = a.dropWhile isBlank ++ c :: b := by
  induction a with
  | nil => simp [hc]
  | cons x a ih =>
    rw [List.cons_append, List.dropWhile_cons, List.dropWhile_cons]
    split
    · exact ih
    · rfl

/-- Around a character that is not blank, both ends are trimmed by themselves. -/
theorem trim_append_cons {c : Char} (hc : isBlank c = false) (a b : List Char) :
    trim (a ++ c :: b) = a.dropWhile isBlank ++ c :: b.rdropWhile isBlank := by
  rw [trim, dropWhile_append_cons hc, List.reverse_append, List.reverse_cons, List.append_assoc,
    List.singleton_append, dropWhile_append_cons hc]
  simp [List.rdropWhile]

theorem trim_rdropWhile (cs : List Char) : trim (cs.rdropWhile isBlank) = trim cs := by
  obtain ⟨before, after, hbefore, hafter, hcs⟩ := exists_gaps_trim (cs.rdropWhile isBlank)
  have hlast : Gap (cs.rtakeWhile isBlank) := fun c hc => List.mem_rtakeWhile_imp hc
  have whole : cs = before ++ trim (cs.rdropWhile isBlank) ++ (after ++ cs.rtakeWhile isBlank) := by
    rw [← List.append_assoc, ← hcs, List.rdropWhile_append_rtakeWhile]
  exact (trim_eq_iff.2 ⟨tight_trim _, before, _, hbefore, hafter.append hlast, whole⟩).symm

end Trimming

section Separators

variable {sep : Char} {cs a b : List Char}

theorem splitAtFirst?_eq_none_iff : splitAtFirst? sep cs = none ↔ sep ∉ cs := by
  induction cs with
  | nil => simp [splitAtFirst?]
  | cons c cs ih =>
    by_cases hc : c = sep
    · simp [splitAtFirst?, hc]
    · simp [splitAtFirst?, hc, ih, Ne.symm hc]

theorem splitAtFirst?_append (ha : sep ∉ a) (b : List Char) :
    splitAtFirst? sep (a ++ sep :: b) = some (a, b) := by
  induction a with
  | nil => simp [splitAtFirst?]
  | cons c a ih =>
    rw [List.mem_cons, not_or] at ha
    simp [splitAtFirst?, Ne.symm ha.1, ih ha.2]

/-- The first separator parts a text. -/
theorem splitAtFirst?_eq_some_iff :
    splitAtFirst? sep cs = some (a, b) ↔ sep ∉ a ∧ cs = a ++ sep :: b := by
  constructor
  · intro h
    induction cs generalizing a with
    | nil => simp [splitAtFirst?] at h
    | cons c cs ih =>
      by_cases hc : c = sep
      · obtain ⟨rfl, rfl⟩ : [] = a ∧ cs = b := by simpa [splitAtFirst?, hc] using h
        simp [hc]
      · obtain ⟨a, hsplit, rfl⟩ : ∃ a', splitAtFirst? sep cs = some (a', b) ∧ c :: a' = a := by
          simpa [splitAtFirst?, hc] using h
        obtain ⟨hnot, rfl⟩ := ih hsplit
        simp [hnot, Ne.symm hc]
  · rintro ⟨ha, rfl⟩
    exact splitAtFirst?_append ha b

end Separators

section Pieces

variable {isSeparator : Char → Bool}

theorem exists_pieces (isSeparator : Char → Bool) (cs : List Char) :
    ∃ first others, pieces isSeparator cs = first :: others := by
  apply List.exists_cons_of_ne_nil
  cases cs with
  | nil => simp [pieces]
  | cons c cs =>
    rw [pieces]
    split
    · simp
    · cases pieces isSeparator cs <;> simp [pushWord]

/-- A word in front of a text becomes part of its first piece. -/
theorem pieces_append {word cs first : List Char}
    {others : List (List Char)} (hword : ∀ c ∈ word, isSeparator c = false)
    (hpieces : pieces isSeparator cs = first :: others) :
    pieces isSeparator (word ++ cs) = (word ++ first) :: others := by
  induction word with
  | nil => exact hpieces
  | cons c word ih =>
    have hc : isSeparator c = false := hword c List.mem_cons_self
    have hrest := ih fun c' hc' => hword c' (List.mem_cons_of_mem _ hc')
    simp [pieces, hc, hrest, pushWord]

theorem pieces_of_forall {word : List Char} (hword : ∀ c ∈ word, isSeparator c = false) :
    pieces isSeparator word = [word] := by
  have alone : pieces isSeparator (word ++ []) = [word ++ []] := pieces_append hword rfl
  simpa using alone

theorem pieces_append_separator {sep : Char} (hsep : isSeparator sep = true) (a b : List Char) :
    pieces isSeparator (a ++ sep :: b) = pieces isSeparator a ++ pieces isSeparator b := by
  induction a with
  | nil => simp [pieces, hsep]
  | cons c a ih =>
    rw [List.cons_append, pieces, pieces, ih]
    split
    · rfl
    · obtain ⟨first, others, hfirst⟩ := exists_pieces isSeparator a
      rw [hfirst]
      rfl

theorem length_pieces (cs : List Char) :
    (pieces isSeparator cs).length = cs.countP isSeparator + 1 := by
  induction cs with
  | nil => rfl
  | cons c cs ih =>
    rw [pieces]
    split
    next hc => simp [ih, hc]
    next hc =>
      obtain ⟨first, others, hfirst⟩ := exists_pieces isSeparator cs
      rw [hfirst] at ih ⊢
      simpa [pushWord, hc] using ih

end Pieces

section Lines

theorem lines_append_newline (a b : List Char) : lines (a ++ '\n' :: b) = lines a ++ lines b :=
  pieces_append_separator (by decide) a b

theorem length_lines (cs : List Char) : (lines cs).length = cs.count '\n' + 1 :=
  length_pieces cs

theorem lines_of_notMem {line : List Char} (h : '\n' ∉ line) : lines line = [line] := by
  apply pieces_of_forall
  intro c hc
  rw [beq_eq_false_iff_ne]
  rintro rfl
  exact h hc

/-- Lines that are joined come apart again. -/
theorem lines_intercalate {ls : List (List Char)} (hne : ls ≠ []) (h : ∀ l ∈ ls, '\n' ∉ l) :
    lines (['\n'].intercalate ls) = ls := by
  induction ls with
  | nil => exact absurd rfl hne
  | cons l ls ih =>
    have first := lines_of_notMem (h l List.mem_cons_self)
    cases ls with
    | nil => simpa using first
    | cons l' ls =>
      have rest := ih (by simp) fun x hx => h x (List.mem_cons_of_mem _ hx)
      rw [List.intercalate_cons_cons, List.append_assoc, List.singleton_append,
        lines_append_newline, first, rest]
      rfl

end Lines

section Words

/-- Characters that stand together: there are some, and none of them is blank. -/
structure IsWord (w : List Char) : Prop where
  nonempty : w ≠ []
  unbroken : ∀ c ∈ w, isBlank c = false

theorem isWord_iff {w : List Char} : IsWord w ↔ w ≠ [] ∧ ∀ c ∈ w, isBlank c = false :=
  ⟨fun h => ⟨h.nonempty, h.unbroken⟩, fun h => ⟨h.1, h.2⟩⟩

instance (w : List Char) : Decidable (IsWord w) :=
  have := List.decidableBAll (isBlank · = false) w
  decidable_of_iff _ isWord_iff.symm

/-- A text with a gap before each of its words, and one after all of them, which may be empty. -/
inductive Spaced : List (List Char) → List Char → Prop where
  | nil {gap : List Char} : Gap gap → Spaced [] gap
  | cons {gap word rest : List Char} {words : List (List Char)} :
      Gap gap → gap ≠ [] → Spaced words rest → Spaced (word :: words) (gap ++ word ++ rest)

/-- A text that starts with a word, perhaps after a gap, and goes on with other words. -/
def LaidOut (first : List Char) (others : List (List Char)) (text : List Char) : Prop :=
  ∃ gap rest, Gap gap ∧ Spaced others rest ∧ text = gap ++ first ++ rest

theorem words_append_blank {sep : Char} (hsep : isBlank sep = true) (a b : List Char) :
    words (a ++ sep :: b) = words a ++ words b := by
  rw [words, pieces_append_separator hsep, List.filter_append]
  rfl

theorem words_gap_append {gap : List Char} (hgap : Gap gap) (cs : List Char) :
    words (gap ++ cs) = words cs := by
  induction gap with
  | nil => rfl
  | cons c gap ih =>
    obtain ⟨hc, hgap⟩ := gap_cons.1 hgap
    calc words (c :: gap ++ cs)
      _ = words [] ++ words (gap ++ cs) := words_append_blank hc [] _
      _ = words cs := ih hgap

theorem words_gap {gap : List Char} (hgap : Gap gap) : words gap = [] := by
  have empty : words (gap ++ []) = words [] := words_gap_append hgap []
  rwa [List.append_nil] at empty

theorem words_of_isWord {w : List Char} (hw : IsWord w) : words w = [w] := by
  rw [words, pieces_of_forall hw.unbroken]
  simp [hw.nonempty]

theorem words_append_spaced {w rest : List Char} {others : List (List Char)} (hw : IsWord w)
    (hothers : ∀ w ∈ others, IsWord w) (h : Spaced others rest) :
    words (w ++ rest) = w :: others := by
  induction h generalizing w with
  | @nil gap hgap =>
    cases gap with
    | nil => simpa using words_of_isWord hw
    | cons c gap =>
      obtain ⟨hc, hgap⟩ := gap_cons.1 hgap
      rw [words_append_blank hc, words_of_isWord hw, words_gap hgap]
      rfl
  | @cons gap w' rest others hgap hne _ ih =>
    obtain ⟨c, gap, rfl⟩ := List.exists_cons_of_ne_nil hne
    obtain ⟨hc, hgap⟩ := gap_cons.1 hgap
    rw [List.forall_mem_cons] at hothers
    have next := ih hothers.1 hothers.2
    -- the first blank of the gap ends the word, and the others are skipped
    rw [List.append_assoc, List.cons_append, words_append_blank hc, words_of_isWord hw,
      words_gap_append hgap, next]
    rfl

/-- Words are found again however they are laid out. -/
theorem words_laidOut {first text : List Char} {others : List (List Char)} (hfirst : IsWord first)
    (hothers : ∀ w ∈ others, IsWord w) (h : LaidOut first others text) :
    words text = first :: others := by
  obtain ⟨gap, rest, hgap, hrest, rfl⟩ := h
  rw [List.append_assoc, words_gap_append hgap, words_append_spaced hfirst hothers hrest]

end Words

end ServiceGraph.Text
