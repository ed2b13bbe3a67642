import Mathlib.Data.String.Basic
import ServiceGraph.Environment
import ServiceGraph.Proofs.Text.Cuts

namespace ServiceGraph.Environment

open Text (Gap Tight)

/-- A name of a service or of a variable. -/
def IsName (name : String) : Prop :=
  name ≠ "" ∧ ∀ c ∈ name.toList, c.isAlphanum = true ∨ c = '_' ∨ c = '-'

instance (name : String) : Decidable (IsName name) :=
  @instDecidableAnd _ _ _ (List.decidableBAll _ name.toList)

/-- The texts of a line: blanks may stand at its ends and around the key and the value. -/
inductive Line.Spelled : Line → List Char → Prop where
  | blank {gap : List Char} : Gap gap → Spelled .nothing gap
  | comment {gap : List Char} (text : List Char) : Gap gap → Spelled .nothing (gap ++ '#' :: text)
  | assignment {service name value : String} {before behind between after : List Char} :
      Gap before → Gap behind → Gap between → Gap after →
      Spelled (.assignment service name value)
        (before ++ (service.toList ++ '.' :: name.toList) ++ behind ++
          '=' :: (between ++ value.toList ++ after))

/-- What can be said in a line. -/
def Line.Valid : Line → Prop
  | .nothing => True
  | .assignment service name value => IsName service ∧ IsName name ∧ Tight value.toList
  | .malformed => False

/-- A line that is not malformed says something. -/
def Says (line : List Char) (l : Line) : Prop := l.Spelled line ∧ l.Valid

def Malformed (line : List Char) : Prop := ∀ l, ¬Says line l

variable {line : List Char} {service name value : String}

theorem toNat_of_isAlphanum {c : Char} (h : c.isAlphanum = true) :
    48 ≤ c.toNat ∧ c.toNat ≤ 122 := by
  rcases Bool.or_eq_true_iff.1 h with h | h
  · rcases Bool.or_eq_true_iff.1 h with h | h
    · obtain ⟨least, most⟩ := of_decide_eq_true h
      have least : 65 ≤ c.toNat := UInt32.le_iff_toNat_le.1 least
      have most : c.toNat ≤ 90 := UInt32.le_iff_toNat_le.1 most
      omega
    · obtain ⟨least, most⟩ := Bool.and_eq_true_iff.1 h
      have least : 97 ≤ c.toNat := UInt32.le_iff_toNat_le.1 (of_decide_eq_true least)
      have most : c.toNat ≤ 122 := UInt32.le_iff_toNat_le.1 (of_decide_eq_true most)
      omega
  · have digit : 48 ≤ c.toNat ∧ c.toNat ≤ 57 := Char.isDigit_iff_toNat.1 h
    omega

theorem isName_toList : isName name.toList = true ↔ IsName name := by
  simp [isName, IsName, isNameChar, or_assoc]

theorem IsName.notMem (h : IsName name) {c : Char}
    (hc : ¬(c.isAlphanum = true ∨ c = '_' ∨ c = '-')) : c ∉ name.toList :=
  fun hmem => hc (h.2 c hmem)

theorem IsName.exists_cons (h : IsName name) : ∃ c cs, name.toList = c :: cs :=
  List.exists_cons_of_ne_nil (by simpa using h.1)

theorem IsName.isBlank_eq_false (h : IsName name) {c : Char} (hc : c ∈ name.toList) :
    Text.isBlank c = false := by
  rcases h.2 c hc with hc | rfl | rfl
  · have range := toNat_of_isAlphanum hc
    simp [Text.isBlank, Text.blankRanges]
    omega
  · decide
  · decide

/-- The key of a variable has no blanks, so none is lost when it is trimmed. -/
theorem isBlank_key (hservice : IsName service) (hname : IsName name) :
    ∀ c ∈ service.toList ++ '.' :: name.toList, Text.isBlank c = false := by
  intro c hc
  rcases List.mem_append.1 hc with hc | hc
  · exact hservice.isBlank_eq_false hc
  · rcases List.mem_cons.1 hc with rfl | hc
    · decide
    · exact hname.isBlank_eq_false hc

theorem readAssignment_eq_assignment_iff {cs : List Char} :
    readAssignment cs = .assignment service name value ↔
      ∃ key rest, Text.splitAtFirst? '=' cs = some (key, rest) ∧
        Text.splitAtFirst? '.' (Text.trim key) = some (service.toList, name.toList) ∧
        IsName service ∧ IsName name ∧ Text.trim rest = value.toList := by
  rw [readAssignment]
  cases hcs : Text.splitAtFirst? '=' cs with
  | none => simp
  | some p =>
    obtain ⟨key, rest⟩ := p
    cases hkey : Text.splitAtFirst? '.' (Text.trim key) with
    | none => simp [hkey]
    | some q =>
      obtain ⟨s, n⟩ := q
      simp only [hkey, ← isName_toList, Option.some.injEq, Prod.mk.injEq]
      constructor
      · intro h
        split at h
        next hnames =>
          simp only [Line.assignment.injEq, String.ofList_eq] at h
          obtain ⟨rfl, rfl, hvalue⟩ := h
          rw [Bool.and_eq_true] at hnames
          exact ⟨key, rest, ⟨rfl, rfl⟩, by simp [hkey], hnames.1, hnames.2, hvalue⟩
        next => cases h
      · rintro ⟨_, _, ⟨rfl, rfl⟩, hkey', hservice, hname, hvalue⟩
        rw [hkey, Option.some.injEq, Prod.mk.injEq] at hkey'
        obtain ⟨rfl, rfl⟩ := hkey'
        simp [hservice, hname, hvalue]

theorem readAssignment_ne_nothing (cs : List Char) : readAssignment cs ≠ .nothing := by
  rw [readAssignment]
  split
  · simp
  · split
    · simp
    · split <;> simp

theorem readLine_eq (line : List Char) : readLine line =
    if (Text.trim line).head? = none ∨ (Text.trim line).head? = some '#' then .nothing
    else readAssignment (Text.trim line) := by
  rw [readLine]
  split
  next h => simp [h]
  next h => simp [h]
  next c cs hcomment h =>
    have hc : c ≠ '#' := hcomment
    simp [h, hc]

theorem readLine_eq_nothing_iff : readLine line = .nothing ↔ Says line .nothing := by
  rw [readLine_eq]
  constructor
  · intro h
    split at h
    next hhead =>
      refine ⟨?_, trivial⟩
      obtain ⟨before, after, hbefore, hafter, hline⟩ := Text.exists_gaps_trim line
      rw [hline]
      rcases hhead with hhead | hhead
      · rw [List.head?_eq_none_iff.1 hhead, List.append_nil]
        exact .blank (hbefore.append hafter)
      · obtain ⟨text, htext⟩ := List.head?_eq_some_iff.1 hhead
        rw [htext, List.append_assoc, List.cons_append]
        exact .comment _ hbefore
    next => exact absurd h (readAssignment_ne_nothing _)
  · rintro ⟨hspelled, -⟩
    apply if_pos
    cases hspelled with
    | blank hgap =>
      have empty : Text.trim (line ++ [] ++ []) = [] :=
        Text.trim_of_gaps (by decide) hgap Text.gap_nil
      simp only [List.append_nil] at empty
      simp [empty]
    | @comment gap text hgap =>
      have front : gap.dropWhile Text.isBlank = [] := List.dropWhile_eq_nil_iff.2 hgap
      rw [Text.trim_append_cons (by decide), front]
      simp

/-- A line with an assignment, as it stands after trimming: the gap behind the key is kept, and only
the end of the value is cut. -/
theorem trim_assignment (hservice : IsName service) {before behind : List Char}
    (hbefore : Gap before) (rest : List Char) :
    Text.trim (before ++ (service.toList ++ '.' :: name.toList) ++ behind ++ '=' :: rest) =
      service.toList ++ '.' :: name.toList ++ behind ++ '=' :: rest.rdropWhile Text.isBlank := by
  obtain ⟨c, cs, hcs⟩ := hservice.exists_cons
  have hc : Text.isBlank c = false := hservice.isBlank_eq_false (by simp [hcs])
  have front : (before ++ (service.toList ++ '.' :: name.toList) ++ behind).dropWhile Text.isBlank =
      service.toList ++ '.' :: name.toList ++ behind := by
    rw [List.append_assoc, List.dropWhile_append_of_pos hbefore]
    apply Text.dropWhile_isBlank_eq_self
    simpa [hcs] using hc
  rw [Text.trim_append_cons (by decide), front]

theorem readLine_of_spelled (hservice : IsName service) (hname : IsName name)
    (hvalue : Tight value.toList) (h : (Line.assignment service name value).Spelled line) :
    readLine line = .assignment service name value := by
  cases h with
  | @assignment _ _ _ before behind between after hbefore hbehind hbetween hafter =>
    have key : Text.trim (service.toList ++ '.' :: name.toList ++ behind) =
        service.toList ++ '.' :: name.toList :=
      Text.trim_of_gaps (Text.tight_of_forall (isBlank_key hservice hname)) Text.gap_nil hbehind
    have noEquals : '=' ∉ service.toList ++ '.' :: name.toList ++ behind := by
      have hbehind' : '=' ∉ behind := fun hmem => absurd (hbehind _ hmem) (by decide)
      simp [hservice.notMem, hname.notMem, hbehind']
    rw [readLine_eq, trim_assignment hservice hbefore, if_neg]
    · apply readAssignment_eq_assignment_iff.2
      refine ⟨_, _, Text.splitAtFirst?_append noEquals _, ?_, hservice, hname, ?_⟩
      · rw [key]
        exact Text.splitAtFirst?_append (hservice.notMem (by decide)) _
      · rw [Text.trim_rdropWhile, Text.trim_of_gaps hvalue hbetween hafter]
    · obtain ⟨c, cs, hcs⟩ := hservice.exists_cons
      have hc : c ≠ '#' := by
        rintro rfl
        exact hservice.notMem (by decide) (hcs ▸ List.mem_cons_self)
      simp [hcs, hc]

theorem readLine_eq_assignment_iff : readLine line = .assignment service name value ↔
    Says line (.assignment service name value) := by
  constructor
  · intro h
    rw [readLine_eq] at h
    split at h
    next => cases h
    next =>
      obtain ⟨key, rest, hline, hkey, hservice, hname, hvalue⟩ :=
        readAssignment_eq_assignment_iff.1 h
      obtain ⟨before, after, hbefore, hafter, htrim⟩ := Text.exists_gaps_trim line
      obtain ⟨_, hline⟩ := Text.splitAtFirst?_eq_some_iff.1 hline
      obtain ⟨before', behind, hbefore', hbehind, htrimKey⟩ := Text.exists_gaps_trim key
      obtain ⟨_, hkey⟩ := Text.splitAtFirst?_eq_some_iff.1 hkey
      obtain ⟨between, after', hbetween, hafter', htrimRest⟩ := Text.exists_gaps_trim rest
      refine ⟨?_, hservice, hname, hvalue ▸ Text.tight_trim rest⟩
      -- the gaps at the ends of the line are followed by those at the ends of the key and the value
      have whole : line = (before ++ before') ++ (service.toList ++ '.' :: name.toList) ++ behind ++
          '=' :: (between ++ value.toList ++ (after' ++ after)) := by
        rw [htrim, hline, htrimKey, hkey, htrimRest, hvalue]
        simp
      rw [whole]
      exact .assignment (hbefore.append hbefore') hbehind hbetween (hafter'.append hafter)
  · rintro ⟨hspelled, hservice, hname, hvalue⟩
    exact readLine_of_spelled hservice hname hvalue hspelled

/-- A line is read for what it says. -/
theorem readLine_eq_iff {l : Line} (hl : l ≠ .malformed) : readLine line = l ↔ Says line l := by
  cases l with
  | nothing => exact readLine_eq_nothing_iff
  | assignment service name value => exact readLine_eq_assignment_iff
  | malformed => exact absurd rfl hl

theorem Says.readLine_eq {l : Line} (h : Says line l) : readLine line = l := by
  have hl : l ≠ .malformed := by
    rintro rfl
    exact h.2
  exact (readLine_eq_iff hl).2 h

theorem readLine_eq_malformed_iff : readLine line = .malformed ↔ Malformed line := by
  constructor
  · intro h l hl
    obtain rfl : .malformed = l := h.symm.trans hl.readLine_eq
    exact hl.2
  · intro h
    by_contra hne
    exact h _ ((readLine_eq_iff hne).1 rfl)

end ServiceGraph.Environment
