import ServiceGraph.Annotations
import ServiceGraph.Proofs.Text.Cuts

namespace ServiceGraph.CallHint

open Text (IsWord LaidOut)

/-- The word that names a kind. -/
def kindWord : CallKind → List Char
  | .client => "client".toList
  | .endpoint => "endpoint".toList

/-- A pair as it stands in a text. -/
def pairText (p : String × String) : List Char := p.1.toList ++ '=' :: p.2.toList

/-- A pair without blanks whose key ends at the first separator. -/
structure IsPair (p : String × String) : Prop where
  key : '=' ∉ p.1.toList ∧ ∀ c ∈ p.1.toList, Text.isBlank c = false
  value : ∀ c ∈ p.2.toList, Text.isBlank c = false

theorem isPair_iff {p : String × String} : IsPair p ↔
    ('=' ∉ p.1.toList ∧ ∀ c ∈ p.1.toList, Text.isBlank c = false) ∧
      ∀ c ∈ p.2.toList, Text.isBlank c = false :=
  ⟨fun h => ⟨h.key, h.value⟩, fun h => ⟨h.1, h.2⟩⟩

instance (p : String × String) : Decidable (IsPair p) :=
  have := List.decidableBAll (Text.isBlank · = false)
  decidable_of_iff _ isPair_iff.symm

theorem isWord_kindWord (kind : CallKind) : IsWord (kindWord kind) := by
  cases kind with
  | client => decide
  | endpoint => decide

theorem kind?_eq_some_iff {word : List Char} {kind : CallKind} :
    kind? word = some kind ↔ word = kindWord kind := by
  have distinct : "client".toList ≠ "endpoint".toList := by decide
  rw [kind?]
  split
  next h =>
    cases kind with
    | client => exact iff_of_true rfl h
    | endpoint => exact iff_of_false nofun fun h' => distinct (h.symm.trans h')
  next hclient =>
    split
    next h =>
      cases kind with
      | client => exact iff_of_false nofun hclient
      | endpoint => exact iff_of_true rfl h
    next hendpoint =>
      cases kind with
      | client => exact iff_of_false nofun hclient
      | endpoint => exact iff_of_false nofun hendpoint

theorem IsPair.isWord {p : String × String} (h : IsPair p) : IsWord (pairText p) := by
  constructor
  · simp [pairText]
  · intro c hc
    rcases List.mem_append.1 hc with hc | hc
    · exact h.key.2 c hc
    · rcases List.mem_cons.1 hc with rfl | hc
      · decide
      · exact h.value c hc

section Pairs

theorem set_eq (a : CallHint) (key value : String) : a.set key.toList value.toList =
    ⟨a.kind, ([(key, value)].lookup "url").or a.url,
      ([(key, value)].lookup "targetSvc").or a.targetService⟩ := by
  have lookup_self : [(key, value)].lookup key = some value := List.lookup_cons_self
  have absent {known : String} (h : key ≠ known) : [(key, value)].lookup known = none := by
    rw [List.lookup_cons, beq_false_of_ne h.symm]
    rfl
  rw [set]
  simp only [String.toList_inj, String.ofList_toList]
  split
  next hurl =>
    have hservice : key ≠ "targetSvc" := by
      rw [hurl]
      decide
    rw [absent hservice, ← hurl, lookup_self]
    rfl
  next hurl =>
    rw [absent hurl]
    split
    next hservice =>
      rw [← hservice, lookup_self]
      rfl
    next hservice =>
      rw [absent hservice]
      rfl

theorem readPairs_pair {key : List Char} (hkey : '=' ∉ key) (a : CallHint) (value : List Char)
    (rest : List (List Char)) :
    readPairs a ((key ++ '=' :: value) :: rest) = readPairs (a.set key value) rest := by
  rw [readPairs, Text.splitAtFirst?_append hkey]

/-- Pairs are taken over from left to right, so the last value of a key stays. -/
theorem readPairs_pairs {pairs : List (String × String)} (h : ∀ p ∈ pairs, IsPair p)
    (a : CallHint) : readPairs a (pairs.map pairText) =
      .ok ⟨a.kind, (pairs.reverse.lookup "url").or a.url,
        (pairs.reverse.lookup "targetSvc").or a.targetService⟩ := by
  induction pairs generalizing a with
  | nil => rfl
  | cons p pairs ih =>
    rw [List.map_cons, pairText, readPairs_pair (h p List.mem_cons_self).key.1,
      ih (fun q hq => h q (List.mem_cons_of_mem _ hq)), set_eq, List.reverse_cons,
      List.lookup_append, List.lookup_append, Option.or_assoc, Option.or_assoc]

theorem readPairs_malformed {before : List (List Char)} (hbefore : ∀ w ∈ before, '=' ∈ w)
    {word : List Char} (hword : '=' ∉ word) (after : List (List Char)) (a : CallHint) :
    readPairs a (before ++ word :: after) = .error (.malformedPair (String.ofList word)) := by
  induction before generalizing a with
  | nil => rw [List.nil_append, readPairs, Text.splitAtFirst?_eq_none_iff.2 hword]
  | cons w before ih =>
    rw [List.cons_append, readPairs]
    cases hsplit : Text.splitAtFirst? '=' w with
    | none => exact absurd (hbefore w List.mem_cons_self) (Text.splitAtFirst?_eq_none_iff.1 hsplit)
    | some p => exact ih (fun x hx => hbefore x (List.mem_cons_of_mem _ hx)) (a.set p.1 p.2)

end Pairs

section Layouts

variable {first text : List Char} {others : List (List Char)}

theorem parse_eq_readPairs {kind : CallKind} (hothers : ∀ w ∈ others, IsWord w)
    (h : LaidOut (kindWord kind) others text) :
    parse text = readPairs ⟨kind, none, none⟩ others := by
  rw [parse, Text.words_laidOut (isWord_kindWord kind) hothers h]
  dsimp only
  rw [kind?_eq_some_iff.2 rfl]

theorem parse_eq_unknownKind (hwords : ∀ w ∈ first :: others, IsWord w)
    (hfirst : ∀ kind, first ≠ kindWord kind) (h : LaidOut first others text) :
    parse text = .error (.unknownKind (String.ofList first)) := by
  have none : kind? first = none := by
    rw [Option.eq_none_iff_forall_ne_some]
    intro kind hkind
    exact hfirst kind (kind?_eq_some_iff.1 hkind)
  rw [List.forall_mem_cons] at hwords
  rw [parse, Text.words_laidOut hwords.1 hwords.2 h]
  dsimp only
  rw [none]

/-- However the words of an annotation are laid out, pairs after its kind give it the last value of
each key that is known, the first word after its kind that is no pair is the fault, and so is a
first word that names no kind, whatever comes after it. -/
theorem parse_laidOut :
    (∀ (kind : CallKind) (pairs : List (String × String)) (text : List Char),
      (∀ p ∈ pairs, IsPair p) → LaidOut (kindWord kind) (pairs.map pairText) text →
      parse text = .ok
        ⟨kind, pairs.reverse.lookup "url", pairs.reverse.lookup "targetSvc"⟩) ∧
    (∀ (kind : CallKind) (before : List (List Char)) (word : List Char)
      (after : List (List Char)) (text : List Char),
      (∀ w ∈ before ++ word :: after, IsWord w) → (∀ w ∈ before, '=' ∈ w) → '=' ∉ word →
      LaidOut (kindWord kind) (before ++ word :: after) text →
      parse text = .error (.malformedPair (String.ofList word))) ∧
    ∀ (first : List Char) (others : List (List Char)) (text : List Char),
      (∀ w ∈ first :: others, IsWord w) → (∀ kind, first ≠ kindWord kind) →
      LaidOut first others text → parse text = .error (.unknownKind (String.ofList first)) := by
  refine ⟨?_, ?_, ?_⟩
  · intro kind pairs text hpairs h
    have hwords : ∀ w ∈ pairs.map pairText, IsWord w := by
      intro w hw
      obtain ⟨p, hp, rfl⟩ := List.mem_map.1 hw
      exact (hpairs p hp).isWord
    rw [parse_eq_readPairs hwords h, readPairs_pairs hpairs, Option.or_none, Option.or_none]
  · intro kind before word after text hwords hbefore hword h
    rw [parse_eq_readPairs hwords h, readPairs_malformed hbefore hword]
  · intro first others text hwords hfirst h
    exact parse_eq_unknownKind hwords hfirst h

/-- Pairs with repeated, empty and unknown keys. -/
def chargePairs : List (String × String) :=
  [("url", "/a"), ("", "x"), ("targetSvc", "b=c"), ("url", "/?q=1"), ("Url", "")]

theorem charge_laidOut :
    parse "\u3000client\t\nurl=/a =x  targetSvc=b=c\u2028url=/?q=1 Url= ".toList =
      .ok ⟨.client, some "/?q=1", some "b=c"⟩ ∧
    parse "endpoint url=/a /b c url=/d".toList = .error (.malformedPair "/b") ∧
    parse "\tclients url".toList = .error (.unknownKind "clients") := by
  have space : Text.Gap [' '] ∧ [' '] ≠ [] := by decide
  obtain ⟨pairs, malformed, unknown⟩ := parse_laidOut
  refine ⟨?_, ?_, ?_⟩
  · apply pairs .client chargePairs _ (by decide)
    refine ⟨"\u3000".toList, _, by decide,
      @Text.Spaced.cons "\t\n".toList _ _ _ (by decide) (by decide) <|
      .cons space.1 space.2 <|
      @Text.Spaced.cons "  ".toList _ _ _ (by decide) (by decide) <|
      @Text.Spaced.cons "\u2028".toList _ _ _ (by decide) (by decide) <|
      .cons space.1 space.2 (.nil space.1), by decide⟩
  · apply malformed .endpoint ["url=/a".toList] "/b".toList ["c".toList, "url=/d".toList] _
      (by decide) (by decide) (by decide)
    exact ⟨[], _, Text.gap_nil, .cons space.1 space.2 <| .cons space.1 space.2 <|
      .cons space.1 space.2 <| .cons space.1 space.2 <| .nil Text.gap_nil, by decide⟩
  · apply unknown "clients".toList ["url".toList] _ (by decide)
      (fun kind => by cases kind <;> decide)
    exact ⟨"\t".toList, _, by decide, .cons space.1 space.2 <| .nil Text.gap_nil, by decide⟩

end Layouts

end ServiceGraph.CallHint
