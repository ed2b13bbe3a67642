import ServiceGraph.Proofs.Environment.Reading

namespace ServiceGraph.Environment

open Text (Tight gap_nil)

/-- All assignments of an environment. -/
def assignments (env : Environment) : List Line :=
  env.entries.flatMap fun e => e.2.entries.map fun v => .assignment e.1 v.1 v.2

/-- An environment that a text can hold: names are names, every service has a variable, and values
stay on their line and have no blanks at their ends. -/
structure Storable (env : Environment) : Prop where
  services : ∀ e ∈ env.entries, IsName e.1 ∧ e.2 ≠ .empty
  values : ∀ e ∈ env.entries, ∀ v ∈ e.2.entries,
    IsName v.1 ∧ '\n' ∉ v.2.toList ∧ Tight v.2.toList

/-- A text with one line for each variable, in any order. The other lines are blank or comments, and
an empty text has one blank line. -/
def Listing (env : Environment) (text : List Char) : Prop :=
  ∃ lines : List (Line × List Char), lines ≠ [] ∧
    (∀ l ∈ lines, l.1.Spelled l.2 ∧ '\n' ∉ l.2) ∧
    ((lines.map (·.1)).filter (· ≠ .nothing)).Perm env.assignments ∧
    text = ['\n'].intercalate (lines.map (·.2))

variable {env : Environment} {service name value : String} {text : List Char}

theorem mem_assignments_iff : .assignment service name value ∈ env.assignments ↔
    env.get? service name = some value := by
  rw [get?_eq_bind, Option.bind_eq_some_iff]
  simp only [Dict.get?_eq_some_iff]
  simp [assignments]

theorem Storable.populated (h : Storable env) : Populated env :=
  fun _ _ hvars => (h.services _ (Dict.get?_eq_some_iff.1 hvars)).2

theorem Storable.assigned (h : Storable env) {l : Line} (hl : l ∈ env.assignments) :
    ∃ service name value, l = .assignment service name value ∧ IsName service ∧ IsName name ∧
      '\n' ∉ value.toList ∧ Tight value.toList := by
  obtain ⟨e, he, hl⟩ := List.mem_flatMap.1 hl
  obtain ⟨v, hv, rfl⟩ := List.mem_map.1 hl
  exact ⟨e.1, v.1, v.2, rfl, (h.services e he).1, h.values e he v hv⟩

theorem Storable.valid (h : Storable env) {l : Line} (hl : l ∈ env.assignments) : l.Valid := by
  obtain ⟨service, name, value, rfl, hservice, hname, -, hvalue⟩ := h.assigned hl
  exact ⟨hservice, hname, hvalue⟩

/-- A text is read as the environment whose variables its lines set. -/
theorem parse_eq_of_lines (hpopulated : Populated env)
    (hgood : ∀ l ∈ Text.lines text, ¬Malformed l)
    (hset : ∀ service name value,
      (∃ l ∈ Text.lines text, Says l (.assignment service name value)) ↔
        env.get? service name = some value) :
    parse text = .ok env := by
  obtain ⟨read, parsed⟩ : ∃ read, parse text = .ok read :=
    ⟨_, parse_eq_ok_iff.2 ⟨hgood, rfl⟩⟩
  rw [parsed, Except.ok.injEq]
  apply (populated_parse parsed).ext hpopulated
  intro service name
  cases hread : read.get? service name with
  | some value =>
    obtain ⟨before, line, after, hlines, hline, -⟩ := (get?_parse_eq_some_iff parsed).1 hread
    exact ((hset service name value).1 ⟨line, by simp [hlines], hline⟩).symm
  | none =>
    apply Eq.symm
    rw [Option.eq_none_iff_forall_ne_some]
    intro value hvalue
    obtain ⟨line, hmem, hline⟩ := (hset service name value).2 hvalue
    rw [get?_parse parsed, List.findSome?_eq_none_iff] at hread
    have silent := hread line (List.mem_reverse.2 hmem)
    rw [Line.value?_eq_some_iff.2 hline.readLine_eq] at silent
    cases silent

theorem Listing.lines_eq (h : Listing env text) (hstorable : Storable env) :
    ∃ lines : List (Line × List Char), Text.lines text = lines.map (·.2) ∧
      (∀ l ∈ lines, Says l.2 l.1) ∧
      ∀ service name value, .assignment service name value ∈ lines.map (·.1) ↔
        env.get? service name = some value := by
  obtain ⟨lines, hne, hlines, hperm, htext⟩ := h
  refine ⟨lines, ?_, ?_, ?_⟩
  · rw [htext]
    apply Text.lines_intercalate
    · simpa using hne
    · simpa using fun line l hl => (hlines (l, line) hl).2
  · intro l hl
    refine ⟨(hlines l hl).1, ?_⟩
    by_cases hnothing : l.1 = .nothing
    · rw [hnothing]
      trivial
    · apply hstorable.valid
      apply hperm.subset
      simpa [hnothing] using ⟨l.2, hl⟩
  · intro service name value
    rw [← mem_assignments_iff, ← hperm.mem_iff]
    simp

/-- An assignment without gaps. -/
def Line.plain : Line → List Char
  | .assignment service name value =>
    (service.toList ++ '.' :: name.toList) ++ '=' :: value.toList
  | _ => []

theorem Line.spelled_plain : (Line.assignment service name value).Spelled
    (Line.assignment service name value).plain := by
  have spelled := @Spelled.assignment service name value _ _ _ _ gap_nil gap_nil gap_nil gap_nil
  simpa [plain] using spelled

theorem IsName.newline_notMem (h : IsName name) : '\n' ∉ name.toList := h.notMem (by decide)

/-- The assignments as they are, with a blank line behind them. -/
theorem Storable.exists_listing (h : Storable env) : ∃ text, Listing env text := by
  refine ⟨_, env.assignments.map (fun l => (l, l.plain)) ++ [(.nothing, [])], by simp, ?_, ?_, rfl⟩
  · intro line hline
    rcases List.mem_append.1 hline with hline | hline
    · obtain ⟨l, hl, rfl⟩ := List.mem_map.1 hline
      obtain ⟨service, name, value, rfl, hservice, hname, hvalue, -⟩ := h.assigned hl
      refine ⟨Line.spelled_plain, ?_⟩
      simp [Line.plain, hservice.newline_notMem, hname.newline_notMem, hvalue]
    · obtain rfl := List.mem_singleton.1 hline
      exact ⟨.blank gap_nil, List.not_mem_nil⟩
  · have kept : env.assignments.filter (· ≠ .nothing) = env.assignments := by
      rw [List.filter_eq_self]
      intro l hl
      obtain ⟨service, name, value, rfl, -⟩ := h.assigned hl
      rfl
    rw [List.map_append, List.map_map, List.filter_append]
    simpa [Function.comp_def] using List.Perm.of_eq kept

theorem Listing.parse_eq (h : Listing env text) (hstorable : Storable env) :
    parse text = .ok env := by
  obtain ⟨lines, hsplit, hlines, hset⟩ := h.lines_eq hstorable
  apply parse_eq_of_lines hstorable.populated
  · rw [hsplit]
    intro line hline malformed
    obtain ⟨l, hl, rfl⟩ := List.mem_map.1 hline
    exact malformed l.1 (hlines l hl)
  · intro service name value
    rw [← hset, hsplit]
    constructor
    · rintro ⟨_, hline, hassign⟩
      obtain ⟨l, hl, rfl⟩ := List.mem_map.1 hline
      have same : l.1 = .assignment service name value :=
        (hlines l hl).readLine_eq.symm.trans hassign.readLine_eq
      exact List.mem_map.2 ⟨l, hl, same⟩
    · intro hmem
      obtain ⟨l, hl, hassign⟩ := List.mem_map.1 hmem
      exact ⟨l.2, List.mem_map_of_mem hl, hassign ▸ hlines l hl⟩

/-- An environment that can be stored has a listing, and is read back from each of them. -/
theorem parse_listing (h : Storable env) :
    (∃ text, Listing env text) ∧ ∀ text, Listing env text → parse text = .ok env :=
  ⟨h.exists_listing, fun _ hlisting => hlisting.parse_eq h⟩

/-- Variables whose values have blanks and separators in them, or are empty. -/
def shopVariables : Environment :=
  ((Environment.set .empty "pay" "URL" "/?k=v#f.x").set "pay" "NONE" "").set
    "stock-2" "m_1" "a\u3000 b"

def shopListing : List Char :=
  "\t# pay\n stock-2.m_1 = a\u3000 b\u00a0\r\n\npay.NONE=\r\npay.URL=/?k=v#f.x\n \n".toList

theorem shopListing_parsed : Storable shopVariables ∧ Listing shopVariables shopListing ∧
    parse shopListing = .ok shopVariables := by
  have storable : Storable shopVariables := ⟨by decide, by decide⟩
  have listing : Listing shopVariables shopListing := by
    refine ⟨[(.nothing, "\t".toList ++ '#' :: " pay".toList),
      (.assignment "stock-2" "m_1" "a\u3000 b",
        " ".toList ++ ("stock-2".toList ++ '.' :: "m_1".toList) ++ " ".toList ++
          '=' :: (" ".toList ++ "a\u3000 b".toList ++ "\u00a0\r".toList)),
      (.nothing, []),
      (.assignment "pay" "NONE" "",
        [] ++ ("pay".toList ++ '.' :: "NONE".toList) ++ [] ++
          '=' :: ([] ++ "".toList ++ "\r".toList)),
      (.assignment "pay" "URL" "/?k=v#f.x",
        [] ++ ("pay".toList ++ '.' :: "URL".toList) ++ [] ++
          '=' :: ([] ++ "/?k=v#f.x".toList ++ [])),
      (.nothing, " ".toList), (.nothing, [])], by simp, ?_, by decide, by decide⟩
    simp only [List.forall_mem_cons]
    refine ⟨⟨.comment _ (by decide), by decide⟩,
      ⟨.assignment (by decide) (by decide) (by decide) (by decide), by decide⟩,
      ⟨.blank (by decide), by decide⟩,
      ⟨.assignment (by decide) (by decide) (by decide) (by decide), by decide⟩,
      ⟨.assignment (by decide) (by decide) (by decide) (by decide), by decide⟩,
      ⟨.blank (by decide), by decide⟩, ⟨.blank (by decide), by decide⟩, by simp⟩
  exact ⟨storable, listing, (parse_listing storable).2 _ listing⟩

end ServiceGraph.Environment
