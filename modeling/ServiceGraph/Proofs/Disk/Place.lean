import Mathlib.Data.List.Nodup
import ServiceGraph.Disk.Basic
import ServiceGraph.Proofs.Text.Cuts

namespace ServiceGraph

theorem Text.dropStart?_eq_some_iff {α : Type} [DecidableEq α] {start cs rest : List α} :
    dropStart? start cs = some rest ↔ cs = start ++ rest := by
  induction start generalizing cs with
  | nil => simp [dropStart?]
  | cons a start ih =>
    cases cs with
    | nil => simp [dropStart?]
    | cons c cs =>
      by_cases hac : a = c
      · simp [dropStart?, hac, ih]
      · have hca : c ≠ a := fun h => hac h.symm
        simp [dropStart?, hac, hca]

namespace Path

/-- What a directory can have in it. -/
structure IsName (name : String) : Prop where
  nonempty : name ≠ ""
  dot : name ≠ "."
  dots : name ≠ ".."
  slash : '/' ∉ name.toList

theorem isName_iff {name : String} :
    IsName name ↔ name ≠ "" ∧ name ≠ "." ∧ name ≠ ".." ∧ '/' ∉ name.toList :=
  ⟨fun h => ⟨h.nonempty, h.dot, h.dots, h.slash⟩, fun h => ⟨h.1, h.2.1, h.2.2.1, h.2.2.2⟩⟩

instance (name : String) : Decidable (IsName name) := decidable_of_iff _ isName_iff.symm

/-- The names of a place as they stand in a path. -/
def spelled (place : List String) : List Char := place.flatMap fun name => '/' :: name.toList

theorem spelled_cons (name : String) (place : List String) :
    spelled (name :: place) = '/' :: (name.toList ++ spelled place) := by
  simp [spelled]

theorem spelled_append (place names : List String) :
    spelled (place ++ names) = spelled place ++ spelled names := by
  simp [spelled]

theorem toList_foldl_slash (place : List String) (start : String) :
    (place.foldl (· ++ "/" ++ ·) start).toList = start.toList ++ spelled place := by
  induction place generalizing start with
  | nil => simp [spelled]
  | cons name place ih =>
    rw [List.foldl_cons, ih, spelled_cons]
    simp [String.toList_append]

theorem pieces_spelled {place : List String} (h : ∀ name ∈ place, IsName name) :
    Text.pieces (· == '/') (spelled place) = [] :: place.map String.toList := by
  induction place with
  | nil => rfl
  | cons name place ih =>
    have hname : ∀ c ∈ name.toList, (c == '/') = false := by
      intro c hc
      have hslash := (h name List.mem_cons_self).slash
      simp only [beq_eq_false_iff_ne]
      rintro rfl
      exact hslash hc
    have hrest := ih fun name hn => h name (List.mem_cons_of_mem _ hn)
    rw [spelled_cons, Text.pieces, Text.pieces_append hname hrest]
    simp

theorem partNames_spelled {place : List String} (h : ∀ name ∈ place, IsName name) :
    partNames (String.ofList (spelled place)) = place := by
  have hfull : ∀ cs ∈ place.map String.toList, (!cs.isEmpty) = true := by
    intro cs hcs
    obtain ⟨name, hname, rfl⟩ := List.mem_map.1 hcs
    simpa using (h name hname).nonempty
  rw [partNames, String.toList_ofList, pieces_spelled h, List.filter_cons]
  simp [List.filter_eq_self.2 hfull, Function.comp_def]

/-- A path of names does not end in a slash. -/
theorem getLast?_spelled (start : List Char) (hstart : start.getLast? ≠ some '/')
    {place : List String} (h : ∀ name ∈ place, IsName name) :
    (start ++ spelled place).getLast? ≠ some '/' := by
  rcases List.eq_nil_or_concat place with rfl | ⟨init, name, rfl⟩
  · simpa [spelled] using hstart
  · have hname : IsName name := h name (by simp)
    have hne : name.toList ≠ [] := by simpa using hname.nonempty
    have hlast : (start ++ spelled (init ++ [name])).getLast? = some (name.toList.getLast hne) := by
      rw [spelled_append, spelled_cons]
      simp [spelled, List.getLast?_append, List.getLast?_cons, List.getLast?_eq_some_getLast hne]
    rw [List.concat_eq_append, hlast]
    intro heq
    have hmem := List.getLast_mem hne
    rw [Option.some.inj heq] at hmem
    exact hname.slash hmem

theorem names_spelled {place : List String} (h : ∀ name ∈ place, IsName name) :
    names (String.ofList (spelled place)) = place := by
  have hlast : endsInSlash (String.ofList (spelled place)) = false := by
    have hne := getLast?_spelled [] (by simp) h
    simpa [endsInSlash] using hne
  simp [names, partNames_spelled h, hlast]

end Path

namespace Disk

/-- The names on a disk are names, each place has one entry, and the path of the topmost directory
can be followed by a slash. -/
structure WellFormed (d : Disk) : Prop where
  names : ∀ e ∈ d.entries, ∀ name ∈ e.1, Path.IsName name
  places : (d.entries.map (·.1)).Nodup
  root : Path.endsInSlash d.root = false

section Building

theorem wellFormed_empty {root : String} (h : Path.endsInSlash root = false) :
    (empty root).WellFormed :=
  ⟨by simp [empty], by simp [empty], h⟩

theorem WellFormed.put {d : Disk} (h : d.WellFormed) {place : List String}
    (hplace : ∀ name ∈ place, Path.IsName name) (entry : Entry) : (d.put place entry).WellFormed where
  names := by
    intro e he
    rcases List.mem_cons.1 he with rfl | he
    · exact hplace
    · exact h.names e (List.mem_filter.1 he).1
  places := by
    have hothers : ((d.entries.filter (·.1 != place)).map (·.1)).Nodup :=
      h.places.sublist (List.filter_sublist.map _)
    refine List.nodup_cons.2 ⟨?_, hothers⟩
    intro hmem
    obtain ⟨e, he, heq⟩ := List.mem_map.1 hmem
    have hne := (List.mem_filter.1 he).2
    simp [heq] at hne
  root := h.root

theorem WellFormed.addDirectory {d : Disk} (h : d.WellFormed) {place : List String}
    (hplace : ∀ name ∈ place, Path.IsName name) : (d.addDirectory place).WellFormed := by
  unfold Disk.addDirectory
  induction List.range place.length generalizing d with
  | nil => exact h
  | cons n rest ih =>
    exact ih (h.put (fun name hname => hplace name (List.mem_of_mem_take hname)) .directory)

theorem WellFormed.addFile {d : Disk} (h : d.WellFormed) {place : List String}
    (hplace : ∀ name ∈ place, Path.IsName name) (content : ByteArray) (mode : Nat) :
    (d.addFile place content mode).WellFormed :=
  (h.addDirectory fun name hname => hplace name (List.dropLast_subset _ hname)).put hplace _

end Building

variable {d : Disk} {place : List String}

theorem WellFormed.lookup_eq_some_iff (h : d.WellFormed) {entry : Entry} :
    d.entries.lookup place = some entry ↔ (place, entry) ∈ d.entries := by
  rw [List.lookup_eq_some_iff]
  constructor
  · rintro ⟨before, after, heq, _⟩
    simp [heq]
  · intro hmem
    obtain ⟨before, after, heq⟩ := List.append_of_mem hmem
    refine ⟨before, after, heq, ?_⟩
    intro e he
    have hnodup := h.places
    rw [heq, List.map_append, List.nodup_append] at hnodup
    have hne := hnodup.2.2 e.1 (List.mem_map_of_mem he) place (by simp)
    simpa using hne.symm

theorem WellFormed.entry?_eq_some_iff (h : d.WellFormed) {entry : Entry} :
    d.entry? place = some entry ↔
      place = [] ∧ entry = .directory ∨ place ≠ [] ∧ (place, entry) ∈ d.entries := by
  unfold entry?
  by_cases hplace : place = []
  · simp [hplace, eq_comm]
  · simp [hplace, h.lookup_eq_some_iff]

/-- What is below a place, entry by entry. -/
theorem below_entry_iff {e : List String × Entry} {names : List String} {entry : Entry} :
    ((Text.dropStart? place e.1).bind fun names =>
      if names.isEmpty then none else some (names, e.2)) = some (names, entry) ↔
      names ≠ [] ∧ e = (place ++ names, entry) := by
  rw [Option.bind_eq_some_iff]
  constructor
  · rintro ⟨rest, hrest, hsome⟩
    split at hsome
    next => cases hsome
    next hempty =>
      cases hsome
      exact ⟨by simpa using hempty, Prod.ext (Text.dropStart?_eq_some_iff.1 hrest) rfl⟩
  · rintro ⟨hne, rfl⟩
    exact ⟨names, Text.dropStart?_eq_some_iff.2 rfl, by simp [hne]⟩

theorem WellFormed.mem_below_iff (h : d.WellFormed) {names : List String} {entry : Entry} :
    (names, entry) ∈ d.below place ↔ names ≠ [] ∧ d.entry? (place ++ names) = some entry := by
  simp only [below, List.mem_filterMap, below_entry_iff]
  rw [h.entry?_eq_some_iff]
  constructor
  · rintro ⟨e, he, hne, rfl⟩
    exact ⟨hne, .inr ⟨by simp [hne], he⟩⟩
  · rintro ⟨hne, ⟨hnil, _⟩ | ⟨_, hmem⟩⟩
    · simp [hne] at hnil
    · exact ⟨_, hmem, hne, rfl⟩

theorem WellFormed.nodup_below (h : d.WellFormed) (place : List String) :
    (d.below place).Nodup := by
  refine (List.Nodup.of_map _ h.places).filterMap ?_
  rintro e e' ⟨names, entry⟩ he he'
  exact (below_entry_iff.1 he).2.trans (below_entry_iff.1 he').2.symm

/-- The names that lead to something are names. -/
theorem WellFormed.isName (h : d.WellFormed) (hplace : (d.entry? place).isSome) :
    ∀ name ∈ place, Path.IsName name := by
  obtain ⟨entry, hentry⟩ := Option.isSome_iff_exists.1 hplace
  rcases h.entry?_eq_some_iff.1 hentry with ⟨rfl, _⟩ | ⟨_, hmem⟩
  · simp
  · exact h.names _ hmem

theorem pathOf_top (hroot : d.root = "") : d.pathOf [] = "/" := by
  simp [pathOf, hroot]

theorem pathOf_eq (hne : d.root ≠ "" ∨ place ≠ []) :
    d.pathOf place = place.foldl (· ++ "/" ++ ·) d.root := by
  have hif : (d.root.isEmpty && place.isEmpty) = false := by
    rcases hne with hne | hne <;> simp [hne]
  rw [pathOf, hif, if_neg Bool.false_ne_true]

theorem toList_pathOf (hne : d.root ≠ "" ∨ place ≠ []) :
    (d.pathOf place).toList = d.root.toList ++ Path.spelled place := by
  rw [pathOf_eq hne, Path.toList_foldl_slash]

theorem pathOf_ne_empty (d : Disk) (place : List String) : d.pathOf place ≠ "" := by
  by_cases hne : d.root ≠ "" ∨ place ≠ []
  · intro hempty
    have hchars := toList_pathOf hne
    rw [hempty] at hchars
    rcases hne with hroot | hplace
    · have hnil := (List.append_eq_nil_iff.1 hchars.symm).1
      exact hroot (by simpa using hnil)
    · obtain ⟨name, rest, rfl⟩ := List.exists_cons_of_ne_nil hplace
      simp [Path.spelled_cons] at hchars
  · obtain ⟨hroot, rfl⟩ : d.root = "" ∧ place = [] := by simpa using hne
    simp [pathOf_top hroot]

/-- The path of a name in a place is that of the place below it. -/
theorem WellFormed.join_pathOf (h : d.WellFormed) (hplace : ∀ name ∈ place, Path.IsName name)
    (name : String) : Path.join (d.pathOf place) name = d.pathOf (place ++ [name]) := by
  by_cases hne : d.root ≠ "" ∨ place ≠ []
  · have hroot : d.root.toList.getLast? ≠ some '/' := by simpa [Path.endsInSlash] using h.root
    have hlast := Path.getLast?_spelled _ hroot hplace
    rw [← toList_pathOf hne] at hlast
    have hbelow : d.pathOf (place ++ [name]) = d.pathOf place ++ "/" ++ name := by
      rw [pathOf_eq (.inr (by simp)), pathOf_eq hne]
      simp
    rw [hbelow, Path.join]
    split
    next hnone => simp [d.pathOf_ne_empty place] at hnone
    next c hc =>
      have hslash : c ≠ '/' := fun heq => hlast (heq ▸ hc)
      rw [if_neg hslash]
  · obtain ⟨hroot, rfl⟩ : d.root = "" ∧ place = [] := by simpa using hne
    rw [pathOf_top hroot, pathOf_eq (.inr (by simp)), hroot]
    simp [Path.join]

theorem WellFormed.joinAll_pathOf (h : d.WellFormed) {names : List String}
    (hplace : ∀ name ∈ place ++ names, Path.IsName name) :
    Path.joinAll (d.pathOf place) names = d.pathOf (place ++ names) := by
  induction names generalizing place with
  | nil => simp [Path.joinAll]
  | cons name names ih =>
    have hhead : ∀ name ∈ place, Path.IsName name := fun name hname => hplace name (by simp [hname])
    have hrest := @ih (place ++ [name]) (by simpa using hplace)
    rw [Path.joinAll, List.foldl_cons, h.join_pathOf hhead]
    simpa [Path.joinAll] using hrest

theorem enter_eq_ok {name : String} (hname : Path.IsName name) {reached : List String}
    (h : d.enter place name = .ok reached) : reached = place ++ [name] := by
  unfold enter at h
  rw [if_neg hname.dot, if_neg hname.dots] at h
  split at h
  · cases h
  · cases h
  · split at h
    · cases h
    · split at h
      · cases h
        rfl
      · cases h

/-- Going on by names leads below the place where it starts. -/
theorem foldlM_enter_eq_ok {names : List String} (hnames : ∀ name ∈ names, Path.IsName name)
    {reached : List String} (h : names.foldlM d.enter place = .ok reached) :
    reached = place ++ names := by
  induction names generalizing place with
  | nil =>
    cases h
    simp
  | cons name names ih =>
    rw [List.foldlM_cons] at h
    cases hentered : d.enter place name with
    | error e =>
      rw [hentered] at h
      cases h
    | ok entered =>
      rw [hentered] at h
      have hreached := ih (fun name hn => hnames name (List.mem_cons_of_mem _ hn)) h
      rw [hreached, enter_eq_ok (hnames name List.mem_cons_self) hentered]
      simp

theorem startOf_pathOf (hne : d.root ≠ "" ∨ place ≠ []) :
    d.startOf (d.pathOf place) = ([], String.ofList (Path.spelled place)) := by
  have hrest : Text.dropStart? d.root.toList (d.pathOf place).toList = some (Path.spelled place) :=
    Text.dropStart?_eq_some_iff.2 (toList_pathOf hne)
  rw [startOf, hrest]
  cases place with
  | nil => rfl
  | cons name rest =>
    rw [Path.spelled_cons]
    rfl

/-- The path of a place is followed from the topmost directory, name by name. -/
theorem locate_pathOf (hplace : ∀ name ∈ place, Path.IsName name) :
    d.locate (d.pathOf place) =
      if Path.isBad (d.pathOf place) then .error .badName
      else if Path.isOverlong (d.pathOf place) then .error .nameTooLong
      else place.foldlM d.enter [] := by
  have hfull : (d.pathOf place).isEmpty = false := by simp [d.pathOf_ne_empty place]
  have hways : (Path.names (d.startOf (d.pathOf place)).2).foldlM d.enter
      (d.startOf (d.pathOf place)).1 = place.foldlM d.enter [] := by
    by_cases hne : d.root ≠ "" ∨ place ≠ []
    · rw [startOf_pathOf hne, Path.names_spelled hplace]
    · obtain ⟨hroot, rfl⟩ : d.root = "" ∧ place = [] := by simpa using hne
      -- the path of the topmost directory is a slash, which stays where it is
      have hstart : d.startOf (d.pathOf []) = ([], "/") := by
        rw [pathOf_top hroot, startOf, hroot]
        rfl
      rw [hstart]
      rfl
  rw [locate, hfull, if_neg Bool.false_ne_true]
  simp only [hways]

theorem locate_pathOf_eq_ok (hplace : ∀ name ∈ place, Path.IsName name) {reached : List String}
    (h : d.locate (d.pathOf place) = .ok reached) : reached = place := by
  rw [locate_pathOf hplace] at h
  split at h
  · cases h
  · split at h
    · cases h
    · exact foldlM_enter_eq_ok hplace h

end Disk

end ServiceGraph
