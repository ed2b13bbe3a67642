import ServiceGraph.Project.Sources
import ServiceGraph.Proofs.Disk.Place

namespace ServiceGraph

section Sorting

variable {κ : Type} [Ord κ] [Std.TransOrd κ]

theorem pairwise_isLE_mergeSort (l : List κ) :
    (l.mergeSort fun a b => (compare a b).isLE).Pairwise fun a b => (compare a b).isLE = true := by
  apply List.pairwise_mergeSort
  · intro a b c hab hbc
    exact Std.TransCmp.isLE_trans hab hbc
  · intro a b
    cases hcmp : compare a b with
    | lt => rfl
    | eq => rfl
    | gt =>
      have hlt : compare b a = .lt := Std.OrientedCmp.lt_of_gt hcmp
      simp [hlt]

variable [Std.LawfulEqOrd κ]

theorem eq_of_isLE {a b : κ} (hab : (compare a b).isLE = true) (hba : (compare b a).isLE = true) :
    a = b :=
  Std.compare_eq_iff_eq.1 (Std.OrientedCmp.isLE_antisymm hab hba)

/-- Sorting forgets the order in which things were given. -/
theorem mergeSort_eq_of_perm {l l' : List κ} (h : l.Perm l') :
    (l.mergeSort fun a b => (compare a b).isLE) = l'.mergeSort fun a b => (compare a b).isLE := by
  apply List.Perm.eq_of_pairwise (fun a b _ _ => eq_of_isLE)
  · exact pairwise_isLE_mergeSort l
  · exact pairwise_isLE_mergeSort l'
  · exact (List.mergeSort_perm l _).trans (h.trans (List.mergeSort_perm l' _).symm)

end Sorting

namespace Disk

variable {d d' : Disk} {place : List String}

theorem WellFormed.below_perm (h : d.WellFormed) (h' : d'.WellFormed)
    (hentries : ∀ names, d'.entry? (place ++ names) = d.entry? (place ++ names)) :
    (d'.below place).Perm (d.below place) := by
  apply (List.perm_ext_iff_of_nodup (h'.nodup_below place) (h.nodup_below place)).2
  intro ⟨names, entry⟩
  rw [h'.mem_below_iff, h.mem_below_iff, hentries]

theorem WellFormed.filesByName_eq (h : d.WellFormed) (h' : d'.WellFormed)
    (hentries : ∀ names, d'.entry? (place ++ names) = d.entry? (place ++ names)) :
    d'.filesByName place = d.filesByName place :=
  mergeSort_eq_of_perm ((h.below_perm h' hentries).filterMap _)

theorem WellFormed.isName_of_mem_filesByName (h : d.WellFormed) {names : List String}
    (hmem : names ∈ d.filesByName place) : ∀ name ∈ place ++ names, Path.IsName name := by
  have hbelow := (List.mergeSort_perm _ _).mem_iff.1 hmem
  obtain ⟨⟨names', entry⟩, hmem', hsome⟩ := List.mem_filterMap.1 hbelow
  obtain ⟨_, rfl⟩ : entry.isDirectory = false ∧ names' = names := by simpa using hsome
  have hentry := (h.mem_below_iff.1 hmem').2
  exact h.isName (by rw [hentry]; rfl)

/-- Two disks with the same entries on the way to a place and below it. -/
structure SameAt (d d' : Disk) (place : List String) : Prop where
  root : d'.root = d.root
  entries : ∀ other, other <+: place ∨ place <+: other → d'.entry? other = d.entry? other

namespace SameAt

theorem append (same : d.SameAt d' place) (names : List String) :
    d.SameAt d' (place ++ names) where
  root := same.root
  entries := by
    intro other hother
    apply same.entries
    rcases hother with hother | hother
    · exact List.prefix_or_prefix_of_prefix hother (List.prefix_append place names)
    · exact .inr ((List.prefix_append place names).trans hother)

theorem below (same : d.SameAt d' place) (names : List String) :
    d'.entry? (place ++ names) = d.entry? (place ++ names) :=
  same.entries _ (.inr (List.prefix_append place names))

theorem pathOf_eq (same : d.SameAt d' place) (other : List String) :
    d'.pathOf other = d.pathOf other := by
  rw [Disk.pathOf, Disk.pathOf, same.root]

theorem enter_eq (same : d.SameAt d' place) {start : List String} {name : String}
    (hway : start ++ [name] <+: place) : d'.enter start name = d.enter start name := by
  have hstart : start <+: place := (List.prefix_append _ _).trans hway
  rw [enter, enter, same.entries _ (.inl hstart), same.entries _ (.inl hway)]

/-- The way to the place is the same on both disks, step by step. -/
theorem foldlM_enter_eq (same : d.SameAt d' place) {start names : List String}
    (hnames : ∀ name ∈ names, Path.IsName name) (hway : start ++ names <+: place) :
    names.foldlM d'.enter start = names.foldlM d.enter start := by
  induction names generalizing start with
  | nil => rfl
  | cons name names ih =>
    have hrest : start ++ [name] ++ names <+: place := by simpa using hway
    have hstep : start ++ [name] <+: place := (List.prefix_append _ _).trans hrest
    rw [List.foldlM_cons, List.foldlM_cons, same.enter_eq hstep]
    cases hentered : d.enter start name with
    | error e => rfl
    | ok entered =>
      obtain rfl := enter_eq_ok (hnames name List.mem_cons_self) hentered
      exact ih (fun name hn => hnames name (List.mem_cons_of_mem _ hn)) hrest

theorem locate_eq (same : d.SameAt d' place) {way : List String} (hway : way <+: place)
    (hnames : ∀ name ∈ way, Path.IsName name) :
    d'.locate (d.pathOf way) = d.locate (d.pathOf way) := by
  have hsteps : way.foldlM d'.enter [] = way.foldlM d.enter [] := same.foldlM_enter_eq hnames hway
  have hlocate' := locate_pathOf hnames (d := d')
  rw [same.pathOf_eq] at hlocate'
  rw [hlocate', locate_pathOf hnames, hsteps]

theorem entry?_eq (same : d.SameAt d' place) : d'.entry? place = d.entry? place := by
  have hentry := same.below []
  rwa [List.append_nil] at hentry

theorem readText_eq (same : d.SameAt d' place) (hplace : ∀ name ∈ place, Path.IsName name) :
    d'.readText (d.pathOf place) = d.readText (d.pathOf place) := by
  have hfind : d'.find (d.pathOf place) = d.find (d.pathOf place) := by
    rw [find, find, same.locate_eq (List.prefix_refl place) hplace]
    cases hlocate : d.locate (d.pathOf place) with
    | error e => rfl
    | ok reached =>
      obtain rfl := locate_pathOf_eq_ok hplace hlocate
      simp only [bind, Except.bind, same.entry?_eq]
  rw [readText, readText, hfind]

theorem filesBelow_eq (same : d.SameAt d' place) (h : d.WellFormed) (h' : d'.WellFormed)
    (hplace : ∀ name ∈ place, Path.IsName name) :
    d'.filesBelow (d.pathOf place) = d.filesBelow (d.pathOf place) := by
  rw [filesBelow, filesBelow, same.locate_eq (List.prefix_refl place) hplace]
  cases hlocate : d.locate (d.pathOf place) with
  | error e => rfl
  | ok reached =>
    obtain rfl := locate_pathOf_eq_ok hplace hlocate
    simp only [bind, Except.bind, same.entry?_eq, h.filesByName_eq h' same.below]

end SameAt

/-- The paths of files below a place are paths of places. -/
theorem WellFormed.mem_filesBelow (h : d.WellFormed) (hplace : ∀ name ∈ place, Path.IsName name)
    {paths : List String} (hpaths : d.filesBelow (d.pathOf place) = .ok paths) {path : String}
    (hmem : path ∈ paths) :
    ∃ names, (∀ name ∈ place ++ names, Path.IsName name) ∧ path = d.pathOf (place ++ names) := by
  rw [filesBelow] at hpaths
  cases hlocate : d.locate (d.pathOf place) with
  | error e =>
    rw [hlocate] at hpaths
    cases hpaths
  | ok reached =>
    obtain rfl := locate_pathOf_eq_ok hplace hlocate
    rw [hlocate] at hpaths
    simp only [bind, Except.bind] at hpaths
    split at hpaths
    · cases hpaths
      exact ⟨[], by simpa using hplace, by simpa using hmem⟩
    · cases hpaths
      obtain ⟨names, hnames, rfl⟩ := List.mem_map.1 hmem
      have hproper := h.isName_of_mem_filesByName hnames
      exact ⟨names, hproper, h.joinAll_pathOf hproper⟩

theorem SameAt.sources_eq (same : d.SameAt d' place) (h : d.WellFormed) (h' : d'.WellFormed)
    (hplace : ∀ name ∈ place, Path.IsName name) :
    d'.sources (d.pathOf place) = d.sources (d.pathOf place) := by
  rw [sources, sources, same.filesBelow_eq h h' hplace]
  cases hpaths : d.filesBelow (d.pathOf place) with
  | error e => rfl
  | ok paths =>
    apply List.map_congr_left
    intro path hpath
    obtain ⟨names, hnames, rfl⟩ := h.mem_filesBelow hplace hpaths (List.mem_filter.1 hpath).1
    rw [(same.append names).readText_eq hnames]

section Order

variable {entries : List (List String × Entry)}

theorem WellFormed.relisted (h : d.WellFormed) (hperm : entries.Perm d.entries) :
    { d with entries := entries }.WellFormed where
  names e he := h.names e (hperm.mem_iff.1 he)
  places := (hperm.map _).nodup_iff.2 h.places
  root := h.root

theorem WellFormed.entry?_relisted (h : d.WellFormed) (hperm : entries.Perm d.entries)
    (other : List String) :
    Disk.entry? { d with entries := entries } other = d.entry? other := by
  apply Option.ext
  intro entry
  rw [(h.relisted hperm).entry?_eq_some_iff, h.entry?_eq_some_iff, hperm.mem_iff]

theorem WellFormed.sameAt_relisted (h : d.WellFormed) (hperm : entries.Perm d.entries)
    (place : List String) : d.SameAt { d with entries := entries } place :=
  ⟨rfl, fun other _ => h.entry?_relisted hperm other⟩

/-- Every path leads to the same place, whatever the order of the entries. -/
theorem WellFormed.locate_relisted (h : d.WellFormed) (hperm : entries.Perm d.entries)
    (path : String) : { d with entries := entries }.locate path = d.locate path := by
  have henter : { d with entries := entries }.enter = d.enter := by
    funext start name
    rw [enter, enter, h.entry?_relisted hperm, h.entry?_relisted hperm]
  rw [locate, locate, henter]
  rfl

end Order

section Only

/-- Whether a place is left when only one name is left in a directory. -/
def isLeft (place : List String) (name : String) (other : List String) : Bool :=
  !place.isPrefixOf other || other == place || (place ++ [name]).isPrefixOf other

/-- The disk without what is in a directory, except for one name in it. -/
def only (d : Disk) (place : List String) (name : String) : Disk :=
  { d with entries := d.entries.filter fun e => isLeft place name e.1 }

theorem isLeft_iff {name : String} {other : List String} :
    isLeft place name other = true ↔
      ¬place <+: other ∨ other = place ∨ place ++ [name] <+: other := by
  simp [isLeft, or_assoc, ← List.isPrefixOf_iff_prefix]

theorem WellFormed.only (h : d.WellFormed) (place : List String) (name : String) :
    (d.only place name).WellFormed where
  names e he := h.names e (List.mem_filter.1 he).1
  places := h.places.sublist (List.filter_sublist.map _)
  root := h.root

theorem WellFormed.entry?_only_eq_some_iff (h : d.WellFormed) {name : String} {other : List String}
    {entry : Entry} :
    Disk.entry? (d.only place name) other = some entry ↔
      isLeft place name other = true ∧ d.entry? other = some entry := by
  have hnil : isLeft place name [] = true := by
    rw [isLeft_iff]
    cases place with
    | nil => simp
    | cons _ _ => simp
  rw [(h.only place name).entry?_eq_some_iff, h.entry?_eq_some_iff]
  by_cases hother : other = []
  · simp [hother, hnil]
  · simp [hother, Disk.only, and_comm]

theorem WellFormed.sameAt_only (h : d.WellFormed) (place : List String) (name : String) :
    d.SameAt (d.only place name) (place ++ [name]) where
  root := rfl
  entries := by
    intro other hother
    have hleft : isLeft place name other = true := by
      rw [isLeft_iff]
      rcases hother with hother | hother
      · rcases List.prefix_concat_iff.1 hother with rfl | hother
        · exact .inr (.inr (List.prefix_refl _))
        · by_cases hplace : place <+: other
          · exact .inr (.inl (hother.eq_of_length_le hplace.length_le))
          · exact .inl hplace
      · exact .inr (.inr hother)
    apply Option.ext
    intro entry
    rw [h.entry?_only_eq_some_iff, hleft]
    simp

/-- Of the names in the directory only one is left. -/
theorem WellFormed.entry?_only_below (h : d.WellFormed) {name other : String} {entry : Entry}
    (hentry : Disk.entry? (d.only place name) (place ++ [other]) = some entry) : other = name := by
  have hleft := isLeft_iff.1 (h.entry?_only_eq_some_iff.1 hentry).1
  rcases hleft with hleft | hleft | hleft
  · exact absurd (List.prefix_append place [other]) hleft
  · simp at hleft
  · have heq := hleft.eq_of_length (by simp)
    simpa using heq.symm

end Only

end Disk

end ServiceGraph
