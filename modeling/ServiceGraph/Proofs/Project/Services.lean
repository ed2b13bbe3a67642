import ServiceGraph.Project.Discover
import ServiceGraph.Proofs.Disk.Locality

namespace ServiceGraph

theorem mapM_eq_ok_iff {ε α β : Type} {f : α → Except ε β} {items : List α} {results : List β} :
    items.mapM f = .ok results ↔ items.map f = results.map .ok := by
  induction items generalizing results with
  | nil => simp [pure, Except.pure, eq_comm]
  | cons a items ih =>
    rw [List.mapM_cons, List.map_cons]
    cases hfa : f a with
    | error e =>
      constructor
      · intro h
        cases h
      · intro h
        cases results <;> simp at h
    | ok b =>
      cases hrest : items.mapM f with
      | error e =>
        constructor
        · intro h
          cases h
        · intro h
          cases results with
          | nil => simp at h
          | cons r rs =>
            have hok := ih.2 (List.cons.inj h).2
            rw [hrest] at hok
            cases hok
      | ok bs =>
        rw [ih.1 hrest, ← List.map_cons]
        constructor
        · intro h
          cases h
          rfl
        · intro h
          have hinj : Function.Injective (Except.ok : β → Except ε β) := fun x y hxy => by
            cases hxy
            rfl
          rw [← List.map_injective_iff.2 hinj h]
          rfl

namespace Disk

variable {d d' : Disk} {place : List String}

theorem directoryName_iff {e : List String × Entry} {name : String} :
    (match e with
      | ([name], .directory) => some name
      | _ => none) = some name ↔ e = ([name], .directory) := by
  constructor
  · intro h
    split at h
    · cases h
      rfl
    · cases h
  · rintro rfl
    rfl

theorem WellFormed.mem_directoryNames_iff (h : d.WellFormed) {name : String} :
    name ∈ d.directoryNames place ↔ d.entry? (place ++ [name]) = some .directory := by
  rw [directoryNames, List.mem_filterMap]
  constructor
  · rintro ⟨e, he, hsome⟩
    obtain rfl := directoryName_iff.1 hsome
    exact (h.mem_below_iff.1 he).2
  · intro hentry
    exact ⟨([name], .directory), h.mem_below_iff.2 ⟨by simp, hentry⟩, rfl⟩

theorem WellFormed.nodup_directoryNames (h : d.WellFormed) (place : List String) :
    (d.directoryNames place).Nodup := by
  refine (h.nodup_below place).filterMap ?_
  intro e e' name he he'
  exact (directoryName_iff.1 he).trans (directoryName_iff.1 he').symm

/-- The directories in a place as services. -/
def servicesAt (d : Disk) (place : List String) : List Service :=
  ((d.directoryNames place).mergeSort fun a b => (compare a b).isLE).map fun name =>
    ⟨name, d.pathOf (place ++ [name])⟩

theorem names_servicesAt (d : Disk) (place : List String) :
    (d.servicesAt place).map (·.name) =
      (d.directoryNames place).mergeSort fun a b => (compare a b).isLE := by
  simp [servicesAt, Function.comp_def]

theorem WellFormed.mem_servicesAt_iff (h : d.WellFormed) {s : Service} :
    s ∈ d.servicesAt place ↔
      s.directory = d.pathOf (place ++ [s.name]) ∧ d.entry? (place ++ [s.name]) = some .directory := by
  have hmem (name : String) : name ∈ ((d.directoryNames place).mergeSort fun a b =>
      (compare a b).isLE) ↔ d.entry? (place ++ [name]) = some .directory :=
    (List.mergeSort_perm _ _).mem_iff.trans h.mem_directoryNames_iff
  rw [servicesAt, List.mem_map]
  constructor
  · rintro ⟨name, hname, rfl⟩
    exact ⟨rfl, (hmem name).1 hname⟩
  · rintro ⟨hdirectory, hentry⟩
    exact ⟨s.name, (hmem s.name).2 hentry, by rw [← hdirectory]⟩

theorem WellFormed.pairwise_servicesAt (h : d.WellFormed) (place : List String) :
    ((d.servicesAt place).map (·.name)).Pairwise (· < ·) := by
  rw [names_servicesAt]
  have hnodup := (List.mergeSort_perm (d.directoryNames place) fun a b =>
    (compare a b).isLE).nodup_iff.2 (h.nodup_directoryNames place)
  refine (pairwise_isLE_mergeSort _).imp₂ ?_ hnodup
  intro a b hle hne
  have hlt : compare a b = .lt := by
    cases hcmp : compare a b with
    | lt => rfl
    | eq => exact absurd (Std.compare_eq_iff_eq.1 hcmp) hne
    | gt =>
      rw [hcmp] at hle
      cases hle
  exact compareOfLessAndEq_eq_lt.1 hlt

theorem WellFormed.servicesAt_eq (h : d.WellFormed) (h' : d'.WellFormed) (same : d.SameAt d' place) :
    d'.servicesAt place = d.servicesAt place := by
  have hnames : (d'.directoryNames place).Perm (d.directoryNames place) :=
    (h.below_perm h' same.below).filterMap _
  rw [servicesAt, servicesAt, mergeSort_eq_of_perm hnames]
  simp only [same.pathOf_eq]

/-- A directory in which only one directory is left is that of one service. -/
theorem WellFormed.servicesAt_only (h : d.WellFormed) {s : Service} (hs : s ∈ d.servicesAt place) :
    (d.only place s.name).servicesAt place = [s] := by
  obtain ⟨hdirectory, hentry⟩ := h.mem_servicesAt_iff.1 hs
  have honly := h.only place s.name
  have hnames : ((d.only place s.name).directoryNames place).Perm [s.name] := by
    apply (List.perm_ext_iff_of_nodup (honly.nodup_directoryNames place)
      (List.nodup_singleton _)).2
    intro name
    rw [honly.mem_directoryNames_iff, List.mem_singleton]
    constructor
    · intro hleft
      exact h.entry?_only_below hleft
    · intro heq
      rw [heq, (h.sameAt_only place s.name).entry?_eq, hentry]
  have hpath : (d.only place s.name).pathOf (place ++ [s.name]) = s.directory := by
    rw [hdirectory]
    rfl
  simp [servicesAt, List.perm_singleton.1 hnames, hpath]

theorem WellFormed.services_eq (h : d.WellFormed) (hplace : d.entry? place = some .directory) :
    ((d.directoryNames place).mergeSort fun a b => (compare a b).isLE).map
      (fun name => (⟨name, Path.join (d.pathOf place) name⟩ : Service)) = d.servicesAt place := by
  have hnames := h.isName (by rw [hplace]; rfl)
  simp only [servicesAt, h.join_pathOf hnames]

theorem subdirectories_eq {path : String} (hlocate : d.locate path = .ok place)
    (hplace : d.entry? place = some .directory) :
    d.subdirectories path = .ok (d.directoryNames place) := by
  rw [subdirectories, hlocate]
  simp only [bind, Except.bind, hplace]
  rfl

/-- The services of a place are found if there are any and the path of the place leads there. -/
theorem WellFormed.findServices_eq_ok_iff (h : d.WellFormed)
    (hplace : d.entry? place = some .directory) {services : List Service} :
    findServices d (d.pathOf place) = .ok services ↔
      d.locate (d.pathOf place) = .ok place ∧ services ≠ [] ∧ services = d.servicesAt place := by
  have hnames := h.isName (by rw [hplace]; rfl)
  cases hlocate : d.locate (d.pathOf place) with
  | error e =>
    rw [findServices, subdirectories, hlocate]
    constructor
    · intro hok
      cases hok
    · intro hok
      cases hok.1
  | ok reached =>
    obtain rfl := locate_pathOf_eq_ok hnames hlocate
    have hservices := h.services_eq hplace
    rw [findServices, subdirectories_eq hlocate hplace]
    cases hdirs : d.directoryNames reached with
    | nil =>
      rw [hdirs] at hservices
      rw [← hservices]
      simp
    | cons name rest =>
      have hne : d.servicesAt reached ≠ [] := by
        intro hnil
        have hlength := congrArg List.length hnil
        simp [servicesAt, hdirs] at hlength
      rw [hdirs] at hservices
      constructor
      · intro hok
        rw [Except.ok.inj hok] at hservices
        rw [hservices]
        exact ⟨rfl, hne, rfl⟩
      · intro ⟨_, _, heq⟩
        rw [heq, ← hservices]

end Disk

end ServiceGraph
