import Mathlib.Logic.Relation
import ServiceGraph.Proofs.Project.Services
import ServiceGraph.Proofs.Walk.FirstFindings

namespace ServiceGraph

section Slots

variable {α β : Type} {work : α → Option β} {items : List α} {slots slots' : List (Option β)}

/-- The work on one of the items comes to its end. Work that never ends gives nothing. -/
inductive Finishes (work : α → Option β) (items : List α) :
    List (Option β) → List (Option β) → Prop where
  | item {slots : List (Option β)} {i : Nat} {a : α} {b : β} :
      items[i]? = some a → slots[i]? = some none → work a = some b →
        Finishes work items slots (slots.set i (some b))

/-- The work on all items has come to its end, in whatever order. -/
def Finished (work : α → Option β) (items : List α) (results : List β) : Prop :=
  Relation.ReflTransGen (Finishes work items) (items.map fun _ => none) (results.map some)

/-- What stands in a slot is the result of its item. -/
structure Filled (work : α → Option β) (items : List α) (slots : List (Option β)) : Prop where
  length : slots.length = items.length
  result : ∀ (i : Nat) (a : α) (b : β), items[i]? = some a → slots[i]? = some (some b) →
    work a = some b

theorem filled_start (work : α → Option β) (items : List α) :
    Filled work items (items.map fun _ => none) where
  length := by simp
  result := by
    intro i a b hitem hslot
    rw [List.getElem?_map, hitem] at hslot
    cases hslot

theorem Filled.step (h : Filled work items slots) (hstep : Finishes work items slots slots') :
    Filled work items slots' := by
  cases hstep with
  | @item i a b hitem hopen hwork =>
    constructor
    · rw [List.length_set, h.length]
    · intro j c d hc hd
      rw [List.getElem?_set] at hd
      split at hd
      next hij =>
        have hlt : i < slots.length := (List.getElem?_eq_some_iff.1 hopen).1
        subst hij
        rw [if_pos hlt] at hd
        rw [hitem] at hc
        cases hd
        cases hc
        exact hwork
      next => exact h.result j c d hc hd

theorem Filled.run (h : Filled work items slots)
    (hrun : Relation.ReflTransGen (Finishes work items) slots slots') :
    Filled work items slots' := by
  induction hrun with
  | refl => exact h
  | tail _ hstep ih => exact ih.step hstep

theorem Filled.map_eq {results : List β} (h : Filled work items (results.map some)) :
    items.map work = results.map some := by
  have hlength : results.length = items.length := by simpa using h.length
  apply List.ext_getElem
  · simpa using hlength.symm
  · intro i hi hi'
    rw [List.getElem_map, List.getElem_map]
    rw [List.length_map] at hi hi'
    apply h.result i
    · exact List.getElem?_eq_getElem hi
    · simp [hi']

/-- From the left on, one item after the other. -/
theorem finishes_in_order {ended waiting : List α} {ready rest : List β}
    (hready : ready.length = ended.length) (hrest : waiting.map work = rest.map some) :
    Relation.ReflTransGen (Finishes work (ended ++ waiting))
      (ready.map some ++ waiting.map fun _ => none) ((ready ++ rest).map some) := by
  induction waiting generalizing ended ready rest with
  | nil =>
    cases rest with
    | nil => simpa using Relation.ReflTransGen.refl
    | cons b rest => cases hrest
  | cons a waiting ih =>
    cases rest with
    | nil => cases hrest
    | cons b rest =>
      obtain ⟨hwork, hrest⟩ := List.cons.inj hrest
      have hlater := @ih (ended ++ [a]) (ready ++ [b]) rest (by simp [hready]) hrest
      have hstep : Finishes work (ended ++ a :: waiting)
          (ready.map some ++ (a :: waiting).map fun _ => none)
          ((ready ++ [b]).map some ++ waiting.map fun _ => none) := by
        have hitem := @Finishes.item α β work (ended ++ a :: waiting)
          (ready.map some ++ (a :: waiting).map fun _ => none) ready.length a b
          (by simp [hready]) (by simp) hwork
        simpa using hitem
      rw [List.append_assoc, List.append_assoc, List.singleton_append, List.singleton_append]
        at hlater
      exact hlater.head hstep

/-- In whatever order the work on the items ends, the results stand in the order of the items. -/
theorem finished_iff {results : List β} :
    Finished work items results ↔ items.map work = results.map some := by
  constructor
  · intro h
    exact ((filled_start work items).run h).map_eq
  · intro h
    exact @finishes_in_order α β work [] items [] results rfl h

end Slots

/-- What a discovery starts from. -/
structure Layout where
  disk : Disk
  parse : Source.Parser
  loader : Loader
  settings : Settings
  projectPath : String
  servicePath : String

namespace Layout

variable {l : Layout} {found : Discovery}

def discover (l : Layout) : Option (Except ProjectError Discovery) :=
  ServiceGraph.discover l.disk l.parse l.loader l.settings l.projectPath l.servicePath

/-- What comes of a service that is analysed with the annotations in the sources of some services. -/
def analyse (l : Layout) (project : String) (services : List Service) (s : Service) :
    Option (Except ProjectError Discovery) :=
  s.analyse l.disk l.parse l.loader
    (l.settings.withAnnotations (annotationsOf l.disk l.parse services)) project

/-- A run that works on all services at once: first on the annotations in their sources, then on
their programs with the annotations of all. -/
def Runs (l : Layout) (found : Discovery) : Prop :=
  ∃ project directory services scans founds,
    l.disk.directory? l.projectPath = some project ∧
    l.disk.directory? l.servicePath = some directory ∧
    findServices l.disk directory = .ok services ∧
    Finished (fun s => some (s.name, l.disk.collectAnnotations l.parse s.directory)) services scans ∧
    Finished (fun s => s.analyse l.disk l.parse l.loader
      (l.settings.withAnnotations (.ofList scans)) project) services (founds.map .ok) ∧
    found = .concat founds

theorem analyseAll_eq (l : Layout) (project : String) (services : List Service) :
    analyseAll l.disk l.parse l.loader l.settings project services =
      (services.mapM (l.analyse project services)).map fun results =>
        (results.mapM id).map .concat := by
  rw [analyseAll]
  simp only [Option.bind_eq_bind, Option.pure_def]
  exact (Option.map_eq_bind ..).symm

theorem analyseAll_eq_ok_iff {project : String} {services : List Service} :
    analyseAll l.disk l.parse l.loader l.settings project services = some (.ok found) ↔
      ∃ founds : List Discovery,
        services.map (l.analyse project services) = (founds.map .ok).map some ∧
          found = .concat founds := by
  rw [analyseAll_eq, Option.map_eq_some_iff]
  constructor
  · rintro ⟨results, hresults, hfound⟩
    cases hfounds : results.mapM id with
    | error e =>
      rw [hfounds] at hfound
      cases hfound
    | ok founds =>
      rw [hfounds] at hfound
      cases hfound
      refine ⟨founds, ?_, rfl⟩
      rw [← mapM_eq_ok_iff.1 hfounds, List.map_id]
      exact mapM_eq_some_iff.1 hresults
  · rintro ⟨founds, hresults, rfl⟩
    refine ⟨founds.map .ok, mapM_eq_some_iff.2 hresults, ?_⟩
    rw [mapM_eq_ok_iff.2 (List.map_id _)]
    rfl

section Found

variable {project directory : String} {services : List Service}
  (hproject : l.disk.directory? l.projectPath = some project)
  (hdirectory : l.disk.directory? l.servicePath = some directory)
  (hservices : findServices l.disk directory = .ok services)
include hproject hdirectory hservices

theorem discover_eq :
    l.discover = analyseAll l.disk l.parse l.loader l.settings project services := by
  rw [discover, ServiceGraph.discover, hproject, hdirectory]
  simp only [hservices]

end Found

theorem discover_eq_ok_iff :
    l.discover = some (.ok found) ↔ ∃ project directory services,
      l.disk.directory? l.projectPath = some project ∧
      l.disk.directory? l.servicePath = some directory ∧
      findServices l.disk directory = .ok services ∧
      analyseAll l.disk l.parse l.loader l.settings project services = some (.ok found) := by
  constructor
  · intro h
    cases hproject : l.disk.directory? l.projectPath with
    | none => simp [discover, ServiceGraph.discover, hproject] at h
    | some project =>
      cases hdirectory : l.disk.directory? l.servicePath with
      | none => simp [discover, ServiceGraph.discover, hproject, hdirectory] at h
      | some directory =>
        cases hservices : findServices l.disk directory with
        | error e => simp [discover, ServiceGraph.discover, hproject, hdirectory, hservices] at h
        | ok services =>
          rw [discover_eq hproject hdirectory hservices] at h
          exact ⟨project, directory, services, rfl, rfl, hservices, h⟩
  · intro ⟨project, directory, services, hproject, hdirectory, hservices, hall⟩
    rw [discover_eq hproject hdirectory hservices, hall]

/-- All runs end in what is found one service after the other. -/
theorem runs_iff : l.Runs found ↔ l.discover = some (.ok found) := by
  rw [discover_eq_ok_iff]
  simp only [Runs, finished_iff, analyseAll_eq_ok_iff]
  constructor
  · rintro ⟨project, directory, services, scans, founds, hp, hd, hs, hscans, hfounds, heq⟩
    have hscans : scans = services.map fun s =>
        (s.name, l.disk.collectAnnotations l.parse s.directory) := by
      apply List.map_injective_iff.2 fun _ _ => Option.some.inj
      rw [← hscans, List.map_map]
      rfl
    subst hscans
    exact ⟨project, directory, services, hp, hd, hs, founds, hfounds, heq⟩
  · intro ⟨project, directory, services, hp, hd, hs, founds, hfounds, heq⟩
    exact ⟨project, directory, services, _, founds, hp, hd, hs, (List.map_map ..).symm, hfounds, heq⟩

end Layout

end ServiceGraph
