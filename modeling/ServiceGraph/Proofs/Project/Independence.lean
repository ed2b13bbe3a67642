import ServiceGraph.Proofs.Project.Findings
import ServiceGraph.Source.Parse

namespace ServiceGraph

namespace Layout

/-- Two layouts that are the same as far as one service is concerned: in the files on the way to its
directory and below it, in how these are read, in its program, and in what the settings say about
it. -/
structure SameFor (l l' : Layout) (project : String) (place : List String) (s : Service) : Prop where
  disk : l.disk.SameAt l'.disk (place ++ [s.name])
  parse : l'.parse = l.parse
  loader : Loader.SameFor project s.directory l.loader l'.loader
  settings : l.settings.SameFor l'.settings s.name

variable {l l' : Layout} {project : String} {place : List String} {s : Service}

theorem SameFor.refl (l : Layout) (project : String) (place : List String) (s : Service) :
    l.SameFor l project place s :=
  ⟨⟨rfl, fun _ _ => rfl⟩, rfl, .refl _ _ _, .refl _ _⟩

section Service

variable (same : l.SameFor l' project place s) (h : l.disk.WellFormed) (h' : l'.disk.WellFormed)
  (hs : s ∈ l.disk.servicesAt place)

include same h hs

theorem SameFor.load_eq :
    l'.loader.load l'.disk project s.name s.directory =
      l.loader.load l.disk project s.name s.directory := by
  obtain ⟨hdirectory, hentry⟩ := h.mem_servicesAt_iff.1 hs
  have hproper := h.isName (by rw [hentry]; rfl)
  have hname : Path.IsName Loader.dumpName := by decide
  apply same.loader.load_eq
  rw [hdirectory, h.join_pathOf hproper]
  apply (same.disk.append _).readText_eq
  intro name hn
  rcases List.mem_append.1 hn with hn | hn
  · exact hproper name hn
  · rw [List.mem_singleton.1 hn]
    exact hname

include h'

/-- What comes of a service does not depend on the others. -/
theorem SameFor.analyse_eq {services services' : List Service}
    (hnames : (services.map (·.name)).Nodup) (hnames' : (services'.map (·.name)).Nodup)
    (hmem : s ∈ services) (hmem' : s ∈ services') :
    l'.analyse project services' s = l.analyse project services s := by
  obtain ⟨hdirectory, hentry⟩ := h.mem_servicesAt_iff.1 hs
  have hsources : l'.disk.sources s.directory = l.disk.sources s.directory := by
    rw [hdirectory]
    exact same.disk.sources_eq h h' (h.isName (by rw [hentry]; rfl))
  have hcollect : l'.disk.collectAnnotations l'.parse s.directory =
      l.disk.collectAnnotations l.parse s.directory := by
    rw [Disk.collectAnnotations, Disk.collectAnnotations, Disk.hints, Disk.hints, hsources,
      same.parse]
  have hbus : l'.disk.busCalls l'.parse s.name s.directory =
      l.disk.busCalls l.parse s.name s.directory := by
    rw [Disk.busCalls, Disk.busCalls, hsources, same.parse]
  have hsettings := same.settings.withAnnotations hcollect hnames hnames' hmem hmem'
  have hload' := same.load_eq h hs
  cases hload : l.loader.load l.disk project s.name s.directory with
  | error e =>
    rw [hload] at hload'
    rw [analyse, analyse, Service.analyse, Service.analyse, hload, hload']
  | ok program =>
    rw [hload] at hload'
    rw [analyse, analyse, Service.analyse_eq hload, Service.analyse_eq hload',
      Analysis.annotated_congr hsettings, hbus]

end Service

/-- What is found in a service if there are no others. -/
def own (l : Layout) (project : String) (s : Service) : Discovery :=
  match l.analyse project [s] s with
  | some (.ok found) => found
  | _ => .empty

theorem own_eq {found : Discovery} (h : l.analyse project [s] s = some (.ok found)) :
    l.own project s = found := by
  rw [own, h]

theorem SameFor.analyse_alone_eq (same : l.SameFor l' project place s) (h : l.disk.WellFormed)
    (h' : l'.disk.WellFormed) (hs : s ∈ l.disk.servicesAt place) :
    l'.analyse project [s] s = l.analyse project [s] s := by
  have hself : ([s].map (·.name)).Nodup := List.nodup_singleton _
  exact same.analyse_eq h h' hs hself hself (List.mem_singleton_self s) (List.mem_singleton_self s)

theorem SameFor.own_eq (same : l.SameFor l' project place s) (h : l.disk.WellFormed)
    (h' : l'.disk.WellFormed) (hs : s ∈ l.disk.servicesAt place) :
    l'.own project s = l.own project s := by
  rw [own, own, same.analyse_alone_eq h h' hs]

/-- A project whose services can all be loaded, in the directories where they are. -/
structure Loads (l : Layout) (project : String) (place : List String) (services : List Service) :
    Prop where
  wellFormed : l.disk.WellFormed
  projectFound : l.disk.directory? l.projectPath = some project
  placeFound : l.disk.locate l.servicePath = .ok place
  directory : l.disk.entry? place = some .directory
  servicesFound : findServices l.disk (l.disk.pathOf place) = .ok services
  loaded : ∀ s ∈ services, ∃ program,
    l.loader.load l.disk project s.name s.directory = .ok program

namespace Loads

variable {services services' : List Service}

theorem services_eq (h : l.Loads project place services) :
    services = l.disk.servicesAt place :=
  ((h.wellFormed.findServices_eq_ok_iff h.directory).1 h.servicesFound).2.2

theorem ascending (h : l.Loads project place services) :
    (services.map (·.name)).Pairwise (· < ·) := by
  rw [h.services_eq]
  exact h.wellFormed.pairwise_servicesAt place

theorem nodup_names (h : l.Loads project place services) : (services.map (·.name)).Nodup :=
  h.ascending.imp fun hlt => ne_of_lt hlt

theorem mem_servicesAt (h : l.Loads project place services) (hs : s ∈ services) :
    s ∈ l.disk.servicesAt place :=
  h.services_eq ▸ hs

/-- In a service the same is found as if there were no others. -/
theorem analyse_eq (h : l.Loads project place services) (hs : s ∈ services) :
    l.analyse project services s = l.analyse project [s] s := by
  have hself : ([s].map (·.name)).Nodup := List.nodup_singleton _
  exact (SameFor.refl l project place s).analyse_eq h.wellFormed h.wellFormed
    (h.mem_servicesAt hs) hself h.nodup_names (List.mem_singleton_self s) hs

theorem map_analyse_eq (h : l.Loads project place services) :
    services.map (l.analyse project services) = services.map fun s => l.analyse project [s] s :=
  List.map_congr_left fun _ hs => h.analyse_eq hs

/-- A service that loads is analysed without an error, if its analysis ends. -/
theorem analyse_own (h : l.Loads project place services) (hs : s ∈ services)
    (hends : l.analyse project [s] s ≠ none) :
    l.analyse project [s] s = some (.ok (l.own project s)) := by
  obtain ⟨program, hload⟩ := h.loaded s hs
  obtain ⟨result, hresult⟩ := Option.ne_none_iff_exists'.1 hends
  have hanalyse := hresult
  rw [analyse, Service.analyse_eq hload] at hanalyse
  obtain ⟨found, -, rfl⟩ := Option.map_eq_some_iff.1 hanalyse
  rw [own_eq hresult, hresult]

theorem ownedBy (h : l.Loads project place services) (hs : s ∈ services)
    (hends : l.analyse project [s] s ≠ none) : (l.own project s).OwnedBy s.name :=
  Service.ownedBy_of_analyse (h.analyse_own hs hends)

theorem discover_eq_analyseAll (h : l.Loads project place services) :
    l.discover = analyseAll l.disk l.parse l.loader l.settings project services := by
  have hdirectory : l.disk.directory? l.servicePath = some (l.disk.pathOf place) := by
    rw [Disk.directory?, h.placeFound]
    simp [h.directory, Entry.isDirectory]
  exact Layout.discover_eq h.projectFound hdirectory h.servicesFound

/-- The discovery returns unless the analysis of one of the services never ends. -/
theorem discover_eq_none_iff (h : l.Loads project place services) :
    l.discover = none ↔ ∃ s ∈ services, l.analyse project [s] s = none := by
  rw [h.discover_eq_analyseAll, analyseAll_eq, Option.map_eq_none_iff, mapM_eq_none_iff]
  apply exists_congr
  intro s
  apply and_congr_right
  intro hs
  rw [h.analyse_eq hs]

theorem discover_eq (h : l.Loads project place services)
    (hends : ∀ s ∈ services, l.analyse project [s] s ≠ none) :
    l.discover = some (.ok (.concat (services.map (l.own project)))) := by
  rw [h.discover_eq_analyseAll, analyseAll_eq_ok_iff]
  refine ⟨services.map (l.own project), ?_, rfl⟩
  rw [h.map_analyse_eq, List.map_map, List.map_map]
  apply List.map_congr_left
  intro s hs
  exact h.analyse_own hs (hends s hs)

theorem ends_of_discover (h : l.Loads project place services)
    {result : Except ProjectError Discovery} (hresult : l.discover = some result) :
    ∀ s ∈ services, l.analyse project [s] s ≠ none := by
  intro s hs hnone
  rw [h.discover_eq_none_iff.2 ⟨s, hs, hnone⟩] at hresult
  cases hresult

theorem only_eq (h : l.Loads project place services)
    (hends : ∀ s ∈ services, l.analyse project [s] s ≠ none) (hs : s ∈ services) :
    (Discovery.concat (services.map (l.own project))).only s.name = l.own project s :=
  Discovery.only_concat h.nodup_names (fun s hs => h.ownedBy hs (hends s hs)) hs

end Loads

/-- Where some of the services are left as they are, the layout still loads with these. -/
theorem Loads.of_same {services services' : List Service} (h : l.Loads project place services)
    (h' : l'.disk.WellFormed) (hproject : l'.disk.directory? l'.projectPath = some project)
    (hplace : l'.disk.locate l'.servicePath = .ok place)
    (hservices : l'.disk.servicesAt place = services') (hne : services' ≠ [])
    (hsame : ∀ s ∈ services', s ∈ services ∧ l.SameFor l' project place s) :
    l'.Loads project place services' := by
  obtain ⟨s, hs⟩ := List.exists_mem_of_ne_nil _ hne
  have hdisk := (hsame s hs).2.disk
  have hway : place <+: place ++ [s.name] := List.prefix_append _ _
  have hdirectory : l'.disk.entry? place = some .directory := by
    rw [hdisk.entries _ (.inl hway), h.directory]
  have hlocate : l'.disk.locate (l'.disk.pathOf place) = .ok place := by
    have hnames := h.wellFormed.isName (by rw [h.directory]; rfl)
    rw [hdisk.pathOf_eq, hdisk.locate_eq hway hnames]
    exact ((h.wellFormed.findServices_eq_ok_iff h.directory).1 h.servicesFound).1
  refine ⟨h', hproject, hplace, hdirectory, ?_, ?_⟩
  · exact (h'.findServices_eq_ok_iff hdirectory).2 ⟨hlocate, hne, hservices.symm⟩
  · intro s hs
    obtain ⟨hmem, same⟩ := hsame s hs
    rw [same.load_eq h.wellFormed (h.mem_servicesAt hmem)]
    exact h.loaded s hmem

theorem Loads.services_ne_nil {services : List Service} (h : l.Loads project place services) :
    services ≠ [] :=
  ((h.wellFormed.findServices_eq_ok_iff h.directory).1 h.servicesFound).2.1

section Order

variable {services : List Service} {entries : List (List String × Entry)}

/-- The same layout with the entries of its disk listed in another order. -/
def relisted (l : Layout) (entries : List (List String × Entry)) : Layout :=
  { l with disk := { l.disk with entries := entries } }

theorem sameFor_relisted (h : l.disk.WellFormed) (hperm : entries.Perm l.disk.entries)
    (project : String) (place : List String) (s : Service) :
    l.SameFor (l.relisted entries) project place s :=
  ⟨h.sameAt_relisted hperm _, rfl, .refl _ _ _, .refl _ _⟩

theorem Loads.relisted (h : l.Loads project place services)
    (hperm : entries.Perm l.disk.entries) : (l.relisted entries).Loads project place services := by
  have hwf := h.wellFormed.relisted hperm
  have hlocate := h.wellFormed.locate_relisted hperm
  have hproject : (l.relisted entries).disk.directory? l.projectPath = some project := by
    rw [← h.projectFound, Disk.directory?, Disk.directory?, Layout.relisted, hlocate]
    simp only [h.wellFormed.entry?_relisted hperm]
    rfl
  have hservices : (l.relisted entries).disk.servicesAt place = services := by
    rw [h.services_eq]
    exact h.wellFormed.servicesAt_eq hwf (h.wellFormed.sameAt_relisted hperm place)
  apply h.of_same hwf hproject _ hservices h.services_ne_nil
  · intro s hs
    exact ⟨hs, sameFor_relisted h.wellFormed hperm project place s⟩
  · exact (hlocate _).trans h.placeFound

theorem Loads.discover_relisted (h : l.Loads project place services)
    (hperm : entries.Perm l.disk.entries) : (l.relisted entries).discover = l.discover := by
  have hall : services.map ((l.relisted entries).analyse project services) =
      services.map (l.analyse project services) := by
    apply List.map_congr_left
    intro s hs
    exact (sameFor_relisted h.wellFormed hperm project place s).analyse_eq h.wellFormed
      (h.wellFormed.relisted hperm) (h.mem_servicesAt hs) h.nodup_names h.nodup_names hs hs
  have hresults : services.mapM ((l.relisted entries).analyse project services) =
      services.mapM (l.analyse project services) := by
    ext results
    rw [mapM_eq_some_iff, mapM_eq_some_iff, hall]
  rw [(h.relisted hperm).discover_eq_analyseAll, h.discover_eq_analyseAll, analyseAll_eq,
    analyseAll_eq, hresults]

end Order

/-- The layout without the directories of other services. -/
def alone (l : Layout) (place : List String) (s : Service) : Layout :=
  { l with disk := l.disk.only place s.name }

theorem sameFor_alone (h : l.disk.WellFormed) (project : String) (place : List String)
    (s : Service) : l.SameFor (l.alone place s) project place s :=
  ⟨h.sameAt_only place s.name, rfl, .refl _ _ _, .refl _ _⟩

theorem Loads.discover_alone {services : List Service} (h : l.Loads project place services)
    (hs : s ∈ services) (hends : l.analyse project [s] s ≠ none)
    (hproject : (l.alone place s).disk.directory? l.projectPath = some project)
    (hplace : (l.alone place s).disk.locate l.servicePath = .ok place) :
    (l.alone place s).discover = some (.ok (l.own project s)) := by
  have hmem := h.mem_servicesAt hs
  have hsame := sameFor_alone h.wellFormed project place s
  have hwf := h.wellFormed.only place s.name
  have hloads : (l.alone place s).Loads project place [s] := by
    apply h.of_same hwf hproject hplace (h.wellFormed.servicesAt_only hmem)
    · exact List.cons_ne_nil s []
    · intro t ht
      rw [List.mem_singleton.1 ht]
      exact ⟨hs, hsame⟩
  have hends' : ∀ t ∈ [s], (l.alone place s).analyse project [t] t ≠ none := by
    intro t ht
    rw [List.mem_singleton.1 ht, hsame.analyse_alone_eq h.wellFormed hwf hmem]
    exact hends
  rw [hloads.discover_eq hends', List.map_singleton, hsame.own_eq h.wellFormed hwf hmem,
    Discovery.concat_eq]
  simp

/-- The findings of a project are made of those of its services, and each service stands for itself:
`own s` is what is found in `s`. -/
structure Merged (l : Layout) (project : String) (place : List String) (services : List Service)
    (own : Service → Discovery) (found : Discovery) : Prop where
  ascending : (services.map (·.name)).Pairwise (· < ·)
  directories : ∀ s, s ∈ services ↔ s.directory = l.disk.pathOf (place ++ [s.name]) ∧
    l.disk.entry? (place ++ [s.name]) = some .directory
  clients : found.clients = services.flatMap fun s => (own s).clients
  endpoints : found.endpoints = services.flatMap fun s => (own s).endpoints
  busCalls : found.busCalls = services.flatMap fun s => (own s).busCalls
  /-- In whatever order the disk is listed and the services are finished, this is found. -/
  runs : ∀ entries, entries.Perm l.disk.entries →
    ∀ other, (l.relisted entries).Runs other ↔ other = found
  /-- What the analysis of a service gives with the annotations in its own sources. -/
  analysed : ∀ s ∈ services, s.analyse l.disk l.parse l.loader
    (l.settings.withAnnotations (annotationsOf l.disk l.parse [s])) project = some (.ok (own s))
  /-- What is found in a service if there are no other directories, as long as the paths of the
  project and of the services do not lead through these. -/
  alone : ∀ s ∈ services, (l.alone place s).disk.directory? l.projectPath = some project →
    (l.alone place s).disk.locate l.servicePath = .ok place →
      (l.alone place s).discover = some (.ok (own s))
  only : ∀ s ∈ services, found.only s.name = own s
  /-- Changes to other services leave the findings of a service as they are, as long as the discovery
  returns. -/
  unaffected : ∀ s ∈ services, ∀ l' services', l'.Loads project place services' → s ∈ services' →
    l.SameFor l' project place s → ∀ result, l'.discover = some result →
      ∃ found', result = .ok found' ∧ found'.only s.name = own s

theorem Loads.merged {services : List Service} (h : l.Loads project place services)
    (hends : ∀ s ∈ services, l.analyse project [s] s ≠ none) :
    l.Merged project place services (l.own project) (.concat (services.map (l.own project))) where
  ascending := h.ascending
  directories s := by
    rw [h.services_eq]
    exact h.wellFormed.mem_servicesAt_iff
  clients := by simp only [Discovery.concat_eq, List.flatMap_map]
  endpoints := by simp only [Discovery.concat_eq, List.flatMap_map]
  busCalls := by simp only [Discovery.concat_eq, List.flatMap_map]
  runs entries hperm other := by
    rw [runs_iff, h.discover_relisted hperm, h.discover_eq hends, Option.some.injEq,
      Except.ok.injEq, eq_comm]
  analysed s hs := h.analyse_own hs (hends s hs)
  alone s hs := h.discover_alone hs (hends s hs)
  only s hs := h.only_eq hends hs
  unaffected s hs l' services' h' hs' same result hresult := by
    have hends' := h'.ends_of_discover hresult
    rw [h'.discover_eq hends'] at hresult
    cases hresult
    refine ⟨_, rfl, ?_⟩
    rw [h'.only_eq hends' hs', same.own_eq h.wellFormed h'.wellFormed (h.mem_servicesAt hs)]

/-- The discovery of a project whose services load returns unless the analysis of one of them on its
own never ends; then no run comes to an end, in whatever order. What it returns is what is found in
each service on its own, in ascending order of their names, whatever the order of the work. -/
theorem discover_merged {services : List Service} (h : l.Loads project place services) :
    (l.discover = none ↔ ∃ s ∈ services, s.analyse l.disk l.parse l.loader
      (l.settings.withAnnotations (annotationsOf l.disk l.parse [s])) project = none) ∧
    (l.discover = none → ∀ entries, entries.Perm l.disk.entries →
      ∀ other, ¬ (l.relisted entries).Runs other) ∧
    (l.discover ≠ none →
      ∃ own found, l.discover = some (.ok found) ∧ l.Merged project place services own found) := by
  refine ⟨h.discover_eq_none_iff, ?_, ?_⟩
  · intro hnone entries hperm other hruns
    rw [runs_iff, h.discover_relisted hperm, hnone] at hruns
    cases hruns
  · intro hne
    obtain ⟨result, hresult⟩ := Option.ne_none_iff_exists'.1 hne
    have hends := h.ends_of_discover hresult
    exact ⟨_, _, h.discover_eq hends, h.merged hends⟩

end Layout

/-- A program that asks for the place of another service and calls it. -/
def caller : Program where
  packages := [⟨"shop/main", "main", []⟩]
  methodSets := .empty
  functions := [
    .declared 0 "net/http" "http" "Get",
    .declared 1 "os" "os" "Getenv",
    { Function.declared 2 "shop/main" "main" "main" with
      values := [
        ⟨"t0", "string", none, .const (.string "PEER")⟩,
        ⟨"t1", "string", none, .call ⟨.static 1, [0]⟩⟩,
        ⟨"t2", "", some ⟨"/svc/bread/main.go", 4⟩, .call ⟨.static 0, [1]⟩⟩]
      blocks := [⟨0, [1, 2], []⟩] }]

/-- Two services with the same program. One of them has a comment in its sources that tells where a
call goes. -/
def market (program : Program) (environment : Environment) : Layout where
  disk :=
    let dump := (String.ofList program.toJson.compact).toUTF8
    let source := "package main\n\n//netdep:client url=http://fruit\n".toUTF8
    (((Disk.empty "").addFile ["svc", "fruit", "ssa.json"] dump 0o644).addFile
      ["svc", "bread", "ssa.json"] dump 0o644).addFile ["svc", "bread", "main.go"] source 0o644
  parse := Source.parse
  loader := .dump
  settings := { Settings.default with environment }
  projectPath := "/"
  servicePath := "/svc"

def stalls : List Service := [⟨"bread", "/svc/bread"⟩, ⟨"fruit", "/svc/fruit"⟩]

section Market

variable {program : Program} (hfree : program.FloatFree)
  (husable : ∀ name, program.usable name = .ok program.withoutErrors) (environment : Environment)
include hfree husable

theorem market_load {s : Service} (hs : s ∈ stalls) :
    (market program environment).loader.load (market program environment).disk "/" s.name
      s.directory = .ok program.withoutErrors := by
  have hread : (market program environment).disk.readText
      (Path.join s.directory Loader.dumpName) = .ok (String.ofList program.toJson.compact) := by
    rcases List.mem_pair.1 hs with rfl | rfl
    · exact Disk.readText_eq_ok rfl
    · exact Disk.readText_eq_ok rfl
  exact (Loader.load_dump hfree hread "/" s.name).trans (husable s.name)

theorem market_loads : (market program environment).Loads "/" ["svc"] stalls := by
  have hempty : (Disk.empty "").WellFormed := Disk.wellFormed_empty (by decide)
  have hwf : (market program environment).disk.WellFormed :=
    ((hempty.addFile (by decide) _ _).addFile (by decide) _ _).addFile (by decide) _ _
  have hdirectory : (market program environment).disk.entry? ["svc"] = some .directory := rfl
  have hnames : (market program environment).disk.directoryNames ["svc"] = ["bread", "fruit"] := rfl
  have hservices : (market program environment).disk.servicesAt ["svc"] = stalls := by
    rw [Disk.servicesAt, hnames, List.mergeSort_of_pairwise (by decide)]
    rfl
  have hproject : (market program environment).disk.directory? "/" = some "/" := rfl
  have hplace : (market program environment).disk.locate "/svc" = .ok ["svc"] := rfl
  refine ⟨hwf, hproject, hplace, hdirectory, ?_, ?_⟩
  · exact (hwf.findServices_eq_ok_iff hdirectory).2 ⟨hplace, List.cons_ne_nil _ _, hservices.symm⟩
  · exact fun s hs => ⟨_, market_load hfree husable environment hs⟩

/-- The analysis of a service ends if its walk without annotations does. -/
theorem market_analyse_eq_none_iff {s : Service} (hs : s ∈ stalls) :
    (market program environment).analyse "/" [s] s = none ↔
      Analysis.walk ⟨program.withoutErrors, (market program environment).settings, s.name⟩ =
        none := by
  have hwalk (annotations : Annotations) :
      Analysis.walk ⟨program.withoutErrors, (market program environment).settings, s.name⟩ =
        Analysis.walk ⟨program.withoutErrors,
          (market program environment).settings.withAnnotations annotations, s.name⟩ :=
    Analysis.SameSearch.walk_eq ⟨rfl, rfl, rfl, rfl, rfl, rfl, rfl⟩ fun _ => rfl
  rw [Layout.analyse, Service.analyse_eq (market_load hfree husable environment hs),
    Option.map_eq_none_iff, Analysis.annotated, Option.map_eq_none_iff, ← hwalk]

theorem market_discover_eq_none_iff : (market program environment).discover = none ↔
    ∃ s ∈ stalls, Analysis.walk
      ⟨program.withoutErrors, (market program environment).settings, s.name⟩ = none := by
  rw [(market_loads hfree husable environment).discover_eq_none_iff]
  apply exists_congr
  intro s
  apply and_congr_right
  intro hs
  exact market_analyse_eq_none_iff hfree husable environment hs

end Market

/-- Where to call is said to one of the services by its environment and to the other one by the
comment in its sources. -/
theorem market_merged :
    let l := market caller (Environment.set .empty "fruit" "PEER" "http://bread")
    l.Loads "/" ["svc"] stalls ∧ ∃ own found, l.discover = some (.ok found) ∧
      l.Merged "/" ["svc"] stalls own found ∧
      (l.alone ["svc"] ⟨"bread", "/svc/bread"⟩).discover =
        some (.ok (own ⟨"bread", "/svc/bread"⟩)) := by
  intro l
  have hfree : caller.FloatFree := by decide
  have hloads : l.Loads "/" ["svc"] stalls := market_loads hfree (fun _ => rfl) _
  have hreturns : l.discover ≠ none := by
    rw [ne_eq, market_discover_eq_none_iff hfree fun _ => rfl]
    decide
  obtain ⟨own, found, hfound, hmerged⟩ := (Layout.discover_merged hloads).2.2 hreturns
  have hproject : (l.alone ["svc"] ⟨"bread", "/svc/bread"⟩).disk.directory? "/" = some "/" := rfl
  have hplace : (l.alone ["svc"] ⟨"bread", "/svc/bread"⟩).disk.locate "/svc" = .ok ["svc"] := rfl
  exact ⟨hloads, own, found, hfound, hmerged, hmerged.alone _ List.mem_cons_self hproject hplace⟩

/-- The variables of one service are changed. The discovery does not return any more, so nothing is
reported for the other service either. -/
theorem market_stalled :
    let l := market Analysis.reporter .empty
    let l' := market Analysis.reporter (Environment.set .empty "fruit" "FORMAT" "%s")
    l.Loads "/" ["svc"] stalls ∧ l'.Loads "/" ["svc"] stalls ∧
      l.SameFor l' "/" ["svc"] ⟨"bread", "/svc/bread"⟩ ∧
      (∃ found, l.discover = some (.ok found)) ∧ l'.discover = none := by
  intro l l'
  have hfree : Analysis.reporter.FloatFree := by decide
  have hloads : l.Loads "/" ["svc"] stalls := market_loads hfree (fun _ => rfl) _
  have hreturns : l.discover ≠ none := by
    rw [ne_eq, market_discover_eq_none_iff hfree fun _ => rfl]
    decide
  refine ⟨hloads, market_loads hfree (fun _ => rfl) _, ?_, ?_, ?_⟩
  · exact ⟨⟨rfl, fun _ _ => rfl⟩, rfl, .refl _ _ _,
      ⟨rfl, rfl, rfl, rfl, rfl, fun _ => rfl, rfl⟩⟩
  · obtain ⟨result, hresult⟩ := Option.ne_none_iff_exists'.1 hreturns
    exact ⟨_, hloads.discover_eq (hloads.ends_of_discover hresult)⟩
  · rw [market_discover_eq_none_iff hfree fun _ => rfl]
    exact ⟨⟨"fruit", "/svc/fruit"⟩, List.mem_cons_of_mem _ List.mem_cons_self,
      Analysis.walk_reporting _ _ rfl⟩

end ServiceGraph
