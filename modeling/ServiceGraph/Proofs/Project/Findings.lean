import ServiceGraph.Proofs.Program.Codec
import ServiceGraph.Proofs.Project.Schedule
import ServiceGraph.Proofs.SortedSet
import ServiceGraph.Proofs.Source.Scan
import ServiceGraph.Proofs.Walk.Targets
import ServiceGraph.Proofs.Walk.Variables

namespace ServiceGraph

/-- Settings that say the same about one service. -/
structure Settings.SameFor (settings settings' : Settings) (service : String) : Prop where
  maxRecursionDepth : settings'.maxRecursionDepth = settings.maxRecursionDepth
  clients : settings'.clients = settings.clients
  endpoints : settings'.endpoints = settings.endpoints
  substitutes : settings'.substitutes = settings.substitutes
  ignored : settings'.ignored = settings.ignored
  environment : ∀ name, settings'.variableValue? service name = settings.variableValue? service name
  annotations : Dict.get? settings'.annotations service = Dict.get? settings.annotations service

theorem Settings.SameFor.refl (settings : Settings) (service : String) :
    settings.SameFor settings service :=
  ⟨rfl, rfl, rfl, rfl, rfl, fun _ => rfl, rfl⟩

/-- The annotations of a service after those of all services are merged: its own ones on top of those
that the settings had. -/
theorem get?_withAnnotations (settings : Settings) (d : Disk) (parse : Source.Parser)
    {services : List Service} (hnames : (services.map (·.name)).Nodup) {s : Service}
    (hs : s ∈ services) :
    Dict.get? (settings.withAnnotations (annotationsOf d parse services)).annotations s.name =
      some (((Dict.get? settings.annotations s.name).getD .empty).override
        (d.collectAnnotations parse s.directory)) := by
  have hkeys : ((services.map fun s => (s.name, d.collectAnnotations parse s.directory)).map
      (·.1)).Nodup := by
    simpa [Function.comp_def] using hnames
  have hmem : (s.name, d.collectAnnotations parse s.directory) ∈
      services.map fun s => (s.name, d.collectAnnotations parse s.directory) :=
    List.mem_map_of_mem hs
  have hown := Dict.get?_eq_some_iff.1 (Dict.get?_ofList_of_mem hkeys hmem)
  exact Dict.get?_foldl_update .empty Dict.override (annotationsOf d parse services).ascending hown _

theorem Settings.SameFor.withAnnotations {settings settings' : Settings} {s : Service}
    (same : settings.SameFor settings' s.name) {d d' : Disk} {parse parse' : Source.Parser}
    (hcollect : d'.collectAnnotations parse' s.directory = d.collectAnnotations parse s.directory)
    {services services' : List Service} (hnames : (services.map (·.name)).Nodup)
    (hnames' : (services'.map (·.name)).Nodup) (hs : s ∈ services) (hs' : s ∈ services') :
    (settings.withAnnotations (annotationsOf d parse services)).SameFor
      (settings'.withAnnotations (annotationsOf d' parse' services')) s.name where
  maxRecursionDepth := same.maxRecursionDepth
  clients := same.clients
  endpoints := same.endpoints
  substitutes := same.substitutes
  ignored := same.ignored
  environment := same.environment
  annotations := by
    rw [get?_withAnnotations settings d parse hnames hs,
      get?_withAnnotations settings' d' parse' hnames' hs', same.annotations, hcollect]

/-- A hint is taken from the annotations of the service alone. -/
theorem CallTarget.applyHint_congr (t : CallTarget) {annotations annotations' : Annotations}
    (h : Dict.get? annotations' t.serviceName = Dict.get? annotations t.serviceName)
    (kind : CallKind) : t.applyHint annotations' kind = t.applyHint annotations kind := by
  have htext : t.annotationText? annotations' = t.annotationText? annotations := by
    rw [annotationText?, annotationText?, h]
  rw [applyHint, applyHint, hint?, hint?, htext]

/-- The calls of a program and what is offered in it, with their annotations, if the walk returns. -/
def Analysis.annotated (a : Analysis) : Option Discovery :=
  a.walk.map fun found =>
    (found.annotate a.settings.annotations .client).annotate a.settings.annotations .endpoint

theorem Discovery.annotate_congr {annotations annotations' : Annotations} {found : Discovery}
    (h : ∀ kind, ∀ t ∈ found.targets kind,
      Dict.get? annotations' t.serviceName = Dict.get? annotations t.serviceName) :
    (found.annotate annotations' .client).annotate annotations' .endpoint =
      (found.annotate annotations .client).annotate annotations .endpoint := by
  have htargets (kind : CallKind) :
      ((found.annotate annotations' .client).annotate annotations' .endpoint).targets kind =
        ((found.annotate annotations .client).annotate annotations .endpoint).targets kind := by
    rw [targets_annotate, targets_annotate]
    exact List.map_congr_left fun t ht => t.applyHint_congr (h kind t ht) kind
  exact Discovery.ext (htargets .client) (htargets .endpoint) rfl

theorem Analysis.annotated_congr {settings settings' : Settings} {service : String}
    (same : settings.SameFor settings' service) (program : Program) :
    annotated ⟨program, settings', service⟩ = annotated ⟨program, settings, service⟩ := by
  have hsearch : SameSearch ⟨program, settings, service⟩ ⟨program, settings', service⟩ :=
    ⟨rfl, rfl, same.maxRecursionDepth, same.clients, same.endpoints, same.substitutes, same.ignored⟩
  rw [annotated, annotated, ← hsearch.walk_eq fun name => (same.environment name).symm]
  cases hwalk : walk ⟨program, settings, service⟩ with
  | none => rfl
  | some found =>
    rw [Option.map_some, Option.map_some, Discovery.annotate_congr]
    intro kind t ht
    have hservice : t.serviceName = service := (extracted_of_mem_walk hwalk ht).serviceName
    rw [hservice]
    exact same.annotations

/-- Loaders that give the same for one service. -/
inductive Loader.SameFor (project directory : String) : Loader → Loader → Prop where
  | dump : SameFor project directory .dump .dump
  | bridge {command : String} {run run' : String → String → Except DiskError BridgeRun} :
      run' project directory = run project directory →
        SameFor project directory (.bridge command run) (.bridge command run')

theorem Loader.SameFor.refl (project directory : String) (loader : Loader) :
    SameFor project directory loader loader := by
  cases loader with
  | dump => exact .dump
  | bridge command run => exact .bridge rfl

theorem Loader.SameFor.load_eq {project directory : String} {loader loader' : Loader}
    (same : SameFor project directory loader loader') {d d' : Disk}
    (hdump : d'.readText (Path.join directory dumpName) = d.readText (Path.join directory dumpName))
    (service : String) :
    loader'.load d' project service directory = loader.load d project service directory := by
  have hread : loader'.read d' project directory = loader.read d project directory := by
    cases same with
    | dump => simp only [Loader.read, hdump]
    | bridge hrun => simp only [Loader.read, hrun]
  rw [Loader.load, Loader.load, hread]

theorem Disk.readText_eq_ok {d : Disk} {path text : String} {mode : Nat}
    (h : d.find path = .ok (.file text.toUTF8 mode)) : d.readText path = .ok text := by
  have hvalid : text.toUTF8.IsValidUTF8 := text.isValidUTF8
  have htext : String.fromUTF8? text.toUTF8 = some text := by
    rw [String.fromUTF8?, dif_pos hvalid]
    rfl
  rw [readText, h]
  simp only [bind, Except.bind, htext]
  rfl

/-- A program that was written beside the sources of a service is the one that is loaded. -/
theorem Loader.load_dump {d : Disk} {directory : String} {p : Program} (hfree : p.FloatFree)
    (h : d.readText (Path.join directory dumpName) = .ok (String.ofList p.toJson.compact))
    (project service : String) :
    dump.load d project service directory = p.usable service := by
  have hwritten := Program.written hfree
  have hparse : Program.parse? p.toJson.compact = some p := by
    have hjson := (Json.spells_compact hwritten.plain).parse? Json.blank_nil
    rw [List.append_nil] at hjson
    rw [Program.parse?, hjson]
    exact hwritten.read_eq
  rw [load, read, h]
  simp only [String.toList_ofList, hparse]

theorem Service.analyse_eq {d : Disk} {loader : Loader} {project : String} {s : Service}
    {program : Program} (hload : loader.load d project s.name s.directory = .ok program)
    (parse : Source.Parser) (settings : Settings) :
    s.analyse d parse loader settings project =
      (Analysis.annotated ⟨program, settings, s.name⟩).map fun found =>
        .ok { found with busCalls := d.busCalls parse s.name s.directory } := by
  rw [analyse, hload, Analysis.annotated, Option.map_map]
  exact (Option.map_eq_bind ..).symm

/-- The results of an item are found again in those of all items by whom they belong to. -/
theorem filter_flatMap_of_owner {α β : Type} {key : α → String} {owner : β → String}
    {results : α → List β} {items : List α} (hkeys : (items.map key).Nodup)
    (howner : ∀ a ∈ items, ∀ b ∈ results a, owner b = key a) {a : α} (ha : a ∈ items) :
    (items.flatMap results).filter (fun b => owner b == key a) = results a := by
  induction items with
  | nil => cases ha
  | cons c rest ih =>
    have hrest : ∀ a ∈ rest, ∀ b ∈ results a, owner b = key a := fun a ha =>
      howner a (List.mem_cons_of_mem _ ha)
    obtain ⟨hc, hkeys⟩ := List.nodup_cons.1 hkeys
    rw [List.flatMap_cons, List.filter_append]
    rcases List.mem_cons.1 ha with rfl | ha
    · have hself : (results a).filter (fun b => owner b == key a) = results a := by
        apply List.filter_eq_self.2
        intro b hb
        simpa using howner a List.mem_cons_self b hb
      have hothers : (rest.flatMap results).filter (fun b => owner b == key a) = [] := by
        apply List.filter_eq_nil_iff.2
        intro b hb
        obtain ⟨c, hcmem, hb⟩ := List.mem_flatMap.1 hb
        have hne : key c ≠ key a := fun heq => hc (heq ▸ List.mem_map_of_mem hcmem)
        simpa [hrest c hcmem b hb] using hne
      rw [hself, hothers, List.append_nil]
    · have hne : key c ≠ key a := fun heq => hc (heq ▸ List.mem_map_of_mem ha)
      have hnone : (results c).filter (fun b => owner b == key a) = [] := by
        apply List.filter_eq_nil_iff.2
        intro b hb
        simpa [howner c List.mem_cons_self b hb] using hne
      rw [hnone, List.nil_append, ih hkeys hrest ha]

namespace Discovery

/-- The findings of one service. -/
def only (d : Discovery) (service : String) : Discovery where
  clients := d.clients.filter fun t => t.serviceName == service
  endpoints := d.endpoints.filter fun t => t.serviceName == service
  busCalls := d.busCalls.filter fun c => c.serviceName == service

/-- All findings are those of one service. -/
structure OwnedBy (d : Discovery) (service : String) : Prop where
  clients : ∀ t ∈ d.clients, t.serviceName = service
  endpoints : ∀ t ∈ d.endpoints, t.serviceName = service
  busCalls : ∀ c ∈ d.busCalls, c.serviceName = service

theorem concat_eq (ds : List Discovery) :
    concat ds = ⟨ds.flatMap (·.clients), ds.flatMap (·.endpoints), ds.flatMap (·.busCalls)⟩ := by
  -- the findings are appended one by one, so the induction needs any findings to start from
  have from_any (start : Discovery) : ds.foldl append start =
      ⟨start.clients ++ ds.flatMap (·.clients), start.endpoints ++ ds.flatMap (·.endpoints),
        start.busCalls ++ ds.flatMap (·.busCalls)⟩ := by
    induction ds generalizing start with
    | nil => simp
    | cons d rest ih =>
      rw [List.foldl_cons, ih]
      simp [append]
  rw [concat, from_any]
  rfl

theorem only_concat {services : List Service} {own : Service → Discovery}
    (hnames : (services.map (·.name)).Nodup) (howned : ∀ s ∈ services, (own s).OwnedBy s.name)
    {s : Service} (hs : s ∈ services) : (concat (services.map own)).only s.name = own s := by
  rw [concat_eq, only]
  simp only [List.flatMap_map]
  rw [filter_flatMap_of_owner hnames (fun s hs => (howned s hs).clients) hs,
    filter_flatMap_of_owner hnames (fun s hs => (howned s hs).endpoints) hs,
    filter_flatMap_of_owner hnames (fun s hs => (howned s hs).busCalls) hs]

end Discovery

theorem Source.Node.serviceName_of_mem_busCalls {root : Node} {service file : String} {c : BusCall}
    (h : c ∈ root.busCalls service file) : c.serviceName = service := by
  rw [busCalls, Cursor.scan_ofTree] at h
  obtain ⟨node, _, hcall⟩ := List.mem_filterMap.1 h
  obtain ⟨⟨role, subject⟩, _, hsome⟩ := Option.bind_eq_some_iff.1 hcall
  cases hsome
  rfl

theorem Service.ownedBy_of_analyse {d : Disk} {parse : Source.Parser} {loader : Loader}
    {settings : Settings} {project : String} {s : Service} {found : Discovery}
    (h : s.analyse d parse loader settings project = some (.ok found)) : found.OwnedBy s.name := by
  cases hload : loader.load d project s.name s.directory with
  | error e =>
    rw [analyse, hload] at h
    cases h
  | ok program =>
    rw [analyse_eq hload, Analysis.annotated, Option.map_map] at h
    obtain ⟨walked, hwalk, heq⟩ := Option.map_eq_some_iff.1 h
    cases heq
    constructor
    · intro t ht
      have hextracted : Analysis.Extracted _ .client t :=
        Analysis.extracted_of_mem_annotate hwalk ht
      exact hextracted.serviceName
    · intro t ht
      have hextracted : Analysis.Extracted _ .endpoint t :=
        Analysis.extracted_of_mem_annotate hwalk ht
      exact hextracted.serviceName
    · intro c hc
      obtain ⟨file, _, hc⟩ := List.mem_flatMap.1 hc
      split at hc
      · cases hc
      · exact Source.Node.serviceName_of_mem_busCalls hc

end ServiceGraph
