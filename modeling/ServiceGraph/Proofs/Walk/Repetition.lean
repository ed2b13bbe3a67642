import ServiceGraph.Proofs.Walk.Activations

namespace ServiceGraph

/-- The call instructions of a program, each with its function. -/
def Program.callInstrs (p : Program) : List (Function × ValueId) :=
  p.functions.flatMap fun f =>
    ((f.blocks.flatMap (·.instrs)).filter fun id => ((f.value? id).bind (·.call?)).isSome).map
      (f, ·)

/-- No two call instructions stand at the same position. -/
def Program.SitesApart (p : Program) : Prop :=
  ∀ x ∈ p.callInstrs, ∀ y ∈ p.callInstrs, x.1.callSite x.2 = y.1.callSite y.2 → x = y

instance (p : Program) : Decidable p.SitesApart :=
  inferInstanceAs (Decidable (∀ x ∈ p.callInstrs, ∀ y ∈ p.callInstrs,
    x.1.callSite x.2 = y.1.callSite y.2 → x = y))

/-- A call is among those that are discovered, with what is known about it. -/
def Discovery.Represents (d : Discovery) (kind : CallKind) (t : CallTarget) : Prop :=
  ∃ t' ∈ d.targets kind, t'.trace = t.trace ∧ t'.methodName = t.methodName ∧
    t'.requestLocation = t.requestLocation

namespace Analysis

/-- The activations that calls alone lead to, with no handler on the way. -/
inductive Called (a : Analysis) : Frame → Prop where
  | entry {main : Function} : a.program.main? = some main → Called a (.entry main)
  | call {frame : Frame} {id : ValueId} {call : Call} {callable : Callable} {callee : Function} :
      Called a frame → frame.function.Lists id → a.Calls frame id call callable callee →
      a.settings.classify callee.signature = none → a.Enterable frame callee →
      Called a (frame.descend (frame.function.callSite id) callee call callable)

variable {a : Analysis} {frame frame' : Frame} {id id' : ValueId}

theorem Called.active (h : a.Called frame) : a.Active frame := by
  induction h with
  | entry hmain => exact .entry hmain
  | call _ hlists calls hc hent ih => exact ih.opened hlists (.call calls hc hent)

theorem Calls.unique {call call' : Call} {callable callable' : Callable} {callee callee' : Function}
    (h : a.Calls frame id call callable callee) (h' : a.Calls frame id call' callable' callee') :
    call = call' ∧ callable = callable' ∧ callee = callee' := by
  have same := ((a.callee?_eq_some_iff ..).2 h).symm.trans ((a.callee?_eq_some_iff ..).2 h')
  simpa only [Option.some.injEq, Prod.mk.injEq] using same

theorem Reports.unique {v w : Visit} (h : a.Reports frame id v) (h' : a.Reports frame id w) :
    v = w :=
  Option.some.inj (((a.report?_eq_some_iff frame id v).2 h).symm.trans
    ((a.report?_eq_some_iff frame id w).2 h'))

theorem Reports.calls {v : Visit} (h : a.Reports frame id v) :
    ∃ call callable callee, a.Calls frame id call callable callee := by
  obtain ⟨calls, -⟩ := h
  exact ⟨_, _, _, calls⟩

theorem Calls.mem_callInstrs {call : Call} {callable : Callable} {callee : Function}
    (h : a.Calls frame id call callable callee) (hactive : a.Active frame)
    (hlists : frame.function.Lists id) : (frame.function, id) ∈ a.program.callInstrs := by
  obtain ⟨i, b, hb, hid⟩ := hlists
  obtain ⟨v, hv, hcall⟩ := h.instruction
  refine List.mem_flatMap.2 ⟨_, hactive.fresh.mem_functions, List.mem_map.2 ⟨id, ?_, rfl⟩⟩
  refine List.mem_filter.2
    ⟨List.mem_flatMap.2 ⟨b, List.mem_of_getElem? hb.block?_eq, hid⟩, ?_⟩
  rw [hv, Option.bind_some, hcall]
  rfl

/-- Call instructions of activations that stand at the same position are the same. -/
theorem Calls.same_site {call call' : Call} {callable callable' : Callable}
    {callee callee' : Function} (apart : a.program.SitesApart)
    (h : a.Calls frame id call callable callee) (hactive : a.Active frame)
    (hlists : frame.function.Lists id) (h' : a.Calls frame' id' call' callable' callee')
    (hactive' : a.Active frame') (hlists' : frame'.function.Lists id')
    (hsite : frame.function.callSite id = frame'.function.callSite id') :
    frame.function = frame'.function ∧ id = id' :=
  Prod.mk.inj (apart _ (h.mem_callInstrs hactive hlists) _ (h'.mem_callInstrs hactive' hlists')
    hsite)

/-- The entry function stays active. -/
theorem Active.entry_mem (h : a.Active frame) {main : Function}
    (hmain : a.program.main? = some main) : (Frame.entry main).top ∈ frame.activations := by
  induction h with
  | entry hmain' =>
    rw [hmain] at hmain'
    cases hmain'
    exact List.mem_cons_self
  | opened _ _ hopens ih =>
    rw [Frame.activations, hopens.below_eq]
    exact List.mem_cons_of_mem _ ih

/-- The entry function has one activation. -/
theorem Active.eq_entry (h : a.Active frame) {main : Function}
    (hmain : a.program.main? = some main) (hf : frame.function = main) :
    frame = .entry main := by
  cases h with
  | entry hmain' =>
    rw [hmain] at hmain'
    cases hmain'
    rfl
  | opened hactive _ hopens =>
    have hbelow : (Frame.entry main).top ∈ frame.below := by
      rw [hopens.below_eq]
      exact hactive.entry_mem hmain
    exact absurd (congrArg Function.id hf).symm (hopens.fresh.inactive _ hbelow)

theorem Active.eq_entry_of_trace_nil (h : a.Active frame) (htrace : frame.top.trace = []) :
    ∃ main, a.program.main? = some main ∧ frame = .entry main := by
  cases h with
  | entry hmain => exact ⟨_, hmain, rfl⟩
  | opened _ _ hopens =>
    cases hopens with
    | call => exact absurd htrace (List.append_ne_nil_of_right_ne_nil _ (List.cons_ne_nil _ _))
    | handler => exact absurd htrace (List.cons_ne_nil _ _)

/-- Where positions tell call instructions apart, the trace of an activation that calls alone lead
to belongs to no other activation. -/
theorem Called.eq_of_trace_eq (apart : a.program.SitesApart) (h : a.Called frame)
    (h' : a.Active frame') (htrace : frame.top.trace = frame'.top.trace) : frame = frame' := by
  induction h generalizing frame' with
  | entry hmain =>
    obtain ⟨main', hmain', rfl⟩ := h'.eq_entry_of_trace_nil htrace.symm
    rw [hmain] at hmain'
    cases hmain'
    rfl
  | @call frame id call callable callee before hlists calls hc hent ih =>
    cases h' with
    | entry => exact absurd htrace (List.append_ne_nil_of_right_ne_nil _ (List.cons_ne_nil _ _))
    | opened hactive hlists' hopens =>
      cases hopens with
      | call calls' hc' hent' =>
        obtain ⟨hbefore, hsite⟩ := List.append_inj' htrace rfl
        obtain rfl := ih hactive hbefore
        obtain ⟨-, rfl⟩ := calls.same_site apart before.active hlists calls' hactive hlists'
          (List.cons.inj hsite).1
        obtain ⟨rfl, rfl, rfl⟩ := calls.unique calls'
        rfl
      | handler calls' hc' =>
        -- The trace of a handler has one position, so `frame` is that of the entry; the
        -- instruction there would both register a handler and be followed.
        have htrace : frame.top.trace ++ [_] = [] ++ [_] := htrace
        obtain ⟨hbefore, hsite⟩ := List.append_inj' htrace rfl
        obtain ⟨main, hmain, rfl⟩ := before.active.eq_entry_of_trace_nil hbefore
        obtain ⟨hf, rfl⟩ := calls.same_site apart before.active hlists calls' hactive hlists'
          (List.cons.inj hsite).1
        obtain rfl := hactive.eq_entry hmain hf.symm
        obtain ⟨-, -, rfl⟩ := calls.unique calls'
        rw [hc] at hc'
        cases hc'

/-- Where positions tell call instructions apart, a call that is not behind a handler shares its
trace with no other. -/
theorem Called.report_unique (apart : a.program.SitesApart) (h : a.Called frame)
    (hlists : frame.function.Lists id) {v w : Visit} (hrep : a.Reports frame id v)
    (hcomes : a.Comes w) (htrace : v.trace = w.trace) : v = w := by
  obtain ⟨frame', id', hactive', hlists', hrep'⟩ := hcomes
  rw [hrep.trace_eq, hrep'.trace_eq] at htrace
  obtain ⟨hbefore, hsite⟩ := List.append_inj' htrace rfl
  obtain rfl := h.eq_of_trace_eq apart hactive' hbefore
  obtain ⟨_, _, _, calls⟩ := hrep.calls
  obtain ⟨_, _, _, calls'⟩ := hrep'.calls
  obtain ⟨-, rfl⟩ := calls.same_site apart h.active hlists calls' hactive' hlists'
    (List.cons.inj hsite).1
  exact hrep.unique hrep'

/-- What is found at a call of interest. -/
def Finds (a : Analysis) (kind : CallKind) (t : CallTarget) : Prop :=
  ∃ v, a.Comes v ∧ a.finding? v = some ⟨kind, t⟩

/-- Where the walk returns, a call of interest has one report with its trace: what is found at the
call that the walk comes to first. -/
theorem Comes.exists_first {found : Discovery} (h : a.walk = some found) {v : Visit}
    (hv : a.Comes v) :
    ∃ before first after t, a.visits = before ++ first :: after ∧
      (∀ u ∈ before, u.trace ≠ v.trace) ∧ first.trace = v.trace ∧
      a.finding? first = some ⟨first.kind, t⟩ ∧ t ∈ found.targets first.kind ∧
      ∀ kind', ∀ t' ∈ found.targets kind', t'.trace = v.trace → kind' = first.kind ∧ t' = t := by
  have hmem := (a.mem_visits_iff v).2 hv
  obtain ⟨own, hown⟩ := exists_finding h hmem
  have htrace : own.trace = v.trace := trace_of_finding? hown
  obtain ⟨findings, hfindings, rfl⟩ := walk_eq_some_iff.1 h
  obtain ⟨f, hf⟩ := exists_firstWith? ((mem_findings_iff hfindings).2 ⟨v, hmem, hown⟩)
  obtain ⟨hsame, before', after', hsplit, hbefore⟩ := (firstWith?_eq_some_iff _ _ f).1 hf
  have hvisits := mapM_eq_some_iff.1 hfindings
  rw [hsplit, List.map_append, List.map_cons] at hvisits
  -- the visits are parted where their findings are
  obtain ⟨before, rest, hparts, hmap, hrest⟩ := List.map_eq_append_iff.1 hvisits
  obtain ⟨first, after, rfl, hfirst, -⟩ := List.map_eq_cons_iff.1 hrest
  have hkind := kind_of_finding? hfirst
  have hreported : f.target ∈
      (Finding.discovery (firstFindings [] findings)).targets first.kind := by
    rw [mem_targets_iff, hsame, hf, ← hkind]
  have hfirstTrace : f.target.trace = v.trace := hsame.trans htrace
  refine ⟨before, first, after, f.target, hparts, ?_, ?_, ?_, hreported, ?_⟩
  · intro u hu
    obtain ⟨g, hg, hgu⟩ := List.mem_map.1 (hmap ▸ List.mem_map_of_mem hu)
    rw [← trace_of_finding? hgu.symm, ← htrace]
    exact hbefore g hg
  · rw [← trace_of_finding? hfirst, hfirstTrace]
  · rw [hfirst, ← hkind]
  · intro kind' t' ht' htrace'
    exact targets_unique h ht' hreported (htrace'.trans hfirstTrace.symm)

/-- Calls of interest that the reports cannot tell apart are the same as far as reports go. -/
def TracesTell (a : Analysis) : Prop :=
  ∀ kind t kind' t', a.Finds kind t → a.Finds kind' t' → t.trace = t'.trace →
    kind = kind' ∧ t.methodName = t'.methodName ∧ t.requestLocation = t'.requestLocation

theorem represented_iff {found : Discovery} (h : a.walk = some found) :
    (∀ kind t, a.Finds kind t → found.Represents kind t) ↔ a.TracesTell := by
  constructor
  · intro hall kind t kind' t' hfinds hfinds' htrace
    obtain ⟨u, hu, hut, hum, hul⟩ := hall kind t hfinds
    obtain ⟨u', hu', hut', hum', hul'⟩ := hall kind' t' hfinds'
    obtain ⟨rfl, rfl⟩ := targets_unique h hu hu' (hut.trans (htrace.trans hut'.symm))
    exact ⟨rfl, hum.symm.trans hum', hul.symm.trans hul'⟩
  · intro htell kind t hfinds
    obtain ⟨v, hv, hfinding⟩ := hfinds
    obtain ⟨before, first, after, u, hparts, -, htrace, hfirst, hu, -⟩ := hv.exists_first h
    have hmem : first ∈ a.visits := by simp [hparts]
    have hfinds' : a.Finds first.kind u := ⟨first, (a.mem_visits_iff first).1 hmem, hfirst⟩
    have hsame : u.trace = t.trace :=
      (trace_of_finding? hfirst).trans (htrace.trans (trace_of_finding? hfinding).symm)
    obtain ⟨rfl, hmethod, hlocation⟩ := htell _ _ _ _ hfinds' ⟨v, hv, hfinding⟩ hsame
    exact ⟨u, hu, hsame, hmethod, hlocation⟩

/-- Where the walk returns, each call of interest has one report with its trace, what is found at the
call which the walk comes to first. So nothing is lost exactly if traces tell calls apart; and a call
that is not behind a handler is itself reported where positions tell call instructions apart. -/
theorem walk_reports_first (a : Analysis) {found : Discovery} (h : a.walk = some found) :
    (∀ v, a.Comes v → ∃ before first after t, a.visits = before ++ first :: after ∧
      (∀ u ∈ before, u.trace ≠ v.trace) ∧ first.trace = v.trace ∧
      a.finding? first = some ⟨first.kind, t⟩ ∧ t ∈ found.targets first.kind ∧
      ∀ kind', ∀ t' ∈ found.targets kind', t'.trace = v.trace → kind' = first.kind ∧ t' = t) ∧
    ((∀ kind t, a.Finds kind t → found.Represents kind t) ↔ a.TracesTell) ∧
    (a.program.SitesApart → ∀ frame id v, a.Called frame → frame.function.Lists id →
      a.Reports frame id v → ∃ t, a.finding? v = some ⟨v.kind, t⟩ ∧ t ∈ found.targets v.kind) := by
  refine ⟨fun v hv => hv.exists_first h, represented_iff h, ?_⟩
  intro apart frame id v hcalled hlists hrep
  have hcomes : a.Comes v := ⟨frame, id, hcalled.active, hlists, hrep⟩
  obtain ⟨before, first, after, t, hparts, -, htrace, hfirst, ht, -⟩ := hcomes.exists_first h
  have hmem : first ∈ a.visits := by simp [hparts]
  obtain rfl := hcalled.report_unique apart hlists hrep ((a.mem_visits_iff first).1 hmem) htrace.symm
  exact ⟨t, hfirst, ht⟩

/-- A program that requests two locations on one line. -/
def sharedLine : Analysis where
  service := "a"
  settings := .default
  program := {
    packages := []
    methodSets := .empty
    functions := [
      .declared 0 "net/http" "http" "Get",
      { Function.declared 1 "a" "main" "main" with
        values := [
          ⟨"t0", "string", none, .const (.string "http://b/")⟩,
          ⟨"t1", "string", none, .const (.string "http://c/")⟩,
          ⟨"t2", "", some ⟨"main.go", 5⟩, .call ⟨.static 0, [0]⟩⟩,
          ⟨"t3", "", some ⟨"main.go", 5⟩, .call ⟨.static 0, [1]⟩⟩]
        blocks := [⟨0, [2, 3], []⟩] }] }

/-- A program with a function that registers a handler for the location which it is given, and that
is called with two locations. -/
def sharedHandler : Analysis where
  service := "a"
  settings := .default
  program := {
    packages := []
    methodSets := .empty
    functions := [
      .declared 0 "net/http" "http" "Get",
      .declared 1 "net/http" "http" "HandleFunc",
      { Function.declared 2 "a" "main" "wrap$1" with
        freeVars := [⟨"url", 0⟩]
        values := [
          ⟨"url", "string", none, .freeVar 0⟩,
          ⟨"t1", "", some ⟨"main.go", 15⟩, .call ⟨.static 0, [0]⟩⟩]
        blocks := [⟨0, [1], []⟩] },
      { Function.declared 3 "a" "main" "wrap" with
        params := [⟨"url", 0⟩]
        values := [
          ⟨"url", "string", none, .parameter 0⟩,
          ⟨"t1", "string", none, .const (.string "/x")⟩,
          ⟨"t2", "func()", none, .makeClosure 2 [0]⟩,
          ⟨"t3", "", some ⟨"main.go", 10⟩, .call ⟨.static 1, [1, 2]⟩⟩]
        blocks := [⟨0, [2, 3], []⟩] },
      { Function.declared 4 "a" "main" "main" with
        values := [
          ⟨"t0", "string", none, .const (.string "http://b/")⟩,
          ⟨"t1", "string", none, .const (.string "http://c/")⟩,
          ⟨"t2", "", some ⟨"main.go", 5⟩, .call ⟨.static 3, [0]⟩⟩,
          ⟨"t3", "", some ⟨"main.go", 6⟩, .call ⟨.static 3, [1]⟩⟩]
        blocks := [⟨0, [2, 3], []⟩] }] }

/-- A location that is requested, but that no client of the report has, is lost. -/
theorem not_represented (location : String) {found : Discovery} {findings : List Finding}
    (hfindings : a.findings = some findings)
    (hvisit : ∃ f ∈ findings, f.kind = .client ∧ f.target.requestLocation = location)
    (hreport : ∀ t ∈ found.clients, t.requestLocation ≠ location) :
    ¬ ∀ kind t, a.Finds kind t → found.Represents kind t := by
  intro h
  obtain ⟨⟨_, t⟩, hf, rfl, hlocation⟩ := hvisit
  obtain ⟨v, hv, hfinding⟩ := (mem_findings_iff hfindings).1 hf
  obtain ⟨t', ht', -, -, heq⟩ := h .client t ⟨v, (a.mem_visits_iff v).1 hv, hfinding⟩
  exact hreport t' ht' (heq.trans hlocation)

/-- Both walks return. One of two requests on a line is lost, and so is one of two requests of a
handler that is registered twice, even where every call instruction has a position of its own. -/
theorem walk_loses_calls :
    (∃ found, sharedLine.walk = some found ∧
      ¬ ∀ kind t, sharedLine.Finds kind t → found.Represents kind t) ∧
    sharedHandler.program.SitesApart ∧
    ∃ found, sharedHandler.walk = some found ∧
      ¬ ∀ kind t, sharedHandler.Finds kind t → found.Represents kind t := by
  refine ⟨⟨_, rfl, ?_⟩, by decide, ⟨_, rfl, ?_⟩⟩
  · exact not_represented "http://c/" rfl (by decide) (by decide)
  · exact not_represented "http://c/" rfl (by decide) (by decide)

theorem sharedHandler_reports_first :
    ∃ found, sharedHandler.walk = some found ∧
      found.clients.map (·.requestLocation) = ["http://b/"] ∧ ¬ sharedHandler.TracesTell := by
  refine ⟨_, rfl, by decide, ?_⟩
  rw [← (walk_reports_first sharedHandler rfl).2.1]
  exact not_represented "http://c/" rfl (by decide) (by decide)

end Analysis

end ServiceGraph
