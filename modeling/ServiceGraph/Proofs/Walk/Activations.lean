import ServiceGraph.Proofs.Walk.FirstFindings
import ServiceGraph.Proofs.Walk.Run
import ServiceGraph.Proofs.Walk.Unboxing

namespace ServiceGraph.Analysis

/-- The frames that calls lead to: that of the entry function, and those that an instruction of an
activation opens. -/
inductive Active (a : Analysis) : Frame → Prop where
  | entry {main : Function} : a.program.main? = some main → Active a (.entry main)
  | opened {frame child : Frame} {id : ValueId} :
      Active a frame → frame.function.Lists id → a.Opens frame id child → Active a child

/-- A call of interest in some activation. -/
def Comes (a : Analysis) (v : Visit) : Prop :=
  ∃ frame id, a.Active frame ∧ frame.function.Lists id ∧ a.Reports frame id v

theorem Active.fresh {a : Analysis} {frame : Frame} (h : a.Active frame) : a.Fresh frame := by
  cases h with
  | entry hmain =>
    exact ⟨List.mem_of_find?_eq_some hmain, fun act hact => absurd hact List.not_mem_nil⟩
  | opened _ _ hopens => exact hopens.fresh

theorem visits_eq (a : Analysis) {main : Function} (h : a.program.main? = some main) :
    a.visits = a.visitsFrom (.entry main) := by
  rw [visits, h]
  rfl

/-- Nothing that an activation visits is missed. -/
theorem Active.subset_visits {a : Analysis} {frame : Frame} (h : a.Active frame) :
    a.visitsFrom frame ⊆ a.visits := by
  induction h with
  | entry hmain =>
    rw [a.visits_eq hmain]
    exact List.Subset.refl _
  | opened hactive hlists hopens ih =>
    intro v hv
    exact ih ((a.mem_visitsFrom_iff hactive.fresh v).2 ⟨_, hlists, .inr ⟨_, hopens, hv⟩⟩)

/-- What an activation visits are calls of interest, its own or those of frames further up. The
induction is on how much deeper the walk may go. -/
theorem Active.comes {a : Analysis} {frame : Frame} (h : a.Active frame) {v : Visit}
    (hv : v ∈ a.visitsFrom frame) : a.Comes v := by
  obtain ⟨n, hn⟩ : ∃ n, a.settings.maxRecursionDepth - frame.depth = n := ⟨_, rfl⟩
  induction n using Nat.strongRecOn generalizing frame with
  | ind n ih =>
    obtain ⟨id, hlists, hrep | ⟨child, hopens, hchild⟩⟩ := (a.mem_visitsFrom_iff h.fresh v).1 hv
    · exact ⟨frame, id, h, hlists, hrep⟩
    · have deeper := hopens.depth_eq
      have room := hopens.enterable.depth
      exact ih _ (by omega) (h.opened hlists hopens) hchild rfl

theorem mem_visits_iff (a : Analysis) (v : Visit) : v ∈ a.visits ↔ a.Comes v := by
  constructor
  · intro hv
    cases hmain : a.program.main? with
    | none =>
      rw [visits, hmain] at hv
      cases hv
    | some main =>
      rw [a.visits_eq hmain] at hv
      exact (Active.entry hmain).comes hv
  · rintro ⟨frame, id, hactive, hlists, hrep⟩
    exact hactive.subset_visits
      ((a.mem_visitsFrom_iff hactive.fresh v).2 ⟨id, hlists, .inl hrep⟩)

theorem Reports.trace_eq {a : Analysis} {frame : Frame} {id : ValueId} {v : Visit}
    (h : a.Reports frame id v) : v.trace = frame.traceTo (frame.function.callSite id) := by
  cases h
  rfl

/-- A call instruction reports exactly when its callee is registered as a client or an endpoint. -/
theorem reports_iff (a : Analysis) (frame : Frame) (id : ValueId) :
    (∃ v, a.Reports frame id v) ↔ ∃ call callable callee index,
      a.Calls frame id call callable callee ∧
        (a.settings.classify callee.signature = some (.client, index) ∨
          a.settings.classify callee.signature = some (.endpoint, index)) := by
  constructor
  · rintro ⟨_, @⟨kind, call, callable, callee, index, calls, hc⟩⟩
    cases kind with
    | client => exact ⟨call, callable, callee, index, calls, .inl hc⟩
    | endpoint => exact ⟨call, callable, callee, index, calls, .inr hc⟩
  · rintro ⟨call, callable, callee, index, calls, hc | hc⟩
    · exact ⟨⟨.client, frame, _, callee, call, index⟩, .call calls hc⟩
    · exact ⟨⟨.endpoint, frame, _, callee, call, index⟩, .call calls hc⟩

/-- The walk comes to calls with exactly the traces of the calls of interest of activations. -/
theorem exists_visit_iff (a : Analysis) (trace : List Position) :
    (∃ v ∈ a.visits, v.trace = trace) ↔ ∃ frame id call callable callee index,
      a.Active frame ∧ frame.function.Lists id ∧ a.Calls frame id call callable callee ∧
      (a.settings.classify callee.signature = some (.client, index) ∨
        a.settings.classify callee.signature = some (.endpoint, index)) ∧
      trace = frame.traceTo (frame.function.callSite id) := by
  constructor
  · rintro ⟨v, hv, rfl⟩
    obtain ⟨frame, id, hactive, hlists, hrep⟩ := (a.mem_visits_iff v).1 hv
    obtain ⟨call, callable, callee, index, calls, hc⟩ := (a.reports_iff frame id).1 ⟨v, hrep⟩
    exact ⟨frame, id, call, callable, callee, index, hactive, hlists, calls, hc, hrep.trace_eq⟩
  · rintro ⟨frame, id, call, callable, callee, index, hactive, hlists, calls, hc, rfl⟩
    obtain ⟨v, hrep⟩ := (a.reports_iff frame id).2 ⟨_, _, _, _, calls, hc⟩
    exact ⟨v, (a.mem_visits_iff v).2 ⟨frame, id, hactive, hlists, hrep⟩, hrep.trace_eq⟩

/-- The walk returns unless the search for where some call of interest goes never ends. If it returns
it is sound and complete: what it reports was found at calls of interest of activations, and the traces
of these calls are exactly the traces that are reported, each of them once. -/
theorem walk_sound_complete (a : Analysis) :
    (a.walk = none ↔ ∃ frame id v, a.Active frame ∧ frame.function.Lists id ∧
      a.Reports frame id v ∧ a.locationText v = .endless) ∧
    ∀ found, a.walk = some found →
      (∀ kind, ∀ t ∈ found.targets kind, ∃ frame id v, a.Active frame ∧ frame.function.Lists id ∧
        a.Reports frame id v ∧ a.finding? v = some ⟨kind, t⟩) ∧
      (∀ trace, trace ∈ (found.clients ++ found.endpoints).map (·.trace) ↔
        ∃ frame id call callable callee index,
          a.Active frame ∧ frame.function.Lists id ∧ a.Calls frame id call callable callee ∧
          (a.settings.classify callee.signature = some (.client, index) ∨
            a.settings.classify callee.signature = some (.endpoint, index)) ∧
          trace = frame.traceTo (frame.function.callSite id)) ∧
      ((found.clients ++ found.endpoints).map (·.trace)).Nodup := by
  refine ⟨?_, fun found h => ⟨?_, ?_, nodup_traces_walk h⟩⟩
  · rw [walk_eq_none_iff]
    constructor
    · rintro ⟨v, hv, hendless⟩
      obtain ⟨frame, id, hactive, hlists, hrep⟩ := (a.mem_visits_iff v).1 hv
      exact ⟨frame, id, v, hactive, hlists, hrep, hendless⟩
    · rintro ⟨frame, id, v, hactive, hlists, hrep, hendless⟩
      exact ⟨v, (a.mem_visits_iff v).2 ⟨frame, id, hactive, hlists, hrep⟩, hendless⟩
  · intro kind t ht
    obtain ⟨v, hv, hfinding⟩ := exists_visit_of_mem h ht
    obtain ⟨frame, id, hactive, hlists, hrep⟩ := (a.mem_visits_iff v).1 hv
    exact ⟨frame, id, v, hactive, hlists, hrep, hfinding⟩
  · intro trace
    rw [mem_traces_iff h]
    exact a.exists_visit_iff trace

/-- A function that sends a request to where the format in a variable of the environment leads. The
only operand of the format is a conversion of itself. -/
def sender : Function :=
  { Function.declared 3 "shop/report" "report" "Send" with
    values := [
      ⟨"c0", "string", none, .const (.string "FORMAT")⟩,
      ⟨"t0", "string", some ⟨"report.go", 4⟩, .call ⟨.static 2, [0]⟩⟩,
      ⟨"t1", "any", none, .convert 2⟩,
      ⟨"t2", "*[1]any", none, .alloc⟩,
      ⟨"c1", "int", none, .const (.int 0)⟩,
      ⟨"t3", "*any", none, .indexAddr 3 4⟩,
      ⟨"", "", none, .store 5 2⟩,
      ⟨"t4", "[]any", none, .slice 3⟩,
      ⟨"t5", "string", some ⟨"report.go", 5⟩, .call ⟨.static 1, [1, 7]⟩⟩,
      ⟨"t6", "", some ⟨"report.go", 6⟩, .call ⟨.static 0, [8]⟩⟩]
    blocks := [⟨0, [1, 2, 3, 5, 6, 7, 8, 9], []⟩] }

/-- A program that sends a request to a fixed place before it calls the sender. -/
def reporter : Program where
  packages := [⟨"shop/main", "main", []⟩, ⟨"shop/report", "report", []⟩]
  methodSets := .empty
  functions := [
    .declared 0 "net/http" "http" "Get",
    .declared 1 "fmt" "fmt" "Sprintf",
    .declared 2 "os" "os" "Getenv",
    sender,
    { Function.declared 4 "shop/main" "main" "main" with
      values := [
        ⟨"c0", "string", none, .const (.string "http://b/")⟩,
        ⟨"t0", "", some ⟨"main.go", 3⟩, .call ⟨.static 0, [0]⟩⟩,
        ⟨"t1", "", some ⟨"main.go", 4⟩, .call ⟨.static 3, []⟩⟩]
      blocks := [⟨0, [1, 2], []⟩] }]

def reporting (environment : Environment) (service : String) : Analysis where
  program := reporter
  settings := { Settings.default with environment }
  service := service

section Reporting

variable (environment : Environment) (service : String)

theorem sender_format (inner : ValueId → Search String) : formatText inner sender [1, 7] = do
    let format ← inner 1
    return String.ofList (← expandFormat (operandText inner sender) format.toList [2]) := by
  have hstores : sender.elementStores 3 = [(0, 2)] := by decide
  have hvariadic : sender.variadic? 7 = some [2] := Function.variadic?_singleton rfl rfl hstores
  show (do
    let format ← inner 1
    let operands ← .ofOption (sender.variadic? 7)
    return String.ofList (← expandFormat (operandText inner sender) format.toList operands)) = _
  rw [hvariadic]
  rfl

/-- The walk comes to two requests. Where the second one goes is up to the variable. -/
theorem reporting_visits : ∃ first last, (reporting environment service).visits = [first, last] ∧
    first.trace = [⟨"main.go", 3⟩] ∧
    (reporting environment service).locationText first = .found "http://b/" ∧
    ∃ inner, (reporting environment service).locationText last = do
      let format ← .ofOption (environment.get? service "FORMAT")
      return String.ofList (← expandFormat (operandText inner sender) format.toList [2]) :=
  ⟨_, _, rfl, rfl, rfl, _, sender_format _⟩

/-- With a format that takes the operand the walk does not return. -/
theorem walk_reporting (h : environment.get? service "FORMAT" = some "%s") :
    (reporting environment service).walk = none := by
  obtain ⟨first, last, hvisits, -, -, inner, hlast⟩ := reporting_visits environment service
  have hwraps : sender.Wraps 2 2 := .inr rfl
  have hoperand : operandText inner sender 's' 2 = .endless :=
    operandText_endless inner (Function.underlying_of_wraps_self hwraps) 's'
  have hformat : expandFormat (operandText inner sender) "%s".toList [2] = .endless := by
    show (do
      let text ← operandText inner sender 's' 2
      return text.toList ++ (← expandFormat (operandText inner sender) [] [])) = _
    rw [hoperand]
    rfl
  refine walk_eq_none_iff.2 ⟨last, by simp [hvisits], ?_⟩
  rw [hlast, h, Search.ofOption_some, Search.found_bind, hformat]
  rfl

end Reporting

/-- The walk of the reporter does not return, so the request that its entry function sends to a fixed
place is not reported. -/
theorem reporting_incomplete :
    let a := reporting (Environment.set .empty "a" "FORMAT" "%s") "a"
    a.walk = none ∧ ∃ frame id call callable callee index,
      a.Active frame ∧ frame.function.Lists id ∧ a.Calls frame id call callable callee ∧
      (a.settings.classify callee.signature = some (.client, index) ∨
        a.settings.classify callee.signature = some (.endpoint, index)) ∧
      [⟨"main.go", 3⟩] = frame.traceTo (frame.function.callSite id) := by
  intro a
  obtain ⟨first, last, hvisits, htrace, -⟩ :=
    reporting_visits (Environment.set .empty "a" "FORMAT" "%s") "a"
  have hfirst : first ∈ a.visits := hvisits ▸ List.mem_cons_self
  exact ⟨walk_reporting _ _ rfl, (a.exists_visit_iff _).1 ⟨first, hfirst, htrace⟩⟩

end ServiceGraph.Analysis
