import ServiceGraph.Proofs.Walk.Repetition

namespace ServiceGraph

theorem Settings.isIgnored_of_subset {s s' : Settings} (h : s'.ignored ⊆ s.ignored)
    {package : String} (hnot : s.isIgnored package = false) : s'.isIgnored package = false := by
  have kept {name : String} (hname : s.ignored.contains name = false) :
      s'.ignored.contains name = false := by
    rw [← Bool.not_eq_true, List.contains_iff_mem] at hname ⊢
    exact fun hmem => hname (h hmem)
  rw [isIgnored, Bool.or_eq_false_iff] at hnot ⊢
  exact ⟨kept hnot.1, kept hnot.2⟩

namespace Analysis

/-- The same analysis with another bound on the depth and another list of ignored packages. -/
def withLimits (a : Analysis) (depth : Nat) (ignored : List String) : Analysis :=
  { a with settings := { a.settings with maxRecursionDepth := depth, ignored := ignored } }

theorem program_withLimits (a : Analysis) (depth : Nat) (ignored : List String) :
    (a.withLimits depth ignored).program = a.program := rfl

section Wider

variable {a : Analysis} {depth : Nat} {ignored : List String}
variable (hdepth : a.settings.maxRecursionDepth ≤ depth) (hignored : ignored ⊆ a.settings.ignored)
include hdepth hignored

theorem Enterable.withLimits {frame : Frame} {callee : Function} (h : a.Enterable frame callee) :
    (a.withLimits depth ignored).Enterable frame callee where
  body := h.body
  package := Settings.isIgnored_of_subset hignored h.package
  depth := Nat.lt_of_lt_of_le h.depth hdepth
  inactive := h.inactive

theorem Opens.withLimits {frame child : Frame} {id : ValueId} (h : a.Opens frame id child) :
    (a.withLimits depth ignored).Opens frame id child := by
  have program := a.program_withLimits depth ignored
  cases h with
  | call calls hc hent =>
    have calls' := calls.congr program
    exact .call calls' hc (hent.withLimits hdepth hignored)
  | handler calls hc harg hres hfun hent =>
    have calls' := calls.congr program
    have hres' := (resolveHandler_congr program _ _).trans hres
    exact .handler calls' hc harg hres' hfun (hent.withLimits hdepth hignored)

/-- Every activation stays one. -/
theorem Active.withLimits {frame : Frame} (h : a.Active frame) :
    (a.withLimits depth ignored).Active frame := by
  induction h with
  | entry hmain => exact .entry hmain
  | opened _ hlists hopens ih => exact ih.opened hlists (hopens.withLimits hdepth hignored)

theorem Comes.withLimits {v : Visit} (h : a.Comes v) : (a.withLimits depth ignored).Comes v := by
  obtain ⟨frame, id, hactive, hlists, ⟨calls, hc⟩⟩ := h
  exact ⟨frame, id, hactive.withLimits hdepth hignored, hlists,
    .call (calls.congr (a.program_withLimits depth ignored)) hc⟩

theorem visits_subset_withLimits : a.visits ⊆ (a.withLimits depth ignored).visits := by
  intro v hv
  exact (mem_visits_iff _ v).2 (((a.mem_visits_iff v).1 hv).withLimits hdepth hignored)

end Wider

/-- The limits have no part in what a value stands for. -/
theorem textWithin_withLimits (a : Analysis) (depth : Nat) (ignored : List String) (n : Nat) :
    (a.withLimits depth ignored).textWithin n = a.textWithin n := by
  induction n with
  | zero => rfl
  | succ n ih =>
    funext frame id
    rw [textWithin, textWithin, ih]
    rfl

theorem finding?_withLimits (a : Analysis) (depth : Nat) (ignored : List String) (v : Visit) :
    (a.withLimits depth ignored).finding? v = a.finding? v := by
  have htext : (a.withLimits depth ignored).resolve = a.resolve := a.textWithin_withLimits ..
  rw [finding?, finding?, locationText, locationText, htext]
  rfl

/-- A walk with a bound at least as large and fewer ignored packages comes to every call that a walk
without them comes to, and finds the same there. If it returns so does the other one, and it reports
every trace that the other one reports. -/
theorem traces_subset_withLimits (a : Analysis) (depth : Nat) (ignored : List String)
    (hdepth : a.settings.maxRecursionDepth ≤ depth) (hignored : ignored ⊆ a.settings.ignored) :
    (∀ v ∈ a.visits, v ∈ (a.withLimits depth ignored).visits ∧
      (a.withLimits depth ignored).finding? v = a.finding? v) ∧
    ∀ wide, (a.withLimits depth ignored).walk = some wide → ∃ strict, a.walk = some strict ∧
      (strict.clients ++ strict.endpoints).map (·.trace) ⊆
        (wide.clients ++ wide.endpoints).map (·.trace) := by
  have hvisits := visits_subset_withLimits hdepth hignored
  refine ⟨fun v hv => ⟨hvisits hv, a.finding?_withLimits depth ignored v⟩, fun wide hwide => ?_⟩
  cases hstrict : a.walk with
  | none =>
    obtain ⟨v, hv, hendless⟩ := walk_eq_none_iff.1 hstrict
    obtain ⟨t, ht⟩ := exists_finding hwide (hvisits hv)
    rw [finding?_withLimits, finding?_eq_none_iff.2 hendless] at ht
    cases ht
  | some strict =>
    refine ⟨strict, rfl, ?_⟩
    intro trace htrace
    obtain ⟨v, hv, rfl⟩ := (mem_traces_iff hstrict trace).1 htrace
    exact (mem_traces_iff hwide _).2 ⟨v, hvisits hv, rfl⟩

/-- One level is enough for the registrations of the shared handler, and with one more the walk comes
to the request in it. -/
theorem sharedHandler_traces_subset :
    let strict := sharedHandler.withLimits 1 ["fmt", "lib"]
    ∃ few many, strict.walk = some few ∧ (strict.withLimits 2 ["fmt"]).walk = some many ∧
      (few.clients ++ few.endpoints).map (·.trace) =
        [[⟨"main.go", 5⟩, ⟨"main.go", 10⟩], [⟨"main.go", 6⟩, ⟨"main.go", 10⟩]] ∧
      (few.clients ++ few.endpoints).map (·.trace) ⊆
        (many.clients ++ many.endpoints).map (·.trace) ∧
      many.clients.map (·.trace) = [[⟨"main.go", 10⟩, ⟨"main.go", 15⟩]] := by
  intro strict
  have hdepth : strict.settings.maxRecursionDepth ≤ 2 := by decide
  have hignored : ["fmt"] ⊆ strict.settings.ignored := by decide
  have hmany : ∃ many, (strict.withLimits 2 ["fmt"]).walk = some many ∧
      many.clients.map (·.trace) = [[⟨"main.go", 10⟩, ⟨"main.go", 15⟩]] := ⟨_, rfl, by decide⟩
  obtain ⟨many, hwide, hclients⟩ := hmany
  obtain ⟨few, hstrict, hsubset⟩ :=
    (strict.traces_subset_withLimits 2 ["fmt"] hdepth hignored).2 many hwide
  have htraces : strict.walk.map (fun found => (found.clients ++ found.endpoints).map (·.trace)) =
      some [[⟨"main.go", 5⟩, ⟨"main.go", 10⟩], [⟨"main.go", 6⟩, ⟨"main.go", 10⟩]] := by decide
  rw [hstrict] at htraces
  exact ⟨few, many, hstrict, hwide, Option.some.inj htraces, hsubset, hclients⟩

/-- A walk of the reporter that does not enter any function reports the request of its entry function.
With more levels it comes to the sender, and does not return. -/
theorem reporting_goes_deeper :
    let ignored := Settings.defaultIgnored
    let strict := (reporting (Environment.set .empty "a" "FORMAT" "%s") "a").withLimits 0 ignored
    strict.settings.maxRecursionDepth ≤ 16 ∧ ignored ⊆ strict.settings.ignored ∧
      strict.walk.map (fun found => (found.clients ++ found.endpoints).map (·.trace)) =
        some [[⟨"main.go", 3⟩]] ∧
      (strict.withLimits 16 ignored).walk = none :=
  ⟨by decide, fun _ h => h, by decide, walk_reporting _ _ rfl⟩

end Analysis

end ServiceGraph
