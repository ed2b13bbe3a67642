import ServiceGraph.Proofs.Annotations
import ServiceGraph.Proofs.Walk.Repetition

namespace ServiceGraph

/-- A call is resolved exactly if it has a location. -/
def CallTarget.Consistent (t : CallTarget) : Prop := t.isResolved = true ↔ t.requestLocation ≠ ""

namespace CallTarget

variable (t : CallTarget) (annotations : Annotations) (kind : CallKind)

theorem consistent_resolveTo (location : String) : (t.resolveTo location).Consistent := by
  simp [Consistent, resolveTo]

theorem consistent_annotate {t : CallTarget} (h : t.Consistent) (hint : CallHint) :
    (t.annotate hint).Consistent := by
  obtain ⟨_, url, service⟩ := hint
  cases url with
  | none => cases service <;> exact h
  | some url => cases service <;> exact t.consistent_resolveTo url

/-- An annotation changes the location, and with it whether the call is resolved, and the service
that is called. All else stays. -/
theorem applyHint_eq :
    ∃ location resolved service, t.applyHint annotations kind =
      { t with requestLocation := location, isResolved := resolved, targetService := service } := by
  unfold applyHint
  cases t.hint? annotations kind with
  | none => exact ⟨_, _, _, rfl⟩
  | some hint => exact ⟨_, _, _, (t.takesOver_annotate hint).rest⟩

theorem trace_applyHint : (t.applyHint annotations kind).trace = t.trace := by
  obtain ⟨_, _, _, h⟩ := t.applyHint_eq annotations kind
  rw [h]

theorem consistent_applyHint {t : CallTarget} (h : t.Consistent) :
    (t.applyHint annotations kind).Consistent := by
  unfold applyHint
  cases t.hint? annotations kind with
  | none => exact h
  | some hint => exact consistent_annotate h hint

end CallTarget

namespace Discovery

/-- All calls of a discovery are consistent. -/
def Consistent (d : Discovery) : Prop := ∀ kind, ∀ t ∈ d.targets kind, t.Consistent

/-- A change of what was found. -/
inductive Edit where
  | resolveTo (list : CallKind) (index : Nat) (location : String)
  | extend (other : Discovery)
  | annotate (list kind : CallKind) (annotations : Annotations)

def edit (d : Discovery) : Edit → Discovery
  | .resolveTo list index location =>
    d.setTargets list ((d.targets list).modify index (·.resolveTo location))
  | .extend other => d.append other
  | .annotate list kind annotations =>
    d.setTargets list (applyAnnotations (d.targets list) annotations kind)

theorem targets_setTargets (d : Discovery) (list kind : CallKind) (targets : List CallTarget) :
    (d.setTargets list targets).targets kind = if list = kind then targets else d.targets kind := by
  cases list <;> cases kind <;> rfl

theorem targets_append (d other : Discovery) (kind : CallKind) :
    (d.append other).targets kind = d.targets kind ++ other.targets kind := by
  cases kind <;> rfl

theorem Consistent.setTargets {d : Discovery} (h : d.Consistent) (list : CallKind)
    {targets : List CallTarget} (htargets : ∀ t ∈ targets, t.Consistent) :
    (d.setTargets list targets).Consistent := by
  intro kind t ht
  rw [targets_setTargets] at ht
  split at ht
  · exact htargets t ht
  · exact h kind t ht

theorem Consistent.edit {d : Discovery} (h : d.Consistent) (e : Edit)
    (hextend : ∀ other, e = .extend other → other.Consistent) : (d.edit e).Consistent := by
  cases e with
  | resolveTo list index location =>
    apply h.setTargets
    intro t ht
    obtain ⟨i, hi, heq⟩ := List.mem_iff_getElem.1 ht
    rw [List.getElem_modify] at heq
    split at heq
    · rw [← heq]
      exact CallTarget.consistent_resolveTo _ location
    · rw [← heq]
      exact h list _ (List.getElem_mem _)
  | extend other =>
    intro kind t ht
    rw [Discovery.edit, targets_append, List.mem_append] at ht
    rcases ht with ht | ht
    · exact h kind t ht
    · exact hextend other rfl kind t ht
  | annotate list kind annotations =>
    apply h.setTargets
    intro t ht
    obtain ⟨u, hu, heq⟩ := List.mem_map.1 ht
    subst heq
    exact CallTarget.consistent_applyHint annotations kind (h list u hu)

theorem Consistent.edits {d : Discovery} (h : d.Consistent) (edits : List Edit)
    (hextend : ∀ other, .extend other ∈ edits → other.Consistent) :
    (edits.foldl Discovery.edit d).Consistent := by
  induction edits generalizing d with
  | nil => exact h
  | cons e rest ih =>
    have hstep := h.edit e fun other he => hextend other (he ▸ List.mem_cons_self)
    exact ih hstep fun other hother => hextend other (List.mem_cons_of_mem _ hother)

theorem targets_annotate (d : Discovery) (annotations : Annotations) (kind : CallKind) :
    ((d.annotate annotations .client).annotate annotations .endpoint).targets kind =
      (d.targets kind).map (·.applyHint annotations kind) := by
  cases kind <;> rfl

end Discovery

namespace Analysis

variable {a : Analysis} {frame : Frame} {id : ValueId} {kind : CallKind} {t : CallTarget}

/-- What holds of every finding of an analysis. -/
structure Extracted (a : Analysis) (kind : CallKind) (t : CallTarget) : Prop where
  resolved_iff : t.isResolved = true ↔ t.requestLocation ≠ ""
  trace_ne_nil : t.trace ≠ []
  site : ∃ frame id call callable callee index, a.Active frame ∧ frame.function.Lists id ∧
    a.Calls frame id call callable callee ∧
    a.settings.classify callee.signature = some (kind.action, index) ∧
    t.methodName = callee.signature ∧ t.trace.getLast? = some (frame.function.callSite id)
  length_trace : t.trace.length ≤ a.settings.maxRecursionDepth + 1
  serviceName : t.serviceName = a.service

theorem Active.depth_le (h : a.Active frame) : frame.depth ≤ a.settings.maxRecursionDepth := by
  cases h with
  | entry => exact Nat.zero_le _
  | opened _ _ hopens => exact hopens.depth_le

theorem Active.length_trace_le (h : a.Active frame) : frame.top.trace.length ≤ frame.depth := by
  induction h with
  | entry => exact Nat.le_refl 0
  | opened _ _ hopens ih => exact hopens.length_trace_le_depth ih

theorem Comes.extracted {v : Visit} (h : a.Comes v) (hfinding : a.finding? v = some ⟨kind, t⟩) :
    a.Extracted kind t := by
  obtain ⟨frame, id, hactive, hlists, hrep⟩ := h
  have htrace : t.trace = frame.traceTo (frame.function.callSite id) :=
    (trace_of_finding? hfinding).trans hrep.trace_eq
  have hlast : t.trace.getLast? = some (frame.function.callSite id) := by
    rw [htrace, Frame.traceTo, List.getLast?_concat]
  obtain ⟨location, -, heq⟩ := finding?_eq_some_iff.1 hfinding
  cases heq
  refine ⟨CallTarget.consistent_resolveTo _ _, ?_, ?_, ?_, rfl⟩
  · intro hnil
    rw [hnil] at hlast
    cases hlast
  · obtain ⟨calls, hc⟩ := hrep
    exact ⟨frame, id, _, _, _, _, hactive, hlists, calls, hc, rfl, hlast⟩
  · have hlength := hactive.length_trace_le
    have hdepth := hactive.depth_le
    rw [htrace, Frame.traceTo, List.length_append, List.length_singleton]
    omega

theorem Extracted.applyHint (h : a.Extracted kind t) (annotations : Annotations) :
    a.Extracted kind (t.applyHint annotations kind) := by
  have hresolved := CallTarget.consistent_applyHint annotations kind h.resolved_iff
  obtain ⟨_, _, _, heq⟩ := t.applyHint_eq annotations kind
  rw [heq] at hresolved ⊢
  exact ⟨hresolved, h.trace_ne_nil, h.site, h.length_trace, h.serviceName⟩

section Walked

variable {walked : Discovery} (hwalk : a.walk = some walked)
include hwalk

theorem extracted_of_mem_walk (h : t ∈ walked.targets kind) : a.Extracted kind t := by
  obtain ⟨v, hv, hfinding⟩ := exists_visit_of_mem hwalk h
  exact ((a.mem_visits_iff v).1 hv).extracted hfinding

theorem extracted_of_mem_annotate {annotations : Annotations}
    (h : t ∈ ((walked.annotate annotations .client).annotate annotations .endpoint).targets kind) :
    a.Extracted kind t := by
  rw [Discovery.targets_annotate] at h
  obtain ⟨u, hu, heq⟩ := List.mem_map.1 h
  subst heq
  exact (extracted_of_mem_walk hwalk hu).applyHint annotations

end Walked

/-- All findings of a walk that returns, annotated or not, are resolved exactly if they have a location,
end in the call of interest that they stand for, stay within the limit and belong to the service, and
no two of them have the same trace. No later change parts being resolved from having a location. -/
theorem annotated_findings (a : Analysis) (annotations : Annotations) :
    (∀ walked, a.walk = some walked →
      let found := (walked.annotate annotations .client).annotate annotations .endpoint
      (∀ kind, ∀ t ∈ found.targets kind, a.Extracted kind t) ∧
      ((found.clients ++ found.endpoints).map (·.trace)).Nodup) ∧
    ∀ d : Discovery, d.Consistent → ∀ edits : List Discovery.Edit,
      (∀ other, .extend other ∈ edits → other.Consistent) →
        (edits.foldl Discovery.edit d).Consistent := by
  refine ⟨?_, fun d h edits => h.edits edits⟩
  intro walked hwalk found
  refine ⟨fun kind t ht => extracted_of_mem_annotate hwalk ht, ?_⟩
  have clients : found.clients = walked.clients.map (·.applyHint annotations .client) := rfl
  have endpoints : found.endpoints = walked.endpoints.map (·.applyHint annotations .endpoint) := rfl
  have traces : (found.clients ++ found.endpoints).map (·.trace) =
      (walked.clients ++ walked.endpoints).map (·.trace) := by
    simp only [clients, endpoints, List.map_append, List.map_map, Function.comp_def,
      CallTarget.trace_applyHint]
  rw [traces]
  exact nodup_traces_walk hwalk

end Analysis

end ServiceGraph
