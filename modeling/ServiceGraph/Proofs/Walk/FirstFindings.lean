import Mathlib.Data.List.Nodup
import Mathlib.Data.List.Perm.Basic
import ServiceGraph.Walk.Findings

namespace ServiceGraph

section Results

variable {α β : Type} {f : α → Option β} {items : List α}

theorem mapM_eq_some_iff {results : List β} :
    items.mapM f = some results ↔ items.map f = results.map some := by
  induction items generalizing results with
  | nil => cases results <;> simp
  | cons a items ih =>
    rw [List.mapM_cons, List.map_cons]
    simp only [Option.bind_eq_bind, Option.bind_eq_some_iff, Option.pure_def, Option.some.injEq, ih]
    constructor
    · rintro ⟨b, hb, rest, hrest, rfl⟩
      rw [hb, hrest, List.map_cons]
    · intro h
      cases results with
      | nil => cases h
      | cons b rest =>
        obtain ⟨hb, hrest⟩ := List.cons.inj h
        exact ⟨b, hb, rest, hrest, rfl⟩

theorem mapM_eq_none_iff : items.mapM f = none ↔ ∃ a ∈ items, f a = none := by
  induction items with
  | nil => simp
  | cons a items ih =>
    rw [List.mapM_cons, List.exists_mem_cons_iff, ← ih]
    cases f a with
    | none => simp
    | some b => cases items.mapM f <;> simp

end Results

/-- The first finding with a trace. -/
def firstWith? (findings : List Finding) (trace : List Position) : Option Finding :=
  findings.find? fun f => f.target.trace == trace

theorem firstWith?_eq_some_iff (findings : List Finding) (trace : List Position) (f : Finding) :
    firstWith? findings trace = some f ↔ f.target.trace = trace ∧
      ∃ before after, findings = before ++ f :: after ∧ ∀ g ∈ before, g.target.trace ≠ trace := by
  simp [firstWith?, List.find?_eq_some_iff_append]

theorem exists_firstWith? {findings : List Finding} {f : Finding} (h : f ∈ findings) :
    ∃ g, firstWith? findings f.target.trace = some g := by
  rw [← Option.isSome_iff_exists, firstWith?, List.find?_isSome]
  exact ⟨f, h, beq_self_eq_true _⟩

theorem firstWith?_cons (g : Finding) (rest : List Finding) (trace : List Position) :
    firstWith? (g :: rest) trace =
      if g.target.trace = trace then some g else firstWith? rest trace := by
  unfold firstWith?
  rw [List.find?_cons]
  split <;> simp_all

theorem mem_firstFindings_iff (seen : List (List Position)) (findings : List Finding) (f : Finding) :
    f ∈ firstFindings seen findings ↔
      f.target.trace ∉ seen ∧ firstWith? findings f.target.trace = some f := by
  induction findings generalizing seen with
  | nil => simp [firstFindings, firstWith?]
  | cons g rest ih =>
    rw [firstFindings, firstWith?_cons, List.contains_eq_mem]
    by_cases heq : g.target.trace = f.target.trace
    · -- The trace of `f` is met for the first time at `g`, unless it was met before.
      rw [if_pos heq, heq]
      by_cases hf : f.target.trace ∈ seen
      · simp [hf, ih]
      · simp [hf, ih, eq_comm]
    · have hne : f ≠ g := fun h => heq (congrArg (·.target.trace) h.symm)
      rw [if_neg heq]
      split
      · exact ih seen
      · simp [ih, hne, Ne.symm heq]

theorem nodup_firstFindings (seen : List (List Position)) (findings : List Finding) :
    ((firstFindings seen findings).map (·.target.trace)).Nodup := by
  induction findings generalizing seen with
  | nil => exact List.nodup_nil
  | cons g rest ih =>
    rw [firstFindings]
    split
    · exact ih seen
    · rw [List.map_cons, List.nodup_cons]
      refine ⟨fun hmem => ?_, ih _⟩
      obtain ⟨f, hf, heq⟩ := List.mem_map.1 hmem
      exact ((mem_firstFindings_iff _ _ f).1 hf).1 (heq ▸ List.mem_cons_self)

namespace Finding

variable (findings : List Finding)

theorem targets_discovery (kind : CallKind) :
    (discovery findings).targets kind = targetsOf kind findings := by
  cases kind <;> rfl

theorem mem_targets_discovery_iff (kind : CallKind) (t : CallTarget) :
    t ∈ (discovery findings).targets kind ↔ ⟨kind, t⟩ ∈ findings := by
  simp only [targets_discovery, targetsOf, List.mem_map, List.mem_filter, decide_eq_true_eq]
  constructor
  · rintro ⟨f, ⟨hf, rfl⟩, rfl⟩
    exact hf
  · exact fun hf => ⟨_, ⟨hf, rfl⟩, rfl⟩

/-- Clients and endpoints together are all findings. -/
theorem discovery_perm :
    ((discovery findings).clients ++ (discovery findings).endpoints).Perm
      (findings.map (·.target)) := by
  have endpoint : (findings.filter fun f => f.kind = .endpoint) =
      findings.filter fun f => !decide (f.kind = .client) := by
    refine List.filter_congr fun f _ => ?_
    cases f.kind <;> rfl
  rw [discovery, targetsOf, targetsOf, endpoint, ← List.map_append]
  exact (List.filter_append_perm _ _).map _

end Finding

namespace Analysis

variable {a : Analysis} {v : Visit} {f : Finding} {found : Discovery}

theorem finding?_eq_some_iff :
    a.finding? v = some f ↔
      ∃ location, (a.locationText v).ended? = some location ∧ ⟨v.kind, a.target v location⟩ = f :=
  Option.map_eq_some_iff

theorem finding?_eq_none_iff : a.finding? v = none ↔ a.locationText v = .endless := by
  rw [finding?, Option.map_eq_none_iff, Search.ended?_eq_none_iff]

theorem kind_of_finding? (h : a.finding? v = some f) : f.kind = v.kind := by
  obtain ⟨location, -, rfl⟩ := finding?_eq_some_iff.1 h
  rfl

theorem trace_of_finding? (h : a.finding? v = some f) : f.target.trace = v.trace := by
  obtain ⟨location, -, rfl⟩ := finding?_eq_some_iff.1 h
  rfl

theorem mem_findings_iff {findings : List Finding} (h : a.findings = some findings) :
    f ∈ findings ↔ ∃ v ∈ a.visits, a.finding? v = some f := by
  rw [← List.mem_map, mapM_eq_some_iff.1 h, List.mem_map]
  simp

theorem walk_eq_some_iff :
    a.walk = some found ↔ ∃ findings, a.findings = some findings ∧
      Finding.discovery (firstFindings [] findings) = found := by
  rw [walk, reported, Option.map_map, Option.map_eq_some_iff]
  rfl

/-- The walk returns unless the search for where a call goes never ends. -/
theorem walk_eq_none_iff : a.walk = none ↔ ∃ v ∈ a.visits, a.locationText v = .endless := by
  simp only [walk, reported, Option.map_eq_none_iff, findings, mapM_eq_none_iff,
    finding?_eq_none_iff]

/-- Where the walk returns, there is a finding at every call that it comes to. -/
theorem exists_finding (h : a.walk = some found) (hv : v ∈ a.visits) :
    ∃ t, a.finding? v = some ⟨v.kind, t⟩ := by
  cases hf : a.finding? v with
  | none =>
    rw [walk_eq_none_iff.2 ⟨v, hv, finding?_eq_none_iff.1 hf⟩] at h
    cases h
  | some f =>
    rw [← kind_of_finding? hf]
    exact ⟨f.target, rfl⟩

theorem mem_targets_iff {findings : List Finding} {kind : CallKind} {t : CallTarget} :
    t ∈ (Finding.discovery (firstFindings [] findings)).targets kind ↔
      firstWith? findings t.trace = some ⟨kind, t⟩ := by
  rw [Finding.mem_targets_discovery_iff, mem_firstFindings_iff]
  exact and_iff_right List.not_mem_nil

/-- No two reports have the same trace. -/
theorem targets_unique (h : a.walk = some found) {kind kind' : CallKind} {t t' : CallTarget}
    (ht : t ∈ found.targets kind) (ht' : t' ∈ found.targets kind') (htrace : t.trace = t'.trace) :
    kind = kind' ∧ t = t' := by
  obtain ⟨findings, -, rfl⟩ := walk_eq_some_iff.1 h
  have hfirst := mem_targets_iff.1 ht
  rw [htrace, mem_targets_iff.1 ht'] at hfirst
  cases hfirst
  exact ⟨rfl, rfl⟩

/-- What is reported was found at a call that the walk comes to. -/
theorem exists_visit_of_mem (h : a.walk = some found) {kind : CallKind} {t : CallTarget}
    (ht : t ∈ found.targets kind) : ∃ v ∈ a.visits, a.finding? v = some ⟨kind, t⟩ := by
  obtain ⟨findings, hfindings, rfl⟩ := walk_eq_some_iff.1 h
  exact (mem_findings_iff hfindings).1 (List.mem_of_find?_eq_some (mem_targets_iff.1 ht))

theorem nodup_traces_walk (h : a.walk = some found) :
    ((found.clients ++ found.endpoints).map (·.trace)).Nodup := by
  obtain ⟨findings, -, rfl⟩ := walk_eq_some_iff.1 h
  rw [((Finding.discovery_perm _).map _).nodup_iff, List.map_map]
  exact nodup_firstFindings [] findings

/-- The traces that are reported are those of the calls that the walk comes to. -/
theorem mem_traces_iff (h : a.walk = some found) (trace : List Position) :
    trace ∈ (found.clients ++ found.endpoints).map (·.trace) ↔
      ∃ v ∈ a.visits, v.trace = trace := by
  obtain ⟨findings, hfindings, rfl⟩ := walk_eq_some_iff.1 h
  rw [((Finding.discovery_perm _).map _).mem_iff, List.map_map, List.mem_map]
  constructor
  · rintro ⟨f, hf, rfl⟩
    have hfirst := ((mem_firstFindings_iff _ _ f).1 hf).2
    obtain ⟨v, hv, hfinding⟩ :=
      (mem_findings_iff hfindings).1 (List.mem_of_find?_eq_some hfirst)
    exact ⟨v, hv, (trace_of_finding? hfinding).symm⟩
  · rintro ⟨v, hv, rfl⟩
    obtain ⟨t, hfinding⟩ := exists_finding h hv
    obtain ⟨g, hg⟩ := exists_firstWith? ((mem_findings_iff hfindings).2 ⟨v, hv, hfinding⟩)
    have hsame : g.target.trace = v.trace :=
      ((firstWith?_eq_some_iff _ _ g).1 hg).1.trans (trace_of_finding? hfinding)
    refine ⟨g, (mem_firstFindings_iff _ _ g).2 ⟨List.not_mem_nil, ?_⟩, hsame⟩
    rw [hsame, ← trace_of_finding? hfinding]
    exact hg

end Analysis

end ServiceGraph
