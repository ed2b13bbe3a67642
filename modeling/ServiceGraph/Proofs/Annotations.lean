import Mathlib.Data.List.Forall2
import ServiceGraph.Annotations

namespace ServiceGraph

theorem lineAbove_iff {line below : UInt32} :
    line.toNat + 1 = below.toNat ↔ below ≠ 0 ∧ line = below - 1 := by
  rw [ne_eq, ← UInt32.toNat_inj, ← UInt32.toNat_inj, UInt32.toNat_sub]
  have hline := line.toNat_lt
  have hbelow := below.toNat_lt
  simp only [UInt32.toNat_zero, UInt32.reduceToNat]
  omega

namespace CallTarget

variable {t : CallTarget} {annotations : Annotations} {kind : CallKind} {a b : CallHint}

/-- An annotation applies to a call: the call is not resolved, and on the line above it, among the
texts for its service, stands one that reads as the annotation, which is of the kind. -/
def Hinted (t : CallTarget) (annotations : Annotations) (kind : CallKind) (a : CallHint) : Prop :=
  t.isResolved = false ∧ ∃ entries site line text,
    Dict.get? annotations t.serviceName = some entries ∧
    t.trace.getLast? = some site ∧ line.toNat + 1 = site.line.toNat ∧
    Dict.get? entries ⟨normalisePath site.file, line⟩ = some text ∧
    CallHint.parse text.toList = .ok a ∧ a.kind = kind

/-- A call that differs from another one in what an annotation says. -/
structure TakesOver (t : CallTarget) (a : CallHint) (t' : CallTarget) : Prop where
  url : ∀ url, a.url = some url → t'.requestLocation = url ∧ (t'.isResolved = true ↔ url ≠ "")
  noUrl : a.url = none → t'.requestLocation = t.requestLocation ∧ t'.isResolved = t.isResolved
  service : ∀ service, a.targetService = some service → t'.targetService = some service
  noService : a.targetService = none → t'.targetService = t.targetService
  rest : t' = { t with
    requestLocation := t'.requestLocation
    isResolved := t'.isResolved
    targetService := t'.targetService }

/-- What becomes of a call to which annotations of a kind are applied. -/
inductive Becomes (annotations : Annotations) (kind : CallKind) (t : CallTarget) :
    CallTarget → Prop where
  | hinted {a : CallHint} {t' : CallTarget} :
      t.Hinted annotations kind a → t.TakesOver a t' → Becomes annotations kind t t'
  | untouched : (∀ a, ¬t.Hinted annotations kind a) → Becomes annotations kind t t

theorem annotationPosition?_eq_some_iff {p : Position} : t.annotationPosition? = some p ↔
    ∃ site line, t.trace.getLast? = some site ∧ line.toNat + 1 = site.line.toNat ∧
      p = ⟨normalisePath site.file, line⟩ := by
  rw [annotationPosition?, Option.bind_eq_bind, Option.bind_eq_some_iff]
  refine exists_congr fun site => ?_
  simp only [lineAbove_iff, exists_and_left, and_assoc, exists_eq_left]
  refine and_congr_right fun _ => ?_
  by_cases hline : site.line = 0
  · simp [hline]
  · simp [hline, eq_comm]

theorem annotationText?_eq_some_iff {text : String} :
    t.annotationText? annotations = some text ↔
      t.isResolved = false ∧ ∃ entries p, Dict.get? annotations t.serviceName = some entries ∧
        t.annotationPosition? = some p ∧ Dict.get? entries p = some text := by
  rw [annotationText?]
  cases t.isResolved with
  | true => simp
  | false => simp [Option.bind_eq_some_iff]

theorem hint?_eq_some_iff_text : t.hint? annotations kind = some a ↔
    ∃ text, t.annotationText? annotations = some text ∧
      CallHint.parse text.toList = .ok a ∧ a.kind = kind := by
  rw [hint?]
  cases t.annotationText? annotations with
  | none => simp
  | some text =>
    cases hparse : CallHint.parse text.toList with
    | error fault => simp [hparse]
    | ok b =>
      have swap : b.kind = kind ∧ b = a ↔ b = a ∧ a.kind = kind := by
        rw [and_comm]
        exact and_congr_right fun heq => by rw [heq]
      simpa [hparse] using swap

theorem hint?_eq_some_iff : t.hint? annotations kind = some a ↔ t.Hinted annotations kind a := by
  rw [hint?_eq_some_iff_text]
  simp only [annotationText?_eq_some_iff, annotationPosition?_eq_some_iff, Hinted]
  constructor
  · rintro ⟨text, ⟨hunresolved, entries, _, hentries, ⟨site, line, hsite, hline, rfl⟩, htext⟩,
      hreads⟩
    exact ⟨hunresolved, entries, site, line, text, hentries, hsite, hline, htext, hreads⟩
  · rintro ⟨hunresolved, entries, site, line, text, hentries, hsite, hline, htext, hreads⟩
    exact ⟨text, ⟨hunresolved, entries, _, hentries, ⟨site, line, hsite, hline, rfl⟩, htext⟩,
      hreads⟩

instance (t : CallTarget) (annotations : Annotations) (kind : CallKind) :
    Decidable (∃ a, t.Hinted annotations kind a) :=
  decidable_of_iff ((t.hint? annotations kind).isSome = true) (by
    simp only [Option.isSome_iff_exists, hint?_eq_some_iff])

theorem takesOver_annotate (t : CallTarget) (a : CallHint) : t.TakesOver a (t.annotate a) := by
  obtain ⟨_, url, service⟩ := a
  cases url <;> cases service <;> constructor <;> simp [annotate, resolveTo]

theorem applyHint_of_hinted (h : t.Hinted annotations kind a) :
    t.applyHint annotations kind = t.annotate a := by
  rw [applyHint, hint?_eq_some_iff.2 h]

theorem applyHint_of_untouched (h : ∀ a, ¬t.Hinted annotations kind a) :
    t.applyHint annotations kind = t := by
  have none : t.hint? annotations kind = none := by
    rw [Option.eq_none_iff_forall_ne_some]
    intro a ha
    exact h a (hint?_eq_some_iff.1 ha)
  rw [applyHint, none]

theorem becomes_applyHint (t : CallTarget) (annotations : Annotations) (kind : CallKind) :
    t.Becomes annotations kind (t.applyHint annotations kind) := by
  by_cases h : ∃ a, t.Hinted annotations kind a
  · obtain ⟨a, ha⟩ := h
    rw [applyHint_of_hinted ha]
    exact .hinted ha (t.takesOver_annotate a)
  · rw [not_exists] at h
    rw [applyHint_of_untouched h]
    exact .untouched h

theorem annotate_annotate (t : CallTarget) (a : CallHint) :
    (t.annotate a).annotate a = t.annotate a := by
  obtain ⟨_, url, service⟩ := a
  cases url <;> cases service <;> rfl

/-- No other annotation applies to the call that an annotation made: its service and its place are
those of the call as it was. -/
theorem Hinted.eq_of_annotate (h : t.Hinted annotations kind a)
    (h' : (t.annotate a).Hinted annotations kind b) : b = a := by
  have hrest := (t.takesOver_annotate a).rest
  rw [hrest] at h'
  have again : t.Hinted annotations kind b := ⟨h.1, h'.2⟩
  exact Option.some.inj ((hint?_eq_some_iff.2 again).symm.trans (hint?_eq_some_iff.2 h))

theorem applyHint_applyHint (t : CallTarget) (annotations : Annotations) (kind : CallKind) :
    (t.applyHint annotations kind).applyHint annotations kind = t.applyHint annotations kind := by
  by_cases h : ∃ a, t.Hinted annotations kind a
  · obtain ⟨a, ha⟩ := h
    rw [applyHint_of_hinted ha]
    by_cases h' : ∃ b, (t.annotate a).Hinted annotations kind b
    · -- still unresolved, so the annotation applies once more
      obtain ⟨b, hb⟩ := h'
      rw [applyHint_of_hinted hb, ha.eq_of_annotate hb, annotate_annotate]
    · exact applyHint_of_untouched (not_exists.1 h')
  · rw [applyHint_of_untouched (not_exists.1 h), applyHint_of_untouched (not_exists.1 h)]

end CallTarget

theorem countAnnotated_eq (targets : List CallTarget) (annotations : Annotations)
    (kind : CallKind) :
    countAnnotated targets annotations kind =
      targets.countP fun t => ∃ a, t.Hinted annotations kind a := by
  rw [countAnnotated, List.countP_eq_length_filter]
  congr 2
  funext t
  rw [Bool.eq_iff_iff, decide_eq_true_iff, Option.isSome_iff_exists]
  simp only [CallTarget.hint?_eq_some_iff]

/-- Annotations change the calls that they apply to, in what they say, and leave everything else.
The number that is counted is that of these calls, calls do not affect each other, and a second time
nothing changes. -/
theorem applyAnnotations_exact (targets : List CallTarget) (annotations : Annotations)
    (kind : CallKind) :
    List.Forall₂ (CallTarget.Becomes annotations kind) targets
      (applyAnnotations targets annotations kind) ∧
    countAnnotated targets annotations kind =
      targets.countP (fun t => ∃ a, t.Hinted annotations kind a) ∧
    (∀ more, applyAnnotations (targets ++ more) annotations kind =
        applyAnnotations targets annotations kind ++ applyAnnotations more annotations kind ∧
      countAnnotated (targets ++ more) annotations kind =
        countAnnotated targets annotations kind + countAnnotated more annotations kind) ∧
    applyAnnotations (applyAnnotations targets annotations kind) annotations kind =
      applyAnnotations targets annotations kind := by
  refine ⟨?_, countAnnotated_eq targets annotations kind, ?_, ?_⟩
  · rw [applyAnnotations, List.forall₂_map_right_iff, List.forall₂_same]
    intro t _
    exact t.becomes_applyHint annotations kind
  · intro more
    simp only [countAnnotated_eq, List.countP_append, applyAnnotations, List.map_append, and_self]
  · simp only [applyAnnotations, List.map_map, Function.comp_def, CallTarget.applyHint_applyHint]

end ServiceGraph
