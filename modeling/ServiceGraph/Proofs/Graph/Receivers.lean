import Mathlib.Data.List.Sort
import ServiceGraph.Graph.Matching
import ServiceGraph.Proofs.SortedSet

namespace ServiceGraph

/-- The first element with a property. -/
def FirstIn {α : Type} (p : α → Prop) (xs : List α) (x : α) : Prop :=
  p x ∧ ∃ before after, xs = before ++ x :: after ∧ ∀ y ∈ before, ¬p y

theorem firstIn_iff_find? {α : Type} {p : α → Prop} {q : α → Bool} (h : ∀ x, p x ↔ q x = true)
    {xs : List α} {x : α} : FirstIn p xs x ↔ xs.find? q = some x := by
  simp [FirstIn, List.find?_eq_some_iff_append, h]

theorem FirstIn.mem {α : Type} {p : α → Prop} {xs : List α} {x : α} (h : FirstIn p xs x) :
    x ∈ xs := by
  obtain ⟨_, before, after, rfl, _⟩ := h
  simp

theorem singleton_isPrefix_iff {α : Type} {x : α} {xs : List α} :
    [x] <+: xs ↔ xs.head? = some x := by
  cases xs <;> simp [eq_comm]

namespace CallTarget

/-- The location of an endpoint is a port. -/
def Listens (e : CallTarget) : Prop := [':'] <+: e.requestLocation.toList

/-- The location of an endpoint is a path, which may be empty. -/
def Serves (e : CallTarget) : Prop := e.requestLocation = "" ∨ ['/'] <+: e.requestLocation.toList

theorem listens_iff {e : CallTarget} : e.Listens ↔ e.isPort = true := by
  simp [Listens, isPort, singleton_isPrefix_iff]

theorem serves_iff {e : CallTarget} : e.Serves ↔ e.isRoute = true := by
  simp [Serves, isRoute, singleton_isPrefix_iff]

end CallTarget

namespace Discovery

variable {d : Discovery}

/-- Something was found in the service. -/
def IsService (d : Discovery) (s : String) : Prop :=
  (∃ c ∈ d.clients, c.serviceName = s) ∨ (∃ e ∈ d.endpoints, e.serviceName = s) ∨
    ∃ c ∈ d.busCalls, c.serviceName = s

theorem mem_services {s : String} : s ∈ d.services ↔ d.IsService s := by
  simp [services, IsService]

/-- The port on which a service listens: the first one among its endpoints. -/
inductive HasPort (d : Discovery) (s : String) : String → Prop where
  | announced {e : CallTarget} :
      FirstIn (fun e => e.serviceName = s ∧ e.Listens) d.endpoints e →
      HasPort d s e.requestLocation
  | default : (∀ e ∈ d.endpoints, e.serviceName = s → ¬e.Listens) → HasPort d s ":80"

theorem hasPort_iff {s port : String} : d.HasPort s port ↔ portOf d.endpoints s = port := by
  have spec (e : CallTarget) :
      e.serviceName = s ∧ e.Listens ↔ (e.isPort && e.serviceName == s) = true := by
    simp [CallTarget.listens_iff, and_comm]
  constructor
  · rintro (first | absent)
    · rw [portOf, (firstIn_iff_find? spec).1 first]
    · have hnone : d.endpoints.find? (fun e => e.isPort && e.serviceName == s) = none :=
        List.find?_eq_none.2 fun e he hq => absent e he ((spec e).2 hq).1 ((spec e).2 hq).2
      rw [portOf, hnone]
      rfl
  · rintro rfl
    rw [portOf]
    split
    case h_1 e he => exact .announced ((firstIn_iff_find? spec).2 he)
    case h_2 hnone =>
      exact .default fun e he hs hl => List.find?_eq_none.1 hnone e he ((spec e).1 ⟨hs, hl⟩)

/-- An endpoint makes its service answer at an address. -/
def Offers (d : Discovery) (e : CallTarget) (url : String) : Prop :=
  e.Serves ∧ ∃ port, d.HasPort e.serviceName port ∧
    url = "http://" ++ e.serviceName ++ port ++ e.requestLocation

theorem offers_iff {e : CallTarget} {url : String} :
    d.Offers e url ↔ (e.isRoute && url == routeUrl d.endpoints e) = true := by
  simp [Offers, CallTarget.serves_iff, hasPort_iff, routeUrl]

theorem lookup_routes (url : String) :
    (routes d.endpoints).lookup url =
      (d.endpoints.find? fun e => e.isRoute && url == routeUrl d.endpoints e).map
        (·.serviceName) := by
  -- Ports come from all endpoints, so the list that is searched is another one in the induction.
  have among (es : List CallTarget) :
      ((es.filter (·.isRoute)).map fun e => (routeUrl d.endpoints e, e.serviceName)).lookup url =
        (es.find? fun e => e.isRoute && url == routeUrl d.endpoints e).map (·.serviceName) := by
    induction es with
    | nil => rfl
    | cons e rest ih =>
      by_cases hr : e.isRoute
      · by_cases hu : url = routeUrl d.endpoints e
        · simp [hr, hu]
        · simp [hr, List.lookup_cons, beq_eq_false_iff_ne.2 hu, ih]
      · simp [hr, ih]
  exact among d.endpoints

/-- The service that a client call goes to. -/
inductive Receives (d : Discovery) (client : CallTarget) : String → Prop where
  | named {s : String} :
      client.targetService = some s → d.IsService s → Receives d client s
  | misnamed {s : String} :
      client.targetService = some s → ¬d.IsService s → Receives d client "UnknownService"
  | offered {e : CallTarget} :
      client.targetService = none → client.isResolved = true →
      FirstIn (d.Offers · client.requestLocation) d.endpoints e →
      Receives d client e.serviceName
  | notOffered :
      client.targetService = none → client.isResolved = true →
      (∀ e ∈ d.endpoints, ¬d.Offers e client.requestLocation) →
      Receives d client "UnknownService"
  | unresolved :
      client.targetService = none → client.isResolved = false →
      Receives d client "UnknownService"

theorem receives_iff {client : CallTarget} {t : String} :
    d.Receives client t ↔ d.clientTarget client = t := by
  constructor
  · intro h
    rw [clientTarget]
    cases h with
    | named hn hs =>
      rw [hn]
      exact if_pos (List.contains_iff_mem.2 (mem_services.2 hs))
    | misnamed hn hs =>
      rw [hn]
      exact if_neg fun h => hs (mem_services.1 (List.contains_iff_mem.1 h))
    | offered hn hr first =>
      simp [hn, hr, lookup_routes, (firstIn_iff_find? fun _ => offers_iff).1 first]
    | notOffered hn hr none =>
      have hf := List.find?_eq_none.2 fun e he h => none e he (offers_iff.2 h)
      simp only [hn, hr, if_true, lookup_routes, hf, Option.map_none, Option.getD_none]
      rfl
    | unresolved hn hr =>
      rw [hn, hr]
      rfl
  · rintro rfl
    rw [clientTarget]
    split
    case h_1 named hn =>
      split
      case isTrue h => exact .named hn (mem_services.1 (List.contains_iff_mem.1 h))
      case isFalse h =>
        exact .misnamed hn fun hs => h (List.contains_iff_mem.2 (mem_services.2 hs))
    case h_2 hn =>
      split
      case isFalse hr => exact .unresolved hn (Bool.eq_false_iff.2 hr)
      case isTrue hr =>
        rw [lookup_routes]
        cases hf : d.endpoints.find? _ with
        | none => exact .notOffered hn hr fun e he h => List.find?_eq_none.1 hf e he (offers_iff.1 h)
        | some e => exact .offered hn hr ((firstIn_iff_find? fun _ => offers_iff).2 hf)

theorem Receives.isService {client : CallTarget} {t : String} (h : d.Receives client t) :
    d.IsService t ∨ t = unknownService := by
  cases h with
  | named _ hs => exact .inl hs
  | offered _ _ first => exact .inl (.inr (.inl ⟨_, first.mem, rfl⟩))
  | misnamed | notOffered | unresolved => exact .inr rfl

/-- A service other than that of a producer takes its messages. -/
def Consumes (d : Discovery) (producer : BusCall) (s : String) : Prop :=
  (∃ c ∈ d.busCalls, c.role = .consumer ∧ c.subject = producer.subject ∧ c.serviceName = s) ∧
    s ≠ producer.serviceName

theorem mem_consumersOf {producer : BusCall} {s : String} :
    s ∈ consumersOf d.busCalls producer ↔ d.Consumes producer s := by
  simp [consumersOf, Consumes, and_assoc]

theorem pairwise_consumersOf (calls : List BusCall) (producer : BusCall) :
    (consumersOf calls producer).Pairwise (· < ·) :=
  (pairwise_sortedSet _).filter _

theorem Consumes.isService {producer : BusCall} {s : String} (h : d.Consumes producer s) :
    d.IsService s := by
  obtain ⟨⟨c, hc, _, _, rfl⟩, _⟩ := h
  exact .inr (.inr ⟨c, hc, rfl⟩)

end Discovery

end ServiceGraph
