import Mathlib.Data.List.Forall2
import ServiceGraph.Proofs.Graph.Receivers

namespace ServiceGraph

namespace Graph

theorem nodes_connect (g : Graph) (e : Edge) : (g.connect e).nodes = g.nodes := by
  rw [connect]
  split <;> rfl

theorem edges_connect (g : Graph) (e : Edge) :
    (g.connect e).edges = g.edges ++ [e].filter g.accepts := by
  rw [connect]
  split <;> simp [*]

theorem accepts_congr {g g' : Graph} (h : g.nodes = g'.nodes) : g.accepts = g'.accepts := by
  funext e
  rw [accepts, accepts, node?, node?, node?, node?, h]

theorem edges_connectAll (g : Graph) (edges : List Edge) :
    (g.connectAll edges).edges = g.edges ++ edges.filter g.accepts := by
  induction edges generalizing g with
  | nil => simp [connectAll]
  | cons e rest ih =>
    have step := ih (g.connect e)
    rw [accepts_congr (g.nodes_connect e), edges_connect, List.append_assoc,
      ← List.filter_append] at step
    exact step

theorem nodes_connectAll (g : Graph) (edges : List Edge) :
    (g.connectAll edges).nodes = g.nodes := by
  induction edges generalizing g with
  | nil => rfl
  | cons e rest ih => exact (ih (g.connect e)).trans (g.nodes_connect e)

theorem accepts_iff {g : Graph} {e : Edge} : g.accepts e = true ↔
    (∃ n ∈ g.nodes, n.name = e.source) ∧ ∃ n ∈ g.nodes, n.name = e.target := by
  simp [accepts, node?]

/-- Both ends of every edge are nodes, however edges were added. -/
theorem accepts_of_mem_connectAll {nodes : List ServiceNode} {edges : List Edge} {e : Edge}
    (h : e ∈ ((ofNodes nodes).connectAll edges).edges) :
    ((ofNodes nodes).connectAll edges).accepts e = true := by
  rw [accepts_congr ((ofNodes nodes).nodes_connectAll edges)]
  rw [edges_connectAll, ofNodes, List.nil_append] at h
  exact (List.mem_filter.1 h).2

theorem accepts_ofNodes_iff {nodes : List ServiceNode} {e : Edge} :
    (ofNodes nodes).accepts e = true ↔
      e.source ∈ nodes.map (·.name) ∧ e.target ∈ nodes.map (·.name) := by
  rw [accepts_iff, List.mem_map, List.mem_map]
  rfl

end Graph

theorem forall₂_iff_map {α β : Type} {R : α → β → Prop} {f : α → β} (h : ∀ x y, R x y ↔ f x = y)
    {xs : List α} {ys : List β} : List.Forall₂ R xs ys ↔ xs.map f = ys := by
  have hR : R = fun x y => f x = y := funext₂ fun x y => propext (h x y)
  rw [hR, ← List.forall₂_map_left_iff, List.forall₂_eq_eq_eq]

namespace Discovery

variable {d : Discovery}

/-- The edge of a client call. -/
def IsClientEdge (d : Discovery) (client : CallTarget) (e : Edge) : Prop :=
  ∃ target, d.Receives client target ∧
    e = ⟨client.serviceName, target,
      ⟨"HTTP", client.requestLocation, client.methodName, [], client.location⟩⟩

/-- The edges of a producer: one for each consumer, in ascending order. -/
inductive AreProducerEdges (d : Discovery) (producer : BusCall) : List Edge → Prop where
  | consumed {peers : List String} :
      peers ≠ [] → peers.Pairwise (· < ·) → (∀ s, s ∈ peers ↔ d.Consumes producer s) →
      AreProducerEdges d producer (peers.map fun peer =>
        ⟨producer.serviceName, peer, ⟨"NATS", producer.subject, "", [], producer.location⟩⟩)
  | unconsumed :
      (∀ s, ¬d.Consumes producer s) →
      AreProducerEdges d producer [⟨producer.serviceName, "UnknownService",
        ⟨"NATS", producer.subject, "", [], producer.location⟩⟩]

/-- The edges of all clients and then those of all producers, in the order in which they were found,
without those from a service to itself. -/
def AreEdges (d : Discovery) (edges : List Edge) : Prop :=
  ∃ ofClients ofProducers,
    List.Forall₂ d.IsClientEdge d.clients ofClients ∧
    List.Forall₂ d.AreProducerEdges (d.busCalls.filter (·.role = .producer)) ofProducers ∧
    edges = (ofClients ++ ofProducers.flatten).filter fun e => e.source != e.target

theorem isClientEdge_iff {client : CallTarget} {e : Edge} :
    d.IsClientEdge client e ↔ d.clientEdge client = e := by
  simp only [IsClientEdge, receives_iff, exists_eq_left']
  exact eq_comm

theorem areProducerEdges_iff {producer : BusCall} {edges : List Edge} :
    d.AreProducerEdges producer edges ↔ producerEdges d.busCalls producer = edges := by
  constructor
  · intro h
    rw [producerEdges]
    cases h with
    | @consumed peers hne ascending members =>
      have heq : consumersOf d.busCalls producer = peers :=
        (pairwise_consumersOf d.busCalls producer).eq_of_mem_iff ascending fun s =>
          mem_consumersOf.trans (members s).symm
      rw [heq]
      cases peers with
      | nil => exact absurd rfl hne
      | cons => rfl
    | unconsumed none =>
      have heq : consumersOf d.busCalls producer = [] :=
        List.eq_nil_iff_forall_not_mem.2 fun s hs => none s (mem_consumersOf.1 hs)
      rw [heq]
      rfl
  · rintro rfl
    rw [producerEdges]
    split
    case h_1 heq =>
      exact .unconsumed fun s hs => List.not_mem_nil (heq ▸ mem_consumersOf.2 hs)
    case h_2 hne =>
      exact .consumed hne (pairwise_consumersOf d.busCalls producer) fun s => mem_consumersOf

theorem areEdges_iff {edges : List Edge} : d.AreEdges edges ↔ d.pendingEdges = edges := by
  have clients {es : List Edge} :
      List.Forall₂ d.IsClientEdge d.clients es ↔ d.clients.map d.clientEdge = es :=
    forall₂_iff_map (R := d.IsClientEdge) fun _ _ => isClientEdge_iff
  have producers {calls : List BusCall} {ess : List (List Edge)} :
      List.Forall₂ d.AreProducerEdges calls ess ↔ calls.map (producerEdges d.busCalls) = ess :=
    forall₂_iff_map (R := d.AreProducerEdges) fun _ _ => areProducerEdges_iff
  rw [pendingEdges, busEdges, List.flatMap_def]
  constructor
  · rintro ⟨ofClients, ofProducers, hc, hp, rfl⟩
    rw [clients.1 hc, producers.1 hp]
  · rintro rfl
    exact ⟨_, _, clients.2 rfl, producers.2 rfl, rfl⟩

/-- Every edge starts in a service and ends in one or in the unknown one. -/
theorem isService_of_mem_pendingEdges {e : Edge} (h : e ∈ d.pendingEdges) :
    d.IsService e.source ∧ (d.IsService e.target ∨ e.target = unknownService) := by
  have h := (List.mem_filter.1 h).1
  rcases List.mem_append.1 h with h | h
  · obtain ⟨client, hc, rfl⟩ := List.mem_map.1 h
    exact ⟨.inl ⟨client, hc, rfl⟩, (receives_iff.2 rfl).isService⟩
  · obtain ⟨producer, hp, h⟩ := List.mem_flatMap.1 h
    have hp := (List.mem_filter.1 hp).1
    rw [producerEdges] at h
    split at h
    case h_1 =>
      cases List.mem_singleton.1 h
      exact ⟨.inr (.inr ⟨producer, hp, rfl⟩), .inr rfl⟩
    case h_2 =>
      obtain ⟨peer, hpeer, rfl⟩ := List.mem_map.1 h
      exact ⟨.inr (.inr ⟨producer, hp, rfl⟩), .inl (mem_consumersOf.1 hpeer).isService⟩

theorem mem_serviceNodes_iff {n : ServiceNode} :
    n ∈ d.serviceNodes ↔ (∃ s, d.IsService s ∧ s ≠ unknownService ∧ n = .known s) ∨
      (n = .unknown ∧ ∃ e ∈ d.pendingEdges, e.target = unknownService) := by
  rw [serviceNodes, List.mem_append, List.mem_map]
  refine or_congr ?_ ?_
  · simp only [List.mem_filter, mem_services, bne_iff_ne, and_assoc]
    exact exists_congr fun s => and_congr_right fun _ => and_congr_right fun _ => eq_comm
  · split
    case isTrue h => simp_all
    case isFalse h => simp_all

/-- The names of the nodes. -/
def nodeNames (d : Discovery) : List String := d.nodes.map (·.name)

theorem mem_serviceNodes_of_mem_entries {name : String} {n : ServiceNode}
    (h : (name, n) ∈ (Dict.ofList (d.serviceNodes.map fun n => (n.name, n))).entries) :
    n ∈ d.serviceNodes ∧ n.name = name := by
  obtain ⟨m, hm, heq⟩ := List.mem_map.1 (Dict.mem_of_get?_ofList (Dict.get?_eq_some_iff.2 h))
  obtain ⟨rfl, rfl⟩ := Prod.mk.inj heq
  exact ⟨hm, rfl⟩

theorem mem_serviceNodes_of_mem_nodes {n : ServiceNode} (h : n ∈ d.nodes) : n ∈ d.serviceNodes := by
  obtain ⟨⟨name, m⟩, hm, rfl⟩ := List.mem_map.1 h
  exact (mem_serviceNodes_of_mem_entries hm).1

theorem nodeNames_eq_keys (d : Discovery) :
    d.nodeNames = (Dict.ofList (d.serviceNodes.map fun n => (n.name, n))).keys := by
  rw [nodeNames, nodes, List.map_map]
  apply List.map_congr_left
  rintro ⟨name, n⟩ hn
  exact (mem_serviceNodes_of_mem_entries hn).2

theorem mem_nodeNames_iff {s : String} :
    s ∈ d.nodeNames ↔ (d.IsService s ∧ s ≠ unknownService) ∨
      (s = unknownService ∧ ∃ e ∈ d.pendingEdges, e.target = unknownService) := by
  have names : s ∈ d.nodeNames ↔ ∃ n ∈ d.serviceNodes, n.name = s := by
    rw [nodeNames_eq_keys, Dict.mem_keys_ofList, List.map_map, List.mem_map]
    rfl
  rw [names]
  constructor
  · rintro ⟨n, hn, rfl⟩
    rcases mem_serviceNodes_iff.1 hn with ⟨s, hs, hne, rfl⟩ | ⟨rfl, hunknown⟩
    · exact .inl ⟨hs, hne⟩
    · exact .inr ⟨rfl, hunknown⟩
  · rintro (⟨hs, hne⟩ | ⟨rfl, hunknown⟩)
    · exact ⟨.known s, mem_serviceNodes_iff.2 (.inl ⟨s, hs, hne, rfl⟩), rfl⟩
    · exact ⟨.unknown, mem_serviceNodes_iff.2 (.inr ⟨rfl, hunknown⟩), rfl⟩

theorem target_mem_nodeNames {e : Edge} (h : e ∈ d.pendingEdges) : e.target ∈ d.nodeNames := by
  by_cases hu : e.target = unknownService
  · exact mem_nodeNames_iff.2 (.inr ⟨hu, e, h, hu⟩)
  · rcases (isService_of_mem_pendingEdges h).2 with hs | hs
    · exact mem_nodeNames_iff.2 (.inl ⟨hs, hu⟩)
    · exact absurd hs hu

/-- Where an edge starts there is a node, unless its source has the name of the unknown service and
nothing goes to that. -/
theorem source_mem_nodeNames_iff {e : Edge} (h : e ∈ d.pendingEdges) : e.source ∈ d.nodeNames ↔
    e.source ≠ unknownService ∨ ∃ e' ∈ d.pendingEdges, e'.target = unknownService := by
  have service := (isService_of_mem_pendingEdges h).1
  rw [mem_nodeNames_iff]
  by_cases hu : e.source = unknownService
  · simp [hu]
  · simp [hu, service]

theorem edges_graph (d : Discovery) :
    d.graph.edges = d.pendingEdges.filter fun e => e.source ∈ d.nodeNames := by
  rw [graph, Graph.edges_connectAll, Graph.ofNodes, List.nil_append]
  apply List.filter_congr
  intro e he
  rw [Bool.eq_iff_iff, decide_eq_true_iff]
  exact Graph.accepts_ofNodes_iff.trans (and_iff_left (target_mem_nodeNames he))

theorem edges_graph_eq (h : ¬d.IsService unknownService) : d.graph.edges = d.pendingEdges := by
  rw [edges_graph, List.filter_eq_self]
  intro e he
  refine decide_eq_true ((source_mem_nodeNames_iff he).2 (.inl ?_))
  intro hu
  exact h (hu ▸ (isService_of_mem_pendingEdges he).1)

/-- The graph has exactly the edges that the calls of clients and producers stand for. -/
theorem graph_edges_iff (d : Discovery) (h : ¬d.IsService "UnknownService") (edges : List Edge) :
    d.graph.edges = edges ↔ d.AreEdges edges := by
  rw [edges_graph_eq h, areEdges_iff]

/-- A shop whose stock is asked over the network, also by itself, and that tells two other services
what was sold. The port of the stock is found after the path that it serves. -/
def shop : Discovery where
  clients := [
    ⟨"net/http", "Get", "front", "http://stock:8080/items", true, none, [⟨"front.go", 7⟩]⟩,
    ⟨"net/http", "Get", "stock", "http://stock:8080/items", true, none, [⟨"stock.go", 5⟩]⟩,
    ⟨"net/http", "Post", "front", "", false, some "bank", [⟨"front.go", 9⟩]⟩]
  endpoints := [
    ⟨"net/http", "HandleFunc", "stock", "/items", true, none, [⟨"stock.go", 2⟩]⟩,
    ⟨"net/http", "ListenAndServe", "stock", ":8080", true, none, [⟨"stock.go", 3⟩]⟩]
  busCalls := [
    ⟨.consumer, "sold", "stock", "stock.go", 8⟩, ⟨.consumer, "sold", "front", "front.go", 4⟩,
    ⟨.producer, "sold", "front", "front.go", 11⟩, ⟨.consumer, "sold", "mail", "mail.go", 1⟩]

theorem shop_areEdges : ¬shop.IsService "UnknownService" ∧ shop.AreEdges [
    ⟨"front", "stock", ⟨"HTTP", "http://stock:8080/items", "Get", [], "front.go:7"⟩⟩,
    ⟨"front", "UnknownService", ⟨"HTTP", "", "Post", [], "front.go:9"⟩⟩,
    ⟨"front", "mail", ⟨"NATS", "sold", "", [], "front.go:11"⟩⟩,
    ⟨"front", "stock", ⟨"NATS", "sold", "", [], "front.go:11"⟩⟩] := by
  have known : ¬shop.IsService "UnknownService" := by simp [IsService, shop]
  exact ⟨known, (graph_edges_iff shop known _).1 (by decide)⟩

end Discovery

end ServiceGraph
