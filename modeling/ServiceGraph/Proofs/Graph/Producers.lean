import ServiceGraph.Proofs.Graph.Nodes

namespace ServiceGraph

/-- Parts that are one element or none are the elements that are there. -/
theorem flatMap_eq_map_filter {α β : Type} {p : α → Prop} [DecidablePred p] {f : α → β}
    {parts : α → List β} (h : ∀ x, parts x = if p x then [f x] else []) (xs : List α) :
    xs.flatMap parts = (xs.filter fun x => p x).map f := by
  induction xs with
  | nil => rfl
  | cons x rest ih =>
    rw [List.flatMap_cons, ih, h]
    by_cases hx : p x
    · simp [hx]
    · simp [hx]

namespace BusCall

/-- A call consumes the messages of a producer. -/
def Takes (c producer : BusCall) : Prop := c.role = .consumer ∧ c.subject = producer.subject

instance (c producer : BusCall) : Decidable (c.Takes producer) :=
  inferInstanceAs (Decidable (_ ∧ _))

/-- Nothing takes the messages of a producer but calls in its own service, or another service takes
them that has the name of the unknown one. -/
def ReceiverUnknown (calls : List BusCall) (producer : BusCall) : Prop :=
  (∀ c ∈ calls, c.Takes producer → c.serviceName = producer.serviceName) ∨
    ∃ c ∈ calls, c.Takes producer ∧
      c.serviceName = "UnknownService" ∧ c.serviceName ≠ producer.serviceName

instance (calls : List BusCall) (producer : BusCall) :
    Decidable (ReceiverUnknown calls producer) :=
  inferInstanceAs (Decidable (_ ∨ _))

/-- The edge of a producer to the unknown service. -/
def unknownEdge (producer : BusCall) : Edge :=
  ⟨producer.serviceName, "UnknownService", ⟨"NATS", producer.subject, "", [], producer.location⟩⟩

end BusCall

namespace Discovery

variable {d : Discovery} {producer : BusCall}

theorem receiverUnknown_iff : BusCall.ReceiverUnknown d.busCalls producer ↔
    consumersOf d.busCalls producer = [] ∨ "UnknownService" ∈ consumersOf d.busCalls producer := by
  refine or_congr ?_ ?_
  · rw [List.eq_nil_iff_forall_not_mem]
    constructor
    · intro own s hs
      obtain ⟨⟨c, hc, hrole, hsubject, rfl⟩, hne⟩ := mem_consumersOf.1 hs
      exact hne (own c hc ⟨hrole, hsubject⟩)
    · intro none c hc ⟨hrole, hsubject⟩
      by_contra hne
      exact none c.serviceName (mem_consumersOf.2 ⟨⟨c, hc, hrole, hsubject, rfl⟩, hne⟩)
  · rw [mem_consumersOf]
    constructor
    · rintro ⟨c, hc, ⟨hrole, hsubject⟩, hname, hne⟩
      exact ⟨⟨c, hc, hrole, hsubject, hname⟩, hname ▸ hne⟩
    · rintro ⟨⟨c, hc, hrole, hsubject, hname⟩, hne⟩
      exact ⟨c, hc, ⟨hrole, hsubject⟩, hname, hname ▸ hne⟩

/-- Of the edges of a producer at most one goes to the unknown service. -/
theorem filter_producerEdges (d : Discovery) (producer : BusCall) :
    (producerEdges d.busCalls producer).filter (·.target = "UnknownService") =
      if BusCall.ReceiverUnknown d.busCalls producer then [producer.unknownEdge] else [] := by
  rw [producerEdges]
  split
  case h_1 none =>
    rw [if_pos (receiverUnknown_iff.2 (.inl none))]
    rfl
  case h_2 hne =>
    have distinct : (consumersOf d.busCalls producer).Nodup :=
      (pairwise_consumersOf d.busCalls producer).nodup
    have known : BusCall.ReceiverUnknown d.busCalls producer ↔
        "UnknownService" ∈ consumersOf d.busCalls producer :=
      receiverUnknown_iff.trans (or_iff_right hne)
    rw [List.filter_map, if_congr known rfl rfl]
    simp only [Function.comp_def]
    rw [List.filter_eq, distinct.count]
    split
    · rfl
    · rfl

theorem filter_busEdges (d : Discovery) :
    (busEdges d.busCalls).filter (·.target = "UnknownService") =
      (d.busCalls.filter fun p => p.role = .producer ∧ p.ReceiverUnknown d.busCalls).map
        BusCall.unknownEdge := by
  rw [busEdges, List.filter_flatMap, flatMap_eq_map_filter d.filter_producerEdges,
    List.filter_filter]
  simp only [Bool.decide_and, Bool.and_comm]

theorem unknownEdge_mem_busEdges_iff (hp : producer ∈ d.busCalls)
    (hrole : producer.role = .producer) :
    producer.unknownEdge ∈ busEdges d.busCalls ↔ producer.ReceiverUnknown d.busCalls := by
  have hfilter : producer.unknownEdge ∈ busEdges d.busCalls ↔
      producer.unknownEdge ∈ (busEdges d.busCalls).filter (·.target = "UnknownService") := by
    simp [BusCall.unknownEdge]
  rw [hfilter, filter_busEdges]
  constructor
  · intro h
    -- another producer with the same edge has the same service and the same subject
    obtain ⟨other, hother, heq⟩ := List.mem_map.1 h
    have hunknown := (of_decide_eq_true (List.mem_filter.1 hother).2).2
    have hservice : other.serviceName = producer.serviceName := congrArg Edge.source heq
    have hsubject : other.subject = producer.subject := congrArg (·.call.url) heq
    simpa only [BusCall.ReceiverUnknown, BusCall.Takes, hservice, hsubject] using hunknown
  · intro h
    exact List.mem_map_of_mem (List.mem_filter.2 ⟨hp, decide_eq_true ⟨hrole, h⟩⟩)

/-- In the graph such an edge comes from the bus, since the edges of clients are calls of another
protocol. -/
theorem unknownEdge_mem_graph_iff : producer.unknownEdge ∈ d.graph.edges ↔
    producer.serviceName ≠ "UnknownService" ∧ producer.unknownEdge ∈ busEdges d.busCalls := by
  constructor
  · intro h
    have hpending := (mem_edges_graph_iff.1 h).1
    refine ⟨source_ne_target hpending, ?_⟩
    rcases List.mem_append.1 (List.mem_filter.1 hpending).1 with hclient | hbus
    · obtain ⟨client, -, heq⟩ := List.mem_map.1 hclient
      have hprotocol : "HTTP" = "NATS" := congrArg (·.call.protocol) heq
      exact absurd hprotocol (by decide)
    · exact hbus
  · rintro ⟨hne, hbus⟩
    have hpending : producer.unknownEdge ∈ d.pendingEdges :=
      List.mem_filter.2 ⟨List.mem_append_right _ hbus, bne_iff_ne.2 hne⟩
    exact mem_edges_of_target hpending rfl

/-- The edges of producers to the unknown service, in their order, are one for each producer whose
messages no other service takes, or whose messages are taken by a service with the name of the
unknown one. A producer has this edge just in these cases, and in the graph it is dropped only when
it starts where it ends. -/
theorem producers_point_at_unknown (d : Discovery) :
    (busEdges d.busCalls).filter (·.target = "UnknownService") =
      (d.busCalls.filter fun p => p.role = .producer ∧ p.ReceiverUnknown d.busCalls).map
        BusCall.unknownEdge ∧
    ∀ p ∈ d.busCalls, p.role = .producer →
      (p.unknownEdge ∈ busEdges d.busCalls ↔ p.ReceiverUnknown d.busCalls) ∧
      (p.unknownEdge ∈ d.graph.edges ↔
        p.serviceName ≠ "UnknownService" ∧ p.ReceiverUnknown d.busCalls) := by
  refine ⟨d.filter_busEdges, ?_⟩
  intro p hp hrole
  have hbus : p.unknownEdge ∈ busEdges d.busCalls ↔ p.ReceiverUnknown d.busCalls :=
    unknownEdge_mem_busEdges_iff hp hrole
  exact ⟨hbus, unknownEdge_mem_graph_iff.trans (and_congr_right fun _ => hbus)⟩

/-- A service that is the only one to take its own messages. -/
def ownConsumer : Discovery where
  clients := []
  endpoints := []
  busCalls := [
    ⟨.producer, "OrderCreatedSubject", "orders", "/svc/orders/main.go", 7⟩,
    ⟨.consumer, "OrderCreatedSubject", "orders", "/svc/orders/main.go", 9⟩]

/-- The messages have a consumer, and all of their consumers are in the service that sends them. Yet
they have an edge, which leads to the unknown service. -/
theorem ownConsumer_points_at_unknown :
    ¬(∀ p ∈ ownConsumer.busCalls, p.role = .producer →
      (p.unknownEdge ∈ busEdges ownConsumer.busCalls ↔
        ∀ c ∈ ownConsumer.busCalls, ¬c.Takes p)) ∧
    ¬(∀ p ∈ ownConsumer.busCalls, p.role = .producer →
      (∃ c ∈ ownConsumer.busCalls, c.Takes p) →
      (∀ c ∈ ownConsumer.busCalls, c.Takes p → c.serviceName = p.serviceName) →
        ∀ e ∈ ownConsumer.graph.edges, e.source = p.serviceName → e.call ≠ p.networkCall) := by
  decide

end Discovery

end ServiceGraph
