import ServiceGraph.Proofs.Graph.Grouping

namespace ServiceGraph

namespace Graph

/-- Nodes stand in ascending order and are found by their names. Edges run between different nodes.
The unknown service, and no other, is marked as such, and it is there only if an edge needs it. -/
structure WellFormed (g : Graph) : Prop where
  ascending : (g.nodes.map (·.name)).Pairwise (· < ·)
  node?_eq_some_iff : ∀ name n, g.node? name = some n ↔ n ∈ g.nodes ∧ n.name = name
  isUnknown_iff : ∀ n ∈ g.nodes, n.isUnknown = true ↔ n.name = "UnknownService"
  loopless : ∀ e ∈ g.edges, e.source ≠ e.target
  ends : ∀ e ∈ g.edges, (∃ n ∈ g.nodes, n.name = e.source) ∧ ∃ n ∈ g.nodes, n.name = e.target
  unknown_iff : (∃ n ∈ g.nodes, n.name = "UnknownService") ↔
    ∃ e ∈ g.edges, e.target = "UnknownService"

theorem node?_eq_some_iff_of_nodup {g : Graph} (h : (g.nodes.map (·.name)).Nodup) (name : String)
    (n : ServiceNode) : g.node? name = some n ↔ n ∈ g.nodes ∧ n.name = name := by
  constructor
  · intro hfind
    have hname := List.find?_some hfind
    exact ⟨List.mem_of_find?_eq_some hfind, by simpa using hname⟩
  · rintro ⟨hmem, rfl⟩
    cases hfind : g.node? n.name with
    | none =>
      have hnone := List.find?_eq_none.1 hfind n hmem
      simp at hnone
    | some m =>
      have hname : m.name = n.name := by simpa using List.find?_some hfind
      rw [List.inj_on_of_nodup_map h (List.mem_of_find?_eq_some hfind) hmem hname]

end Graph

namespace Discovery

variable {d : Discovery}

theorem nodes_graph (d : Discovery) : d.graph.nodes = d.nodes := by
  rw [graph, Graph.nodes_connectAll, Graph.ofNodes]

theorem names_graph (d : Discovery) : d.graph.nodes.map (·.name) = d.nodeNames := by
  rw [nodes_graph, nodeNames]

theorem exists_node_iff {s : String} : (∃ n ∈ d.graph.nodes, n.name = s) ↔ s ∈ d.nodeNames := by
  rw [← List.mem_map, names_graph]

theorem mem_edges_graph_iff {e : Edge} :
    e ∈ d.graph.edges ↔ e ∈ d.pendingEdges ∧ e.source ∈ d.nodeNames := by
  rw [edges_graph, List.mem_filter, decide_eq_true_iff]

theorem source_ne_target {e : Edge} (h : e ∈ d.pendingEdges) : e.source ≠ e.target := by
  simpa using (List.mem_filter.1 h).2

theorem accepts_graph {e : Edge} (h : e ∈ d.graph.edges) : d.graph.accepts e = true :=
  Graph.accepts_of_mem_connectAll h

/-- An edge to the unknown service starts elsewhere, so the node that it needs makes it stay. -/
theorem mem_edges_of_target {e : Edge} (h : e ∈ d.pendingEdges) (hu : e.target = unknownService) :
    e ∈ d.graph.edges := by
  have hs : e.source ≠ unknownService := hu ▸ source_ne_target h
  exact mem_edges_graph_iff.2 ⟨h, (source_mem_nodeNames_iff h).2 (.inl hs)⟩

theorem graph_wellFormed (d : Discovery) : d.graph.WellFormed := by
  have ascending : (d.graph.nodes.map (·.name)).Pairwise (· < ·) := by
    rw [names_graph, nodeNames_eq_keys]
    exact Dict.pairwise_keys _
  refine ⟨ascending, Graph.node?_eq_some_iff_of_nodup ascending.nodup, ?_, ?_, ?_, ?_⟩
  · intro n hn
    rw [nodes_graph] at hn
    rcases mem_serviceNodes_iff.1 (mem_serviceNodes_of_mem_nodes hn) with ⟨s, -, hne, rfl⟩ | ⟨rfl, -⟩
    · exact iff_of_false Bool.false_ne_true hne
    · exact iff_of_true rfl rfl
  · intro e he
    exact source_ne_target (mem_edges_graph_iff.1 he).1
  · intro e he
    exact Graph.accepts_iff.1 (accepts_graph he)
  · rw [exists_node_iff, mem_nodeNames_iff]
    constructor
    · rintro (⟨-, hne⟩ | ⟨-, e, he, hu⟩)
      · exact absurd rfl hne
      · exact ⟨e, mem_edges_of_target he hu, hu⟩
    · rintro ⟨e, he, hu⟩
      exact .inr ⟨rfl, e, (mem_edges_graph_iff.1 he).1, hu⟩

/-- A call between services goes to the unknown one. -/
def CallsUnknown (d : Discovery) : Prop := ∃ e ∈ d.pendingEdges, e.target = "UnknownService"

/-- The services are the nodes of the graph and the keys of its adjacency list. The reserved name is
among them just if some call goes there. Calls between services are edges, in their order, as long as
none of them starts in a service with the reserved name, or there is a node for it. -/
theorem graph_keeps_calls (d : Discovery) :
    (∀ s, (d.graph.node? s).isSome ↔
      d.IsService s ∧ s ≠ "UnknownService" ∨ s = "UnknownService" ∧ d.CallsUnknown) ∧
    (∀ s, s ∈ d.graph.adjacency.keys ↔
      d.IsService s ∧ s ≠ "UnknownService" ∨ s = "UnknownService" ∧ d.CallsUnknown) ∧
    (∀ e ∈ d.pendingEdges, e.source ≠ "UnknownService" ∨ d.CallsUnknown →
      d.graph.accepts e = true ∧ e ∈ d.graph.edges) ∧
    ((∀ e ∈ d.pendingEdges, e.source ≠ "UnknownService") ∨ d.CallsUnknown →
      d.graph.edges = d.pendingEdges) := by
  have kept {e : Edge} (he : e ∈ d.pendingEdges)
      (h : e.source ≠ "UnknownService" ∨ d.CallsUnknown) : e ∈ d.graph.edges :=
    mem_edges_graph_iff.2 ⟨he, (source_mem_nodeNames_iff he).2 h⟩
  have nodes (s : String) : (∃ n ∈ d.graph.nodes, n.name = s) ↔
      d.IsService s ∧ s ≠ "UnknownService" ∨ s = "UnknownService" ∧ d.CallsUnknown :=
    exists_node_iff.trans mem_nodeNames_iff
  refine ⟨?_, ?_, ?_, ?_⟩
  · intro s
    simp only [← nodes s, Graph.node?, List.find?_isSome, beq_iff_eq]
  · intro s
    have sources : ∀ e ∈ d.graph.edges, ∃ n ∈ d.graph.nodes, n.name = e.source := by
      intro e he
      exact (Graph.accepts_iff.1 (accepts_graph he)).1
    exact (d.graph.mem_keys_adjacency_iff sources s).trans (nodes s)
  · intro e he h
    exact ⟨accepts_graph (kept he h), kept he h⟩
  · intro h
    rw [edges_graph, List.filter_eq_self]
    intro e he
    have hsource : e.source ≠ "UnknownService" ∨ d.CallsUnknown := h.imp_left fun hs => hs e he
    exact decide_eq_true (mem_edges_graph_iff.1 (kept he hsource)).2

/-- A service with the reserved name that calls another one, while nothing calls it. -/
def reserved : Discovery where
  clients := [
    ⟨"net/http", "net/http.Get", "UnknownService", "http://a:80/x", true, none, [⟨"main.go", 3⟩]⟩]
  endpoints := [⟨"net/http", "net/http.HandleFunc", "a", "/x", true, none, [⟨"main.go", 5⟩]⟩]
  busCalls := []

/-- The service with the reserved name is neither a node nor a key, and its call is dropped. -/
theorem reserved_drops_call :
    ¬(∀ s, reserved.IsService s → (reserved.graph.node? s).isSome) ∧
    ¬(∀ s, reserved.IsService s → s ∈ reserved.graph.adjacency.keys) ∧
    ¬(∀ e ∈ reserved.pendingEdges, reserved.graph.accepts e = true) ∧
    reserved.graph.edges.length ≠ reserved.pendingEdges.length := by
  have service : reserved.IsService "UnknownService" := by simp [IsService, reserved]
  refine ⟨?_, ?_, by decide, by decide⟩
  · intro h
    exact absurd (h _ service) (by decide)
  · intro h
    exact absurd (h _ service) (by decide)

end Discovery

end ServiceGraph
