import ServiceGraph.Proofs.Graph.Nodes

namespace ServiceGraph

/-- Lists that ascend by their keys and have the same keys belong together element by element. -/
theorem forall₂_of_keys {α β : Type} {R : α → β → Prop} {key : α → String} {key' : β → String}
    {xs : List α} {ys : List β} (hxs : (xs.map key).Pairwise (· < ·))
    (hys : (ys.map key').Pairwise (· < ·)) (hkeys : ∀ k, k ∈ xs.map key ↔ k ∈ ys.map key')
    (h : ∀ x ∈ xs, ∀ y ∈ ys, key x = key' y → R x y) : List.Forall₂ R xs ys := by
  have same : List.Forall₂ (· = ·) (xs.map key) (ys.map key') := by
    rw [List.forall₂_eq_eq_eq]
    exact hxs.eq_of_mem_iff hys hkeys
  rw [List.forall₂_map_left_iff, List.forall₂_map_right_iff, List.forall₂_iff_zip] at same
  rw [List.forall₂_iff_zip]
  refine ⟨same.1, ?_⟩
  intro x y hxy
  obtain ⟨hx, hy⟩ := List.of_mem_zip hxy
  exact h x hx y hy (same.2 hxy)

/-- The same peer with the same number of calls, which are the same up to their order. -/
structure PeerCalls.SameUpToOrder (p q : PeerCalls) : Prop where
  service : p.service = q.service
  count : p.count = q.count
  calls : p.calls.Perm q.calls

namespace AdjacencyList

/-- The same services with the same peers, in the same order. Only the order of the calls to a peer
may be another one. -/
def SameUpToOrder (l l' : AdjacencyList) : Prop :=
  List.Forall₂ (fun e e' => e.1 = e'.1 ∧ List.Forall₂ PeerCalls.SameUpToOrder e.2 e'.2)
    l.entries l'.entries

variable {l l' : AdjacencyList} {g g' : Graph} {s : String} {peers : List PeerCalls}

theorem Regroups.mem_services_iff (h : l.Regroups g) (hs : l.get? s = some peers) (t : String) :
    t ∈ peers.map (·.service) ↔ ∃ e ∈ g.edges, e.source = s ∧ e.target = t := by
  rw [← h.peer_iff, List.mem_map]
  constructor
  · intro hpeer
    exact ⟨peers, hs, hpeer⟩
  · rintro ⟨peers', hs', hpeer⟩
    rw [hs] at hs'
    cases hs'
    exact hpeer

/-- What regroups the same edges in another order is the same up to the order of calls. -/
theorem Regroups.sameUpToOrder (h : l.Regroups g) (h' : l'.Regroups g')
    (hnodes : g.nodes = g'.nodes) (hedges : g.edges.Perm g'.edges) : l.SameUpToOrder l' := by
  -- services ascend, and so do the peers of each of them, so it suffices to compare names
  apply forall₂_of_keys h.keys_ascending h'.keys_ascending
  · intro s
    exact (h.mem_keys_iff s).trans (hnodes ▸ (h'.mem_keys_iff s).symm)
  rintro ⟨s, peers⟩ hmem ⟨_, peers'⟩ hmem' rfl
  have hs : l.get? s = some peers := Dict.get?_eq_some_iff.2 hmem
  have hs' : l'.get? s = some peers' := Dict.get?_eq_some_iff.2 hmem'
  refine ⟨rfl, ?_⟩
  apply forall₂_of_keys (h.peers_ascending s peers hs) (h'.peers_ascending s peers' hs')
  · intro t
    rw [h.mem_services_iff hs, h'.mem_services_iff hs']
    simp only [hedges.mem_iff]
  · intro peer hpeer peer' hpeer' hservice
    have calls : peer.calls.Perm peer'.calls := by
      rw [h.calls s peers hs peer hpeer, h'.calls s peers' hs' peer' hpeer', hservice]
      exact (hedges.filter _).map _
    have count : peer.count = peer'.count := by
      rw [(h.count s peers hs peer hpeer).1, (h'.count s peers' hs' peer' hpeer').1,
        calls.length_eq]
    exact ⟨hservice, count, calls⟩

end AdjacencyList

namespace Discovery

variable {d d' : Discovery}

theorem adjacency_graph_regroups (d : Discovery) : d.graph.adjacency.Regroups d.graph := by
  apply Graph.adjacency_regroups
  intro e he
  exact (Graph.accepts_iff.1 (accepts_graph he)).1

/-- The same findings, where clients and calls on the bus may stand in another order. -/
structure Reordered (d d' : Discovery) : Prop where
  clients : d.clients.Perm d'.clients
  endpoints : d.endpoints = d'.endpoints
  busCalls : d.busCalls.Perm d'.busCalls

namespace Reordered

variable (h : d.Reordered d')
include h

theorem services_eq : d.services = d'.services := by
  apply sortedSet_eq_of_mem_iff
  intro s
  simp only [List.mem_append, List.mem_map, h.endpoints, h.clients.mem_iff, h.busCalls.mem_iff]

theorem clientEdge_eq : d.clientEdge = d'.clientEdge := by
  funext client
  rw [clientEdge, clientEdge, clientTarget, clientTarget, h.services_eq, h.endpoints]

theorem consumersOf_eq : consumersOf d.busCalls = consumersOf d'.busCalls := by
  funext producer
  rw [consumersOf, consumersOf]
  congr 1
  apply sortedSet_eq_of_mem_iff
  intro s
  simp only [List.mem_map, List.mem_filter, h.busCalls.mem_iff]

theorem busEdges_perm : (busEdges d.busCalls).Perm (busEdges d'.busCalls) := by
  have hproducer : producerEdges d.busCalls = producerEdges d'.busCalls := by
    funext producer
    rw [producerEdges, producerEdges, h.consumersOf_eq]
  rw [busEdges, busEdges, hproducer]
  exact (h.busCalls.filter _).flatMap_right _

theorem pendingEdges_perm : d.pendingEdges.Perm d'.pendingEdges := by
  rw [pendingEdges, pendingEdges, h.clientEdge_eq]
  exact ((h.clients.map _).append h.busEdges_perm).filter _

theorem nodes_eq : d.nodes = d'.nodes := by
  rw [nodes, nodes, serviceNodes, serviceNodes, h.services_eq, h.pendingEdges_perm.any_eq]

theorem edges_graph_perm : d.graph.edges.Perm d'.graph.edges := by
  rw [edges_graph, edges_graph, nodeNames, nodeNames, h.nodes_eq]
  exact h.pendingEdges_perm.filter _

theorem nodes_graph_eq : d.graph.nodes = d'.graph.nodes := by
  rw [nodes_graph, nodes_graph, h.nodes_eq]

end Reordered

/-- The order in which calls are found changes only the order of calls to one peer. -/
theorem adjacency_reordered (d d' : Discovery) (h : d.Reordered d') :
    d.graph.adjacency.SameUpToOrder d'.graph.adjacency :=
  d.adjacency_graph_regroups.sameUpToOrder d'.adjacency_graph_regroups h.nodes_graph_eq
    h.edges_graph_perm

/-- A shop that asks for items at two places and tells two services what was sold. -/
def busyShop : Discovery where
  clients := [
    ⟨"net/http", "Get", "front", "http://stock:80/items", true, none, [⟨"front.go", 7⟩]⟩,
    ⟨"net/http", "Get", "front", "http://stock:80/items", true, none, [⟨"front.go", 8⟩]⟩,
    ⟨"net/http", "Post", "front", "", false, none, [⟨"front.go", 9⟩]⟩]
  endpoints := [⟨"net/http", "HandleFunc", "stock", "/items", true, none, [⟨"stock.go", 2⟩]⟩]
  busCalls := [
    ⟨.producer, "sold", "front", "front.go", 11⟩, ⟨.consumer, "sold", "stock", "stock.go", 8⟩,
    ⟨.consumer, "sold", "mail", "mail.go", 1⟩]

def busyShopReversed : Discovery :=
  ⟨busyShop.clients.reverse, busyShop.endpoints, busyShop.busCalls.reverse⟩

/-- The shop with its calls in reverse has its edges in another order, and the same adjacency list
up to order. -/
theorem busyShop_reordered : busyShop.Reordered busyShopReversed ∧
    busyShop.graph.edges ≠ busyShopReversed.graph.edges ∧
    busyShop.graph.adjacency.SameUpToOrder busyShopReversed.graph.adjacency := by
  have reordered : busyShop.Reordered busyShopReversed :=
    ⟨(List.reverse_perm _).symm, rfl, (List.reverse_perm _).symm⟩
  exact ⟨reordered, by decide, adjacency_reordered busyShop busyShopReversed reordered⟩

/-- Endpoints that are found in addition, after all others. -/
def register (d : Discovery) (more : List CallTarget) : Discovery :=
  { d with endpoints := d.endpoints ++ more }

theorem isService_register_iff {more : List CallTarget} {s : String} :
    (d.register more).IsService s ↔ d.IsService s ∨ ∃ e ∈ more, e.serviceName = s := by
  simp only [IsService, register, List.mem_append, or_and_right, exists_or, or_assoc]
  exact or_congr_right (or_congr_right or_comm)

section Register

variable {more : List CallTarget} (h : ∀ e ∈ more, ¬e.Listens)
include h

theorem portOf_register (s : String) :
    portOf (d.register more).endpoints s = portOf d.endpoints s := by
  have none : more.find? (fun e => e.isPort && e.serviceName == s) = none := by
    rw [List.find?_eq_none]
    intro e he hport
    exact h e he (CallTarget.listens_iff.2 (Bool.and_elim_left hport))
  rw [portOf, portOf, register, List.find?_append, none, Option.or_none]

theorem offers_register_iff {e : CallTarget} {url : String} :
    (d.register more).Offers e url ↔ d.Offers e url := by
  simp only [Offers, hasPort_iff, portOf_register h]

/-- A client that has a receiver keeps it. One whose receiver was unknown may now have one of the
services that the new endpoints belong to. -/
theorem Receives.eq_or_registered {client : CallTarget} {t t' : String} (hold : d.Receives client t)
    (hnew : (d.register more).Receives client t') :
    t' = t ∨ t = unknownService ∧ ∃ e ∈ more, e.serviceName = t' := by
  have same (hkeeps : (d.register more).Receives client t) : t' = t :=
    (receives_iff.1 hnew).symm.trans (receives_iff.1 hkeeps)
  cases hold with
  | named hn hs => exact .inl (same (.named hn (isService_register_iff.2 (.inl hs))))
  | unresolved hn hr => exact .inl (same (.unresolved hn hr))
  | offered hn hr first =>
    -- what comes after the first offer does not matter
    obtain ⟨hoffers, before, after, heq, hbefore⟩ := first
    have hoffers' := (offers_register_iff h).2 hoffers
    refine .inl (same (.offered hn hr ⟨hoffers', before, after ++ more, ?_, ?_⟩))
    · rw [Discovery.register, heq, List.append_assoc, List.cons_append]
    · intro y hy hoffered
      exact hbefore y hy ((offers_register_iff h).1 hoffered)
  | misnamed hn hs =>
    cases hnew with
    | named hn' hs' =>
      obtain rfl := Option.some.inj (hn.symm.trans hn')
      exact .inr ⟨rfl, (isService_register_iff.1 hs').resolve_left hs⟩
    | misnamed => exact .inl rfl
    | offered hn' | notOffered hn' | unresolved hn' => cases hn.symm.trans hn'
  | notOffered hn hr none =>
    cases hnew with
    | offered _ _ first =>
      have hmem := (List.mem_append.1 first.mem).resolve_left fun he =>
        none _ he ((offers_register_iff h).1 first.1)
      exact .inr ⟨rfl, _, hmem, rfl⟩
    | notOffered | unresolved => exact .inl rfl
    | named hn' | misnamed hn' => cases hn.symm.trans hn'

end Register

/-- More routes leave every client with the service that it was matched to. A client that was not
matched may only go to the service of one of the new endpoints. -/
theorem clientTarget_register (d : Discovery) (more : List CallTarget)
    (h : ∀ e ∈ more, ¬e.Listens) (client : CallTarget) :
    (d.clientTarget client ≠ "UnknownService" →
      (d.register more).clientTarget client = d.clientTarget client) ∧
    (d.clientTarget client = "UnknownService" →
      (d.register more).clientTarget client = "UnknownService" ∨
        ∃ e ∈ more, e.serviceName = (d.register more).clientTarget client) := by
  have hold : d.Receives client (d.clientTarget client) := receives_iff.2 rfl
  have hnew : (d.register more).Receives client ((d.register more).clientTarget client) :=
    receives_iff.2 rfl
  have target := hold.eq_or_registered h hnew
  constructor
  · intro hne
    exact target.resolve_right fun hregistered => hne hregistered.1
  · intro heq
    rw [heq] at target
    exact target.imp_right And.right

/-- A call to a route that looks as if it had a second port. -/
def portedCall : CallTarget :=
  ⟨"net/http", "Get", "a", "http://b:80/x:80", true, none, [⟨"main.go", 3⟩]⟩

def portedRoute : Discovery where
  clients := [portedCall]
  endpoints := [⟨"net/http", "HandleFunc", "b", "/x:80", true, none, [⟨"main.go", 5⟩]⟩]
  busCalls := []

/-- A route of a service with a slash in its name, which has the same address. -/
def slashedRoute : CallTarget :=
  ⟨"net/http", "HandleFunc", "b:80/x", "", true, none, [⟨"main.go", 5⟩]⟩

/-- The call stays with the service that had the address first. -/
theorem portedRoute_keeps_call :
    routeUrl portedRoute.endpoints slashedRoute = portedCall.requestLocation ∧
    (∀ e ∈ [slashedRoute], ¬e.Listens) ∧
    portedRoute.clientTarget portedCall = "b" ∧
    (portedRoute.register [slashedRoute]).clientTarget portedCall = "b" := by
  have route : ∀ e ∈ [slashedRoute], ¬e.Listens := by simp [slashedRoute, CallTarget.Listens]
  have first : portedRoute.clientTarget portedCall = "b" := by decide
  have kept := (clientTarget_register portedRoute [slashedRoute] route portedCall).1 (by decide)
  exact ⟨by decide, route, first, kept.trans first⟩

end Discovery

end ServiceGraph
