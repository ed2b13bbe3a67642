import ServiceGraph.Graph.Adjacency
import ServiceGraph.Proofs.Graph.Edges

namespace ServiceGraph

/-- Calls by source and target. -/
abbrev CallTable := Dict String (Dict String (List NetworkCall))

namespace CallTable

/-- Adds the call of an edge behind those that have the same source and target. -/
def add (d : CallTable) (e : Edge) : CallTable :=
  d.update e.source .empty (·.update e.target [] (· ++ [e.call]))

def peersOf (d : CallTable) (s : String) : Dict String (List NetworkCall) := (d.get? s).getD .empty

def callsAt (d : CallTable) (s t : String) : List NetworkCall := ((d.peersOf s).get? t).getD []

/-- The edges that the calls of a table belong to. -/
def edges (d : CallTable) : List Edge :=
  d.entries.flatMap fun e => e.2.entries.flatMap fun p => p.2.map fun c => ⟨e.1, p.1, c⟩

section Add

variable (d : CallTable) (e : Edge) (s t : String)

theorem mem_keys_add : s ∈ (d.add e).keys ↔ e.source = s ∨ s ∈ d.keys := by
  rw [add, Dict.update, Dict.mem_keys_insert, eq_comm]

theorem peersOf_add : (d.add e).peersOf s =
    if s = e.source then (d.peersOf s).update e.target [] (· ++ [e.call]) else d.peersOf s := by
  rw [peersOf, add, Dict.get?_update]
  split
  next h =>
    rw [h]
    rfl
  next => rfl

theorem mem_keys_peersOf_add : t ∈ ((d.add e).peersOf s).keys ↔
    (e.source = s ∧ e.target = t) ∨ t ∈ (d.peersOf s).keys := by
  rw [peersOf_add]
  split
  next h => simp [h, Dict.update, Dict.mem_keys_insert, eq_comm]
  next h => simp [Ne.symm h]

theorem callsAt_add : (d.add e).callsAt s t =
    d.callsAt s t ++ ([e].filter fun e => e.source = s ∧ e.target = t).map (·.call) := by
  rw [callsAt, peersOf_add]
  by_cases hs : s = e.source
  · rw [if_pos hs, Dict.get?_update]
    by_cases ht : t = e.target
    · simp [callsAt, hs, ht]
    · simp [callsAt, hs, ht, Ne.symm ht]
  · simp [callsAt, hs, Ne.symm hs]

theorem edges_add_perm : (d.add e).edges.Perm (d.edges ++ [e]) := by
  -- once for the source, and within its peers once for the target
  apply Dict.flatMap_update_perm
  · rfl
  · intro peers
    apply Dict.flatMap_update_perm
    · rfl
    · intro calls
      simp

end Add

section AddAll

variable (d : CallTable) (es : List Edge) (s t : String)

/-- What one edge brings about, or was there before, holds after all edges if one of them brings it
about, or it was there before. -/
theorem foldl_add_iff {P : CallTable → Prop} {Q : Edge → Prop}
    (step : ∀ d e, P (add d e) ↔ Q e ∨ P d) : P (es.foldl add d) ↔ (∃ e ∈ es, Q e) ∨ P d := by
  induction es generalizing d with
  | nil => simp
  | cons e rest ih =>
    rw [List.foldl_cons, ih, step]
    simp only [List.mem_cons, exists_eq_or_imp]
    exact or_left_comm.trans or_assoc.symm

theorem mem_keys_addAll : s ∈ (es.foldl add d).keys ↔ (∃ e ∈ es, e.source = s) ∨ s ∈ d.keys :=
  foldl_add_iff (P := fun d => s ∈ d.keys) d es fun d e => mem_keys_add d e s

theorem mem_keys_peersOf_addAll : t ∈ ((es.foldl add d).peersOf s).keys ↔
    (∃ e ∈ es, e.source = s ∧ e.target = t) ∨ t ∈ (d.peersOf s).keys :=
  foldl_add_iff (P := fun d => t ∈ (d.peersOf s).keys) d es fun d e => mem_keys_peersOf_add d e s t

theorem callsAt_addAll : (es.foldl add d).callsAt s t =
    d.callsAt s t ++ (es.filter fun e => e.source = s ∧ e.target = t).map (·.call) := by
  induction es generalizing d with
  | nil => simp
  | cons e rest ih =>
    rw [List.foldl_cons, ih, callsAt_add, List.append_assoc, ← List.map_append,
      ← List.filter_append, List.singleton_append]

theorem edges_addAll_perm : (es.foldl add d).edges.Perm (d.edges ++ es) := by
  induction es generalizing d with
  | nil => simp
  | cons e rest ih =>
    have first := (d.edges_add_perm e).append_right rest
    rw [List.append_assoc, List.singleton_append] at first
    exact (ih (d.add e)).trans first

end AddAll

/-- The table with sources that nothing is known to be called from. -/
def ofSources (names : List String) : CallTable := .ofList (names.map fun s => (s, .empty))

theorem mem_keys_ofSources {names : List String} {s : String} :
    s ∈ (ofSources names).keys ↔ s ∈ names := by
  rw [ofSources, Dict.mem_keys_ofList, List.map_map]
  simp

theorem get?_ofSources {names : List String} {s : String} {peers : Dict String (List NetworkCall)}
    (h : (ofSources names).get? s = some peers) : peers = .empty := by
  obtain ⟨_, _, heq⟩ := List.mem_map.1 (Dict.mem_of_get?_ofList h)
  exact (Prod.mk.inj heq).2.symm

theorem peersOf_ofSources (names : List String) (s : String) :
    (ofSources names).peersOf s = .empty := by
  cases h : (ofSources names).get? s with
  | none => rw [peersOf, h]; rfl
  | some peers => rw [peersOf, h, get?_ofSources h]; rfl

theorem edges_ofSources (names : List String) : (ofSources names).edges = [] := by
  rw [edges, List.flatMap_eq_nil_iff]
  intro ⟨s, peers⟩ hmem
  rw [get?_ofSources (Dict.get?_eq_some_iff.2 hmem)]
  rfl

end CallTable

namespace AdjacencyList

/-- The edges that an adjacency list tells of. -/
def edges (l : AdjacencyList) : List Edge :=
  l.entries.flatMap fun e => e.2.flatMap fun p => p.calls.map fun c => ⟨e.1, p.service, c⟩

/-- The sum of all counts. -/
def total (l : AdjacencyList) : Nat :=
  (l.entries.flatMap (·.2)).foldr (fun peer n => peer.count + n) 0

theorem callCount_eq (l : AdjacencyList) : l.callCount = UInt64.ofNat l.total := by
  rw [callCount, total]
  induction l.entries.flatMap (·.2) with
  | nil => rfl
  | cons peer rest ih => rw [List.foldr_cons, ih, List.foldr_cons, UInt64.ofNat_add]

theorem total_eq (l : AdjacencyList)
    (h : ∀ s peers, l.get? s = some peers → ∀ peer ∈ peers, peer.count = peer.calls.length) :
    l.total = l.edges.length := by
  have counts (peers : List PeerCalls) (hp : ∀ peer ∈ peers, peer.count = peer.calls.length) :
      peers.foldr (fun peer n => peer.count + n) 0 = (peers.flatMap (·.calls)).length := by
    induction peers with
    | nil => rfl
    | cons peer rest ih =>
      have hhead := hp peer List.mem_cons_self
      have hrest := ih fun p hmem => hp p (List.mem_cons_of_mem _ hmem)
      rw [List.foldr_cons, hhead, hrest, List.flatMap_cons, List.length_append]
  -- edges and calls are counted alike, and calls do not depend on the keys that they stand under
  have calls : l.edges.map (·.call) = (l.entries.flatMap (·.2)).flatMap (·.calls) := by
    simp [edges, List.map_flatMap, List.flatMap_assoc, Function.comp_def]
  rw [total, counts, ← calls, List.length_map]
  intro peer hpeer
  obtain ⟨e, he, hpeer⟩ := List.mem_flatMap.1 hpeer
  exact h e.1 e.2 (Dict.get?_eq_some_iff.2 he) peer hpeer

end AdjacencyList

namespace Graph

variable (g : Graph)

/-- The calls from a service to another, in the order of the edges. -/
def callsBetween (s t : String) : List NetworkCall :=
  (g.edges.filter fun e => e.source = s ∧ e.target = t).map (·.call)

theorem grouped_eq :
    g.grouped = g.edges.foldl CallTable.add (.ofSources (g.nodes.map (·.name))) := by
  rw [CallTable.ofSources, List.map_map]
  rfl

theorem mem_keys_peersOf_grouped (s t : String) :
    t ∈ (CallTable.peersOf g.grouped s).keys ↔ ∃ e ∈ g.edges, e.source = s ∧ e.target = t := by
  rw [grouped_eq, CallTable.mem_keys_peersOf_addAll, CallTable.peersOf_ofSources]
  exact or_iff_left List.not_mem_nil

theorem callsAt_grouped (s t : String) :
    CallTable.callsAt g.grouped s t = g.callsBetween s t := by
  rw [grouped_eq, CallTable.callsAt_addAll, CallTable.callsAt, CallTable.peersOf_ofSources]
  rfl

theorem keys_adjacency : g.adjacency.keys = g.grouped.keys := by
  rw [adjacency, Dict.keys, Dict.map, List.map_map]
  rfl

theorem mem_keys_adjacency_iff (h : ∀ e ∈ g.edges, ∃ n ∈ g.nodes, n.name = e.source) (s : String) :
    s ∈ g.adjacency.keys ↔ ∃ n ∈ g.nodes, n.name = s := by
  rw [keys_adjacency, grouped_eq, CallTable.mem_keys_addAll, CallTable.mem_keys_ofSources,
    List.mem_map]
  constructor
  · rintro (⟨e, he, rfl⟩ | hnode)
    · exact h e he
    · exact hnode
  · exact Or.inr

section Peers

variable {g} {s : String} {peers : List PeerCalls} (h : g.adjacency.get? s = some peers)
include h

theorem peers_eq : peers =
    (CallTable.peersOf g.grouped s).entries.map fun e => ⟨e.1, e.2, e.2.length⟩ := by
  rw [adjacency, Dict.get?_map] at h
  obtain ⟨d, hd, rfl⟩ := Option.map_eq_some_iff.1 h
  rw [CallTable.peersOf, hd]
  rfl

theorem pairwise_peers : (peers.map (·.service)).Pairwise (· < ·) := by
  rw [peers_eq h, List.map_map]
  exact (CallTable.peersOf g.grouped s).pairwise_keys

/-- The peers of a service are those that an edge leads to, each with the calls to it. -/
theorem mem_peers_iff (peer : PeerCalls) : peer ∈ peers ↔
    (∃ e ∈ g.edges, e.source = s ∧ e.target = peer.service) ∧
      peer.calls = g.callsBetween s peer.service ∧ peer.count = peer.calls.length := by
  have calls {t : String} {cs : List NetworkCall}
      (hcs : (CallTable.peersOf g.grouped s).get? t = some cs) : cs = g.callsBetween s t := by
    rw [← callsAt_grouped, CallTable.callsAt, hcs]
    rfl
  rw [peers_eq h, List.mem_map, ← g.mem_keys_peersOf_grouped, Dict.mem_keys_iff]
  constructor
  · rintro ⟨⟨t, cs⟩, hmem, rfl⟩
    have hcs := Dict.get?_eq_some_iff.2 hmem
    exact ⟨⟨cs, hcs⟩, calls hcs, rfl⟩
  · rintro ⟨⟨cs, hcs⟩, hcalls, hcount⟩
    refine ⟨(peer.service, cs), Dict.get?_eq_some_iff.1 hcs, ?_⟩
    rw [← calls hcs] at hcalls
    rw [hcalls] at hcount
    exact PeerCalls.ext rfl hcalls.symm hcount.symm

end Peers

theorem edges_adjacency_perm : g.adjacency.edges.Perm g.edges := by
  have heq : g.adjacency.edges = CallTable.edges g.grouped := by
    simp [AdjacencyList.edges, CallTable.edges, adjacency, Dict.map, List.flatMap_map]
  rw [heq, grouped_eq]
  refine (CallTable.edges_addAll_perm _ _).trans ?_
  rw [CallTable.edges_ofSources, List.nil_append]

end Graph

/-- An adjacency list holds the calls of a graph: every node is a key, the peers of a key are the
services that edges lead to from there, and their calls are those of the edges. -/
structure AdjacencyList.Regroups (l : AdjacencyList) (g : Graph) : Prop where
  keys_ascending : l.keys.Pairwise (· < ·)
  mem_keys_iff : ∀ s, s ∈ l.keys ↔ ∃ n ∈ g.nodes, n.name = s
  peers_ascending : ∀ s peers, l.get? s = some peers → (peers.map (·.service)).Pairwise (· < ·)
  peer_iff : ∀ s t, (∃ peers, l.get? s = some peers ∧ ∃ peer ∈ peers, peer.service = t) ↔
    ∃ e ∈ g.edges, e.source = s ∧ e.target = t
  calls : ∀ s peers, l.get? s = some peers → ∀ peer ∈ peers,
    peer.calls = (g.edges.filter fun e => e.source = s ∧ e.target = peer.service).map (·.call)
  count : ∀ s peers, l.get? s = some peers → ∀ peer ∈ peers,
    peer.count = peer.calls.length ∧ 1 ≤ peer.count
  edges : l.edges.Perm g.edges
  total : l.total = g.edges.length
  callCount : l.callCount = UInt64.ofNat g.edges.length

namespace Graph

theorem adjacency_regroups (g : Graph) (h : ∀ e ∈ g.edges, ∃ n ∈ g.nodes, n.name = e.source) :
    g.adjacency.Regroups g := by
  have counts : ∀ s peers, g.adjacency.get? s = some peers →
      ∀ peer ∈ peers, peer.count = peer.calls.length := by
    intro s peers hs peer hpeer
    exact ((mem_peers_iff hs peer).1 hpeer).2.2
  have total : g.adjacency.total = g.edges.length := by
    rw [AdjacencyList.total_eq _ counts]
    exact g.edges_adjacency_perm.length_eq
  refine ⟨g.adjacency.pairwise_keys, g.mem_keys_adjacency_iff h, fun s peers => pairwise_peers, ?_,
    ?_, ?_, g.edges_adjacency_perm, total, ?_⟩
  · intro s t
    constructor
    · rintro ⟨peers, hs, peer, hpeer, rfl⟩
      exact ((mem_peers_iff hs peer).1 hpeer).1
    · rintro ⟨e, he, rfl, rfl⟩
      have hkey : e.source ∈ g.adjacency.keys := (g.mem_keys_adjacency_iff h _).2 (h e he)
      obtain ⟨peers, hs⟩ := Dict.mem_keys_iff.1 hkey
      let peer : PeerCalls :=
        ⟨e.target, g.callsBetween e.source e.target, (g.callsBetween e.source e.target).length⟩
      exact ⟨peers, hs, peer, (mem_peers_iff hs peer).2 ⟨⟨e, he, rfl, rfl⟩, rfl, rfl⟩, rfl⟩
  · intro s peers hs peer hpeer
    exact ((mem_peers_iff hs peer).1 hpeer).2.1
  · intro s peers hs peer hpeer
    obtain ⟨⟨e, he, hsource, htarget⟩, hcalls, hcount⟩ := (mem_peers_iff hs peer).1 hpeer
    have hcall : e.call ∈ peer.calls := by
      rw [hcalls, callsBetween]
      exact List.mem_map_of_mem (List.mem_filter.2 ⟨he, by simp [hsource, htarget]⟩)
    refine ⟨hcount, ?_⟩
    rw [hcount]
    exact List.length_pos_of_mem hcall
  · rw [AdjacencyList.callCount_eq, total]

/-- A graph that comes about by adding edges has those of them that run between its nodes, in the
order in which they were added, and its adjacency list holds them regrouped. -/
theorem adjacency_connectAll_regroups (nodes : List ServiceNode) (edges : List Edge) :
    let g := (ofNodes nodes).connectAll edges
    g.nodes = nodes ∧
    g.edges = edges.filter (fun e =>
      e.source ∈ nodes.map (·.name) ∧ e.target ∈ nodes.map (·.name)) ∧
    g.adjacency.Regroups g := by
  intro g
  refine ⟨nodes_connectAll _ _, ?_, ?_⟩
  · rw [edges_connectAll, ofNodes, List.nil_append]
    apply List.filter_congr
    intro e _
    rw [Bool.eq_iff_iff, accepts_iff, decide_eq_true_iff, List.mem_map, List.mem_map]
  · apply adjacency_regroups
    intro e he
    exact (accepts_iff.1 (accepts_of_mem_connectAll he)).1

end Graph

end ServiceGraph
