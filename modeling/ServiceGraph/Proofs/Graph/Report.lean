import ServiceGraph.Proofs.Graph.Edges
import ServiceGraph.Proofs.Graph.Grouping
import ServiceGraph.Proofs.Graph.Writing
import ServiceGraph.Proofs.RoundTrip

namespace ServiceGraph

section Counting

/-- A producer calls a service at most once. -/
theorem countP_producerEdges_le (calls : List BusCall) (producer : BusCall) (t : String) :
    (producerEdges calls producer).countP (·.target = t) ≤ 1 := by
  rw [producerEdges]
  split
  case h_1 => exact List.countP_le_length
  case h_2 =>
    have distinct : (consumersOf calls producer).Nodup :=
      (Discovery.pairwise_consumersOf calls producer).imp fun hlt => ne_of_lt hlt
    have once := List.nodup_iff_count_le_one.1 distinct t
    rw [List.countP_map]
    exact once

theorem countP_busEdges_le (calls : List BusCall) (t : String) :
    (busEdges calls).countP (·.target = t) ≤ calls.length := by
  have of_producers (producers : List BusCall) :
      (producers.flatMap (producerEdges calls)).countP (·.target = t) ≤ producers.length := by
    induction producers with
    | nil => exact le_rfl
    | cons producer rest ih =>
      have head := countP_producerEdges_le calls producer t
      rw [List.flatMap_cons, List.countP_append, List.length_cons]
      omega
  exact (of_producers _).trans (List.length_filter_le _ _)

theorem Discovery.length_callsBetween_le (d : Discovery) (s t : String) :
    (d.graph.callsBetween s t).length ≤ d.clients.length + d.busCalls.length := by
  have bus := countP_busEdges_le d.busCalls t
  have clients : (d.clients.map d.clientEdge).countP (·.target = t) ≤ d.clients.length := by
    rw [List.countP_map]
    exact List.countP_le_length
  calc (d.graph.callsBetween s t).length
    _ = d.graph.edges.countP fun e => e.source = s ∧ e.target = t := by
      rw [Graph.callsBetween, List.length_map, List.countP_eq_length_filter]
    _ ≤ d.pendingEdges.countP fun e => e.source = s ∧ e.target = t := by
      rw [edges_graph]
      exact List.filter_sublist.countP_le
    _ ≤ (d.clients.map d.clientEdge ++ busEdges d.busCalls).countP fun e =>
        e.source = s ∧ e.target = t := List.filter_sublist.countP_le
    _ ≤ (d.clients.map d.clientEdge ++ busEdges d.busCalls).countP (·.target = t) := by
      refine List.countP_mono_left fun e _ he => ?_
      simp_all
    _ ≤ d.clients.length + d.busCalls.length := by
      rw [List.countP_append]
      omega

end Counting

section Decoding

open Json (Plain Written written_str written_list written_map written_ofDict written_natBelow
  plain_map plain_ofDict)

def NetworkCall.withoutMethod (c : NetworkCall) : NetworkCall := { c with methodName := "" }

def PeerCalls.withoutMethods (p : PeerCalls) : PeerCalls :=
  { p with calls := p.calls.map NetworkCall.withoutMethod }

/-- The same calls without the names of methods. -/
def AdjacencyList.withoutMethods (l : AdjacencyList) : AdjacencyList :=
  l.map (·.map PeerCalls.withoutMethods)

theorem NetworkCall.written (c : NetworkCall) :
    Written NetworkCall.ofJson? c.toJson c.withoutMethod := by
  have arguments := written_list fun s (_ : s ∈ c.arguments) => written_str s
  constructor
  · simp [toJson, arguments.plain]
  · simp [toJson, ofJson?, arguments.read_eq, withoutMethod]

theorem PeerCalls.plain_toJson (p : PeerCalls) : Plain p.toJson := by
  have calls := written_map fun c (_ : c ∈ p.calls) => c.written
  have count : Plain (.ofNat p.count) := .int p.count
  simp [toJson, calls.plain, count]

theorem PeerCalls.ofJson?_toJson {p : PeerCalls} (h : p.count < UInt64.size) :
    PeerCalls.ofJson? p.toJson = some p.withoutMethods := by
  obtain ⟨count, hcount, written⟩ := (written_natBelow h).exists_eq
  have calls := written_map fun c (_ : c ∈ p.calls) => c.written
  rw [toJson, hcount]
  simp [ofJson?, calls.read_eq, written.read_eq, withoutMethods]

theorem AdjacencyList.plain_toJson (l : AdjacencyList) : Plain l.toJson :=
  plain_ofDict fun _ _ => plain_map fun peer _ => peer.plain_toJson

theorem AdjacencyList.ofJson?_toJson {l : AdjacencyList}
    (h : ∀ s peers, l.get? s = some peers → ∀ peer ∈ peers, peer.count < UInt64.size) :
    AdjacencyList.ofJson? l.toJson = some l.withoutMethods := by
  have written : Written AdjacencyList.ofJson? l.toJson l.withoutMethods := by
    refine written_ofDict fun e he => written_map fun peer hpeer => ?_
    have count := h e.1 e.2 (Dict.get?_eq_some_iff.2 he) peer hpeer
    exact ⟨peer.plain_toJson, PeerCalls.ofJson?_toJson count⟩
  exact written.read_eq

end Decoding

namespace Discovery

theorem count_lt {d : Discovery} (h : d.clients.length + d.busCalls.length < UInt64.size)
    (s : String) (peers : List PeerCalls) (hs : d.graph.adjacency.get? s = some peers) :
    ∀ peer ∈ peers, peer.count < UInt64.size := by
  intro peer hpeer
  obtain ⟨_, hcalls, hcount⟩ := (Graph.mem_peers_iff hs peer).1 hpeer
  rw [hcount, hcalls]
  exact (d.length_callsBetween_le s peer.service).trans_lt h

/-- The bytes of a report are indented JSON and a newline, and they are read as this JSON. Its value
is the adjacency list of the graph without the names of methods. A list in memory is never so long
that its calls cannot be counted with 64 bits. -/
theorem report_decodes (d : Discovery) :
    ∃ json, d.report = Json.pretty 0 json ++ ['\n'] ∧ Json.Spells (Json.pretty 0 json) json ∧
      (∀ room, (String.ofList d.report).utf8ByteSize ≤ room →
        d.writeReport room = (d.report, none)) ∧
      Json.parseInput? (Text.decode (String.ofList d.report).toUTF8) = some json ∧
      (d.clients.length + d.busCalls.length < UInt64.size →
        AdjacencyList.ofJson? json = some d.graph.adjacency.withoutMethods) := by
  have spells := Json.spells_pretty d.graph.adjacency.plain_toJson 0
  have newline : Json.Blank ['\n'] := Json.blank_newline 0
  refine ⟨_, rfl, spells, fun room => d.writeReport_of_le, spells.parseInput? newline, ?_⟩
  intro h
  exact AdjacencyList.ofJson?_toJson (count_lt h)

/-- A shop whose names have to be escaped, or take several bytes. -/
def quotedShop : Discovery where
  clients := [
    ⟨"net/http", "Get", "caf\"é\\\n", "http://läger:80/\t", true, none, [⟨"dir\\é.go", 7⟩]⟩,
    ⟨"net/http", "Post", "caf\"é\\\n", "", false, some "läger", [⟨"\u0001.go", 9⟩]⟩]
  endpoints := [⟨"net/http", "Handle", "läger", "/\t", true, none, [⟨"läger.go", 2⟩]⟩]
  busCalls := [⟨.producer, "sold \"😀\"", "läger", "läger.go", 8⟩]

theorem quotedShop_decodes : quotedShop.clients.length + quotedShop.busCalls.length < UInt64.size ∧
    quotedShop.writeReport (String.ofList quotedShop.report).utf8ByteSize =
      (quotedShop.report, none) ∧
    (Json.parseInput? (Text.decode (String.ofList quotedShop.report).toUTF8)).bind
      AdjacencyList.ofJson? = some (.ofList [
        ("caf\"é\\\n", [⟨"läger", [
          ⟨"HTTP", "http://läger:80/\t", "", [], "dir\\é.go:7"⟩,
          ⟨"HTTP", "", "", [], "\u0001.go:9"⟩], 2⟩]),
        ("läger", [⟨"UnknownService", [⟨"NATS", "sold \"😀\"", "", [], "läger.go:8"⟩], 1⟩]),
        ("UnknownService", [])]) := by
  have small : quotedShop.clients.length + quotedShop.busCalls.length < UInt64.size := by decide
  obtain ⟨json, _, _, written, parsed, decoded⟩ := report_decodes quotedShop
  refine ⟨small, written _ le_rfl, ?_⟩
  rw [parsed]
  refine (decoded small).trans ?_
  decide

end Discovery

end ServiceGraph
