import ServiceGraph.Grammar.Part
import ServiceGraph.Grammar.Table

namespace ServiceGraph.Grammar

/-- A part on a stack, and the place on the stack below it. -/
structure Link where
  below : Nat
  part : Part

/-- A place on a stack: the state there, the place in the text, the greatest weight of the stacks
that end here, and how they got here. -/
structure Vertex where
  state : Nat
  position : Nat
  weight : Int
  links : List Link

inductive Status where
  | active
  /-- The next token cannot stand there. -/
  | stuck
  | finished
  deriving DecidableEq

/-- The top of a stack. -/
structure Head where
  vertex : Nat
  status : Status

/-- Stacks over common places. -/
structure Stacks where
  vertices : Array Vertex
  heads : List Head
  /-- The farthest place in the text so far. -/
  reach : Nat
  result : Option (List Part)

/-- How many stacks go on after a token at most. -/
def stackLimit : Nat := 6

/-- How many stacks there may be when one more is added. -/
def stackBound : Nat := 10

/-- How many ways lead to a place at most. -/
def linkLimit : Nat := 8

def Table.actionsFor (t : Table) (state token : Nat) : List Action :=
  (t.actions.getD state #[]).getD token []

def Table.production (t : Table) (n : Nat) : Production :=
  t.grammar.productions.getD n ⟨0, #[], 0, 0, none⟩

def vertexAt (vs : Array Vertex) (n : Nat) : Vertex := vs.getD n ⟨0, 0, 0, []⟩

/-- Whether a link adds nothing but another reading to one that is there. -/
def Link.joins (vs : Array Vertex) (a b : Link) : Bool :=
  let x := a.part.label
  let y := b.part.label
  let v := vertexAt vs a.below
  let w := vertexAt vs b.below
  x.symbol = y.symbol && x.first = y.first && x.last = y.last && x.aside = y.aside &&
    a.part.children.length = b.part.children.length && v.position = w.position &&
    (a.below = b.below || v.state = w.state)

/-- Adds a way to a place. If it differs from another way only in how the part is read, the heavier
reading stays; if it differs below the part, the ways below are put together. -/
def addLink : (depth : Nat) → Array Vertex → Nat → Link → Array Vertex
  | 0, vs, _, _ => vs
  | depth + 1, vs, n, link =>
    let v := vertexAt vs n
    let weight := (vertexAt vs link.below).weight + link.part.label.weight
    if link.below = n then vs
    else
      match v.links.findIdx? fun l => l.joins vs link with
      | none =>
        if linkLimit ≤ v.links.length then vs
        else
          vs.setIfInBounds n { v with links := v.links ++ [link], weight := max v.weight weight }
      | some i =>
        let old := v.links.getD i link
        if old.below = link.below then
          if old.part.label.weight < link.part.label.weight then
            vs.setIfInBounds n { v with links := v.links.set i link, weight }
          else vs
        else
          let vs := (vertexAt vs link.below).links.foldl
            (fun vs l => addLink depth vs old.below l) vs
          vs.modify n fun v => { v with weight := max v.weight weight }

/-- Adds the ways to one place to those to another. -/
def mergeVertex (vs : Array Vertex) (n m : Nat) : Array Vertex :=
  (vertexAt vs m).links.foldl (fun vs l => addLink vs.size vs n l) vs

/-- A way down a stack: how many parts are still to be taken, the place, and the parts so far. -/
structure Descent where
  missing : Nat
  vertex : Nat
  parts : List Part

namespace Descent

def along (d : Descent) (l : Link) : Descent :=
  ⟨if l.part.label.aside then d.missing else d.missing - 1, l.below, l.part :: d.parts⟩

/-- The ends of the ways down, in the order in which they get there. Where the way parts, the first
branch keeps its turn and the others wait. -/
def ends (vs : Array Vertex) : (steps : Nat) → List Descent → List Descent
  | 0, _ => []
  | _, [] => []
  | steps + 1, ds =>
    let going := ds.filter fun d => d.missing ≠ 0
    let first := going.filterMap fun d => (vertexAt vs d.vertex).links.head?.map d.along
    let others := going.flatMap fun d => (vertexAt vs d.vertex).links.tail.map d.along
    (ds.filter fun d => d.missing = 0) ++ ends vs steps (first ++ others)

/-- Puts the ends at one place together. -/
def gather (ds : List Descent) : List (Nat × List (List Part)) :=
  (ds.map vertex).eraseDups.map fun n =>
    (n, (ds.filter fun d => d.vertex = n).map parts)

end Descent

namespace Stacks

def vertex (s : Stacks) (n : Nat) : Vertex := vertexAt s.vertices n

/-- Puts a part on top of a place. -/
def push (s : Stacks) (below : Nat) (part : Part) (state : Nat) : Stacks × Nat :=
  let weight := (s.vertex below).weight + part.label.weight
  let n := s.vertices.size
  ({ s with vertices := s.vertices.push ⟨state, part.label.last, weight, [⟨below, part⟩]⟩ }, n)

/-- The stack that another one can become one with. -/
def partner? (s : Stacks) (except : Nat) (n : Nat) : Option Head :=
  let v := s.vertex n
  (s.heads.zipIdx.find? fun (h, i) =>
    i ≠ except && h.status = .active && (s.vertex h.vertex).state = v.state &&
      (s.vertex h.vertex).position = v.position).map (·.1)

/-- Ends a phrase above a place. Of several readings of its parts it takes the best one. -/
def attach (t : Table) (p : Production) (except : Nat) (s : Stacks) (base : Nat)
    (readings : List (List Part)) : Stacks :=
  if stackBound < s.heads.length then s
  else
    let (parts, trailing) := best readings
    let position := (s.vertex base).position
    let span : Span :=
      ⟨p.head, (parts.head?.map (·.label.first)).getD position,
        (parts.getLast?.map (·.label.last)).getD position, totalWeight parts + p.weight, false⟩
    let state := (t.moves.getD (s.vertex base).state #[]).getD p.head 0
    let (s, n) := s.push base (.node span parts) state
    let (s, n) := trailing.foldl (fun (s, n) part => s.push n part state) (s, n)
    match s.partner? except n with
    | some h => { s with vertices := mergeVertex s.vertices h.vertex n }
    | none => { s with heads := s.heads ++ [⟨n, .active⟩] }

def headVertex (s : Stacks) (i : Nat) : Nat := (s.heads[i]?.map Head.vertex).getD 0

/-- Ends the phrase of a production on a stack. The stack stays, and the index of the first new one
is given, unless all of them became one with others. -/
def reduce (t : Table) (s : Stacks) (i : Nat) (p : Production) : Stacks × Option Nat :=
  let before := s.heads.length
  let ends := Descent.ends s.vertices (s.vertices.size + 1) [⟨p.body.size, s.headVertex i, []⟩]
  let s := (Descent.gather ends).foldl
    (fun s (base, readings) => s.attach t p i base readings) s
  (s, if before < s.heads.length then some before else none)

def mark (s : Stacks) (i : Nat) (status : Status) : Stacks :=
  { s with heads := s.heads.modify i fun h => { h with status } }

/-- Takes a token. -/
def shift (s : Stacks) (i : Nat) (span : Span) (state : Nat) : Stacks :=
  let (s, n) := s.push (s.headVertex i) (.leaf span) state
  { s with heads := s.heads.modify i fun h => { h with vertex := n } }

/-- The parts from the bottom of a stack up to a place. -/
def partsUpTo (vs : Array Vertex) : (steps : Nat) → Nat → List Part → List Part
  | 0, _, parts => parts
  | steps + 1, n, parts =>
    match (vertexAt vs n).links with
    | [] => parts
    | l :: _ => partsUpTo vs steps l.below (l.part :: parts)

/-- All parts on a stack. -/
def content (s : Stacks) (n : Nat) : List Part := partsUpTo s.vertices s.vertices.size n []

/-- Keeps the whole text as a stack has it, unless it was read better before. -/
def accept (s : Stacks) (i : Nat) : Stacks :=
  let ends := Descent.ends s.vertices (s.vertices.size + 1) [⟨1, s.headVertex i, []⟩]
  let s := (Descent.gather ends).foldl
    (fun s (base, readings) =>
      let (parts, trailing) := best readings
      let new := s.content base ++ parts ++ trailing
      match s.result with
      | none => { s with result := some new }
      | some old => if prefers old new then { s with result := some new } else s)
    s
  s.mark i .finished

end Stacks

end ServiceGraph.Grammar
