import ServiceGraph.Grammar.Stacks

namespace ServiceGraph.Grammar

/-- A text as the numbers of its tokens. -/
structure Input where
  tokens : Array Nat
  /-- The token that is passed over where it cannot stand. -/
  newline : Nat
  /-- The token that may stand everywhere. -/
  comment : Nat
  /-- What a token is read as where it cannot stand as itself. -/
  plain : Nat → Nat

namespace Stacks

/-- The token that a state looks at from a place on: its place and its number. After the last token
comes the end of the text. -/
def lookahead (t : Table) (input : Input) (state : Nat) : (steps : Nat) → Nat → Nat × Nat
  | 0, position => (position, 0)
  | steps + 1, position =>
    match input.tokens[position]? with
    | none => (position, 0)
    | some token =>
      if token = input.comment then (position, token)
      else if !(t.actionsFor state token).isEmpty then (position, token)
      else if token = input.newline then lookahead t input state steps (position + 1)
      else (position, input.plain token)

/-- What a stack does with a token: it ends phrases until the token can be taken. The ways that part
from it are stacks of their own. -/
def take (t : Table) (input : Input) (i place : Nat) : (steps : Nat) → Nat → Stacks → Stacks
  | 0, _, s => s.mark i .stuck
  | steps + 1, token, s =>
    let actions := t.actionsFor (s.vertex (s.headVertex i)).state token
    let ended := actions.filterMap fun
      | .reduce p => some p
      | .shift _ => none
    if ended.contains 0 then s.accept i
    else
      let (s, new) := ended.foldl
        (fun (s, new) p =>
          let (s, added) := s.reduce t i (t.production p)
          (s, added <|> new))
        (s, none)
      let next := actions.findSome? fun
        | .reduce _ => none
        | .shift state => some state
      match next, new with
      | some state, _ => s.shift i ⟨token, place, place + 1, 0, false⟩ state
      | none, some n =>
        let s := { s with heads := (s.heads.set i (s.heads.getD n ⟨0, .stuck⟩)).eraseIdx n }
        take t input i place steps token s
      | none, none =>
        let plain := input.plain token
        let state := (s.vertex (s.headVertex i)).state
        if plain ≠ token && !(t.actionsFor state plain).isEmpty then
          take t input i place steps plain s
        else s.mark i .stuck

/-- A stack goes on by one token. -/
def advance (t : Table) (input : Input) (s : Stacks) (i : Nat) : Stacks :=
  let v := s.vertex (s.headVertex i)
  let (place, token) := lookahead t input v.state (input.tokens.size + 1) v.position
  if token = input.comment then s.shift i ⟨token, place, place + 1, 0, true⟩ v.state
  else take t input i place (16 * (input.tokens.size + 1)) token s

def isActive (s : Stacks) (i : Nat) : Bool := s.heads[i]?.any fun h => h.status = .active

/-- A stack goes on until it has caught up with the others, or is ahead of them if it is the first.
-/
def catchUp (t : Table) (input : Input) (i : Nat) : (steps : Nat) → Stacks → Stacks
  | 0, s => s
  | steps + 1, s =>
    if !s.isActive i then s
    else
      let s := s.advance t input i
      let position := (s.vertex (s.headVertex i)).position
      if s.reach < position || (i ≠ 0 && position = s.reach) then { s with reach := position }
      else catchUp t input i steps s

/-- All stacks go on, also those that are added meanwhile. -/
def sweep (t : Table) (input : Input) : (steps : Nat) → Nat → Stacks → Stacks
  | 0, _, s => s
  | steps + 1, i, s =>
    if s.heads.length ≤ i then s
    else sweep t input steps (i + 1) (s.catchUp t input i (input.tokens.size + 2))

/-- Puts a stack among others. It becomes one with the first that it can, and stands before those of
less weight. -/
def settleHead (h : Head) : (done rest : List Head) → Stacks → Stacks
  | done, [], s => { s with heads := done ++ [h] }
  | done, g :: rest, s =>
    let v := s.vertex h.vertex
    let w := s.vertex g.vertex
    if v.state = w.state && v.position = w.position then
      { s with
        heads := done ++ g :: rest
        vertices := mergeVertex s.vertices g.vertex h.vertex }
    else if w.weight < v.weight then settleHead g (done ++ [h]) rest s
    else settleHead h (done ++ [g]) rest s

/-- Leaves the stacks that can go on, the heaviest first. -/
def condense (s : Stacks) : Stacks :=
  let active := s.heads.filter fun h => h.status = .active
  let s := active.foldl (fun s h => settleHead h [] s.heads s) { s with heads := [] }
  { s with heads := s.heads.take stackLimit }

/-- The productions that may end in a state, for whatever token. -/
def endings (t : Table) (state : Nat) : List Nat :=
  ((t.actions.getD state #[]).toList.flatMap fun actions => actions.filterMap fun
    | .reduce p => some p
    | .shift _ => none).eraseDups

/-- Ends what can end on the first stack, whatever comes next. -/
def close (t : Table) : (steps : Nat) → Stacks → Stacks
  | 0, s => s
  | steps + 1, s =>
    match (endings t (s.vertex (s.headVertex 0)).state).getLast? with
    | none | some 0 => s
    | some p =>
      let s := (s.reduce t 0 (t.production p)).1
      match s.heads with
      | _ :: h :: _ => close t steps { s with heads := [h] }
      | _ => s

/-- The last place on a stack where a token can stand, and the parts above it. -/
def fitting? (t : Table) (vs : Array Vertex) (token : Nat) :
    (steps : Nat) → Nat → List Part → Option (Nat × List Part)
  | 0, _, _ => none
  | steps + 1, n, parts =>
    let v := vertexAt vs n
    if !(t.actionsFor v.state token).isEmpty then some (n, parts)
    else
      match v.links with
      | [] => none
      | l :: _ => fitting? t vs token steps l.below (l.part :: parts)

/-- Ends what can end on each stack. -/
def closeAll (t : Table) (s : Stacks) : Stacks :=
  let (s, closed) := s.heads.foldl
    (fun (s, closed) h =>
      let s := close t (s.vertices.size + 1) { s with heads := [{ h with status := .active }] }
      (s, closed ++ s.heads))
    (s, [])
  { s with heads := closed }.condense

/-- Goes on where no stack can. The first stack ends a line if that helps, or else leaves aside what
it has read since a place where the next token can stand, or else the token. -/
def recover (t : Table) (input : Input) (s : Stacks) : Stacks :=
  let s := s.closeAll t
  let s := { s with heads := s.heads.take 1 }
  let n := s.headVertex 0
  let v := s.vertex n
  let (place, token) := lookahead t input v.state (input.tokens.size + 1) v.position
  let ended := (t.actionsFor v.state input.newline).findSome? fun
    | .reduce _ => none
    | .shift state => if (t.actionsFor state token).isEmpty then none else some state
  match ended, fitting? t s.vertices token (s.vertices.size + 1) n [] with
  | some state, _ => s.shift 0 ⟨input.newline, v.position, v.position, 0, false⟩ state
  | none, some (m, parts) =>
    let w := s.vertex m
    let (s, n) := s.push m
      (.node ⟨t.grammar.symbols, w.position, v.position, 0, true⟩ parts) w.state
    { s with heads := [⟨n, .active⟩] }
  | none, none =>
    if place < input.tokens.size then s.shift 0 ⟨token, place, place + 1, 0, true⟩ v.state
    else { s.mark 0 .finished with result := some (s.content n) }

/-- Goes on to the end of the text. -/
def run (t : Table) (input : Input) : (steps : Nat) → Stacks → Stacks
  | 0, s => s
  | steps + 1, s =>
    let s := s.sweep t input 64 0
    if s.heads.any fun h => h.status = .active then run t input steps s.condense
    else if s.result.isSome then s
    else run t input steps (s.recover t input)

end Stacks

/-- The parts of a text. -/
def parse (t : Table) (input : Input) : List Part :=
  let start : Stacks := ⟨#[⟨0, 0, 0, []⟩], [⟨0, .active⟩], 0, none⟩
  let s := start.run t input (8 * (input.tokens.size + 8))
  s.result.getD (s.content (s.headVertex 0))

end ServiceGraph.Grammar
