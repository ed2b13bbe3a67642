import ServiceGraph.Grammar.Automaton

namespace ServiceGraph.Grammar

inductive Action where
  /-- Ends the phrase of a production. -/
  | reduce (production : Nat)
  /-- Takes the token. -/
  | shift (state : Nat)
  deriving DecidableEq

/-- The actions by state and token, and the state after a phrase by state and symbol. -/
structure Table where
  grammar : Grammar
  actions : Array (Array (List Action))
  moves : Array (Array Nat)

/-- The order in which phrases end: short ones first, then by their numbers. -/
def endsBefore (g : Grammar) (i j : Item) : Bool :=
  let p := g.production i
  let q := g.production j
  i.dot < j.dot || (i.dot = j.dot &&
    (p.head < q.head || (p.head = q.head && p.weight ≤ q.weight)))

/-- Whether only the repetition of one rule is at stake. -/
def isRepetition (g : Grammar) (items : List Item) : Bool :=
  match items with
  | [] => false
  | i :: rest =>
    let head := (g.production i).head
    g.isSeries head && rest.all fun j => (g.production j).head = head

/-- The actions for a token, from the items that it may end, the state that it leads to and the
items that go on with it. -/
def settle (g : Grammar) (ending : List Item) (next : Nat) (goingOn : List Item) : List Action :=
  let level (i : Item) : Int := (g.production i).level
  let top := (ending.map level).max?.getD 0
  let highest := ending.filter fun i => level i = top
  let reduces := highest.map fun i => Action.reduce i.production
  if next = 0 then reduces
  else if ending.isEmpty then [.shift next]
  else if g.isRepetition (goingOn ++ ending) then reduces
  else
    let higher := goingOn.any fun i => top < level i
    let lower := goingOn.any fun i => level i < top
    let sides := highest.map fun i => (g.production i).side
    if higher && !lower then [.shift next]
    else if lower && !higher then reduces
    else if higher then reduces ++ [.shift next]
    else if sides.all (· = some .left) then reduces
    else if sides.all (· = some .right) then [.shift next]
    else reduces ++ [.shift next]

/-- The actions of a state for each token. -/
def stateActions (g : Grammar) (o : Outlook) (k : Kernel) (moves : Array Nat) :
    Array (List Action) :=
  let fresh := g.closure o k
  let ending := (k.filter fun (i, _) => (g.next? i).isNone) ++
    ((List.range fresh.size).filterMap fun p =>
      if fresh.getD p 0 ≠ 0 && (g.next? ⟨p, 0⟩).isNone then some (⟨p, 0⟩, fresh.getD p 0) else none)
  let ending := ending.mergeSort fun (i, _) (j, _) => g.endsBefore i j
  (Array.range g.tokens).map fun t =>
    let endingHere := ending.filterMap fun (i, follow) => if follow.testBit t then some i else none
    let next := moves.getD t 0
    if endingHere.isEmpty && next = 0 then []
    else
      g.settle endingHere next <| k.filterMap fun (i, _) =>
        match g.next? i with
        | some s => if 0 < i.dot && (o.first.getD s 0).testBit t then some i else none
        | none => none

/-- The table of a grammar. The telling tokens keep states apart. -/
def table (g : Grammar) (telling : List Nat) : Table :=
  let o := g.outlook
  let s := g.states o (telling.foldl (fun set t => set ||| 1 <<< t) 0)
  { grammar := g
    actions := (Array.range s.kernels.size).map fun n =>
      g.stateActions o (s.kernels.getD n []) (s.moves.getD n #[])
    moves := s.moves }

end ServiceGraph.Grammar
