import Std.Data.HashMap
import ServiceGraph.Grammar.Rule

namespace ServiceGraph.Grammar

/-- A set of tokens as the bits of a number. -/
abbrev TokenSet := Nat

/-- A production with the number of its symbols that are read. -/
structure Item where
  production : Nat
  dot : Nat
  deriving DecidableEq, Hashable

/-- Items in ascending order, each with the tokens that may follow its production. -/
abbrev Kernel := List (Item × TokenSet)

namespace Item

def isBefore (a b : Item) : Bool :=
  a.production < b.production || (a.production = b.production && a.dot < b.dot)

def advance (i : Item) : Item := { i with dot := i.dot + 1 }

end Item

def production (g : Grammar) (i : Item) : Production :=
  g.productions.getD i.production ⟨0, #[], 0, 0, none⟩

/-- The symbol that an item reads next. -/
def next? (g : Grammar) (i : Item) : Option Nat := (g.production i).body[i.dot]?

namespace Kernel

/-- Adds an item, or more tokens to one that is there. -/
def insert (item : Item) (follow : TokenSet) : Kernel → Kernel
  | [] => [(item, follow)]
  | (i, f) :: rest =>
    if i = item then (i, f ||| follow) :: rest
    else if item.isBefore i then (item, follow) :: (i, f) :: rest
    else (i, f) :: insert item follow rest

/-- The items of both, where the first has all items of the second. -/
def union : Kernel → Kernel → Kernel
  | (i, f) :: rest, (_, f') :: rest' => (i, f ||| f') :: union rest rest'
  | k, _ => k

end Kernel

/-- What the closure of an item needs to know of a symbol. -/
structure Outlook where
  /-- The tokens that may start each symbol. -/
  first : Array TokenSet
  /-- The productions that may start where a symbol may, each with the tokens that may follow it
  there, and whether what follows the symbol may follow it too. -/
  starts : Array (List (Nat × TokenSet × Bool))

/-- One round towards the tokens that may start each symbol. -/
def firstRound (g : Grammar) (first : Array TokenSet) : Array TokenSet :=
  g.productions.foldl
    (fun first p =>
      match p.body[0]? with
      | some s => first.modify p.head (· ||| first.getD s 0)
      | none => first)
    first

def firstSets (g : Grammar) : Array TokenSet :=
  let base := (Array.range g.symbols).map fun s => if s < g.tokens then 1 <<< s else 0
  (List.range g.symbols).foldl (fun first _ => g.firstRound first) base

/-- The phrases that may start where one may, with the tokens that may follow there, as far as known
after some rounds. -/
def leads (g : Grammar) (first : Array TokenSet) (byHead : Array (List Nat)) :
    (rounds : Nat) → (work : List Nat) → Array (Option (TokenSet × Bool)) →
      Array (Option (TokenSet × Bool))
  | 0, _, known => known
  | _, [], known => known
  | rounds + 1, s :: work, known =>
    let (follow, inherits) := (known.getD s none).getD (0, false)
    let (work, known) := (byHead.getD s []).foldl
      (fun (work, known) p =>
        let body := (g.productions.getD p ⟨0, #[], 0, 0, none⟩).body
        match body[0]? with
        | none => (work, known)
        | some lead =>
          if lead < g.tokens then (work, known) else
          let (f, i) :=
            match body[1]? with
            | some second => (first.getD second 0, false)
            | none => (follow, inherits)
          match known.getD lead none with
          | none => (work ++ [lead], known.setIfInBounds lead (some (f, i)))
          | some (f', i') =>
            if (f ||| f') = f' && (i || i') = i' then (work, known)
            else (work ++ [lead], known.setIfInBounds lead (some (f ||| f', i || i'))))
      (work, known)
    leads g first byHead rounds work known

def outlook (g : Grammar) : Outlook :=
  let first := g.firstSets
  let byHead := (List.range g.productions.size).foldr
    (fun p byHead =>
      byHead.modify (g.productions.getD p ⟨0, #[], 0, 0, none⟩).head (p :: ·))
    (Array.replicate g.symbols ([] : List Nat))
  let starts (s : Nat) : List (Nat × TokenSet × Bool) :=
    let known := leads g first byHead (g.symbols * g.symbols) [s]
      ((Array.replicate g.symbols none).setIfInBounds s (some (0, true)))
    (List.range g.symbols).flatMap fun lead =>
      match known.getD lead none with
      | none => []
      | some (follow, inherits) => (byHead.getD lead []).map fun p => (p, follow, inherits)
  ⟨first, (Array.range g.symbols).map fun s => if s < g.tokens then [] else starts s⟩

/-- The tokens that may follow the symbol that an item reads next. -/
def followNext (g : Grammar) (o : Outlook) (i : Item) (follow : TokenSet) : TokenSet :=
  match (g.production i).body[i.dot + 1]? with
  | some s => o.first.getD s 0
  | none => follow

/-- Adds tokens to those of a symbol. -/
def addFollow (symbol : Nat) (follow : TokenSet) : List (Nat × TokenSet) → List (Nat × TokenSet)
  | [] => [(symbol, follow)]
  | (s, f) :: rest =>
    if s = symbol then (s, f ||| follow) :: rest else (s, f) :: addFollow symbol follow rest

/-- The tokens that may follow each production that may start in a state, none for the others. -/
def closure (g : Grammar) (o : Outlook) (k : Kernel) : Array TokenSet :=
  let wanted := k.foldl
    (fun wanted (i, follow) =>
      match g.next? i with
      | some s => addFollow s (g.followNext o i follow) wanted
      | none => wanted)
    []
  wanted.foldl
    (fun fresh (s, follow) =>
      (o.starts.getD s []).foldl
        (fun fresh (p, own, inherits) =>
          fresh.modify p (· ||| own ||| if inherits then follow else 0))
        fresh)
    (Array.replicate g.productions.size 0)

/-- The kernels of the states after a state, by the symbol that leads there. -/
def successors (g : Grammar) (o : Outlook) (k : Kernel) : Array Kernel :=
  let move (targets : Array Kernel) (i : Item) (follow : TokenSet) : Array Kernel :=
    match g.next? i with
    | some s => targets.modify s (Kernel.insert i.advance follow)
    | none => targets
  let fresh := g.closure o k
  let started := fresh.size.foldRev
    (fun p _ targets =>
      let follow := fresh.getD p 0
      if follow = 0 then targets else move targets ⟨p, 0⟩ follow)
    (Array.replicate g.symbols [])
  k.foldl (fun targets (i, follow) => move targets i follow) started

/-- The states found so far. -/
structure States where
  index : Std.HashMap Kernel Nat
  kernels : Array Kernel
  /-- The state after each state, by symbol; there is none where it is zero, as no symbol leads to
  the first state. -/
  moves : Array (Array Nat)
  /-- The states whose successors are to be looked at. -/
  pending : Array Bool

namespace States

/-- Finds the state of a kernel or makes one, and adds the tokens of the kernel to it. States are
told apart by their items and by the telling tokens that may follow those. -/
def enter (telling : TokenSet) (s : States) (k : Kernel) : States × Nat :=
  let key := k.map fun (i, follow) => (i, follow &&& telling)
  match s.index[key]? with
  | none =>
    let n := s.kernels.size
    (⟨s.index.insert key n, s.kernels.push k, s.moves.push #[], s.pending.push true⟩, n)
  | some n =>
    let old := s.kernels.getD n []
    let new := Kernel.union old k
    if new = old then (s, n)
    else
      ({ s with
        kernels := s.kernels.setIfInBounds n new
        pending := s.pending.setIfInBounds n true }, n)

/-- Looks at the successors of a state. -/
def visit (g : Grammar) (o : Outlook) (telling : TokenSet) (s : States) (n : Nat) : States :=
  let s := { s with pending := s.pending.setIfInBounds n false }
  let (s, moves) := (g.successors o (s.kernels.getD n [])).foldl
    (fun (s, moves) k =>
      if k.isEmpty then (s, moves.push 0)
      else
        let (s, next) := s.enter telling k
        (s, moves.push next))
    (s, #[])
  { s with moves := s.moves.setIfInBounds n moves }

def sweep (g : Grammar) (o : Outlook) (telling : TokenSet) (s : States) : States :=
  s.kernels.size.fold
    (fun n _ s => if s.pending.getD n false then s.visit g o telling n else s) s

/-- Looks at states until nothing is added any more. -/
def explore (g : Grammar) (o : Outlook) (telling : TokenSet) : (sweeps : Nat) → States → States
  | 0, s => s
  | sweeps + 1, s =>
    if s.pending.any id then explore g o telling sweeps (s.sweep g o telling) else s

end States

/-- All states. A sweep that is not the last one adds a token to an item at least. -/
def states (g : Grammar) (o : Outlook) (telling : TokenSet) : States :=
  let first : Kernel := [(⟨0, 0⟩, 1)]
  let start := (States.enter telling ⟨∅, #[], #[], #[]⟩ first).1
  start.explore g o telling (g.productions.size * g.tokens)

end ServiceGraph.Grammar
