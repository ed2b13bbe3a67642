import ServiceGraph.Tree

namespace ServiceGraph.Grammar

/-- What a part of the text was read as, and where: the places of its first token and of the token
after it. -/
structure Span where
  symbol : Nat
  first : Nat
  last : Nat
  weight : Int
  /-- Whether the part stands outside of the grammar, as a comment does. -/
  aside : Bool
  deriving DecidableEq

abbrev Part := Tree Span

mutual

/-- The order in which readings of equal weight are preferred: by symbol, then by the number of
parts, then part by part. -/
def comparePart : Part → Part → Ordering
  | .node a as, .node b bs =>
    (compare a.symbol b.symbol).then ((compare as.length bs.length).then (compareParts as bs))

def compareParts : List Part → List Part → Ordering
  | a :: as, b :: bs => (comparePart a b).then (compareParts as bs)
  | _, _ => .eq

end

def totalWeight (parts : List Part) : Int := parts.foldl (fun w p => w + p.label.weight) 0

/-- Whether a phrase rather has the second parts than the first. -/
def prefers (old new : List Part) : Bool :=
  totalWeight old < totalWeight new ||
    (totalWeight old = totalWeight new &&
      ((compare old.length new.length).then (compareParts old new)) = .gt)

/-- The parts without those at the end that stand outside of the grammar, and those. -/
def splitAsides (parts : List Part) : List Part × List Part :=
  let trailing := (parts.reverse.takeWhile fun p => p.label.aside).reverse
  (parts.take (parts.length - trailing.length), trailing)

/-- The best of several readings. -/
def best (readings : List (List Part)) : List Part × List Part :=
  let options := readings.map splitAsides
  options.tail.foldl (fun old new => if prefers old.1 new.1 then new else old)
    (options.headD ([], []))

end ServiceGraph.Grammar
