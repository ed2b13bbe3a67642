namespace ServiceGraph

namespace Grammar

/-- What a phrase consists of, over symbols for tokens and phrases. -/
inductive Rule (σ : Type) where
  | nothing
  | one (s : σ)
  | both (first second : Rule σ)
  | either (first second : Rule σ)
  /-- The rule once or more often. -/
  | series (r : Rule σ)
  deriving DecidableEq

namespace Rule

variable {σ : Type}

def sequence (rules : List (Rule σ)) : Rule σ := rules.foldr both nothing

def choice (first : Rule σ) (others : List (Rule σ)) : Rule σ := others.foldl either first

def optional (r : Rule σ) : Rule σ := either r nothing

def many (r : Rule σ) : Rule σ := optional (series r)

/-- The rule once or more often, with a separator in between. -/
def separated (r separator : Rule σ) : Rule σ := both r (many (both separator r))

/-- The symbols of a rule from left to right. -/
def symbols : Rule σ → List σ
  | nothing => []
  | one s => [s]
  | both a b => a.symbols ++ b.symbols
  | either a b => a.symbols ++ b.symbols
  | series r => r.symbols

/-- The rules that repeat in a rule, inner ones first, added to those that are known. -/
def repeated [DecidableEq σ] (known : List (Rule σ)) : Rule σ → List (Rule σ)
  | nothing => known
  | one _ => known
  | both a b => b.repeated (a.repeated known)
  | either a b => b.repeated (a.repeated known)
  | series r =>
    let known := r.repeated known
    if known.contains r then known else known ++ [r]

/-- The sequences of symbols that a rule allows, when the repetitions in it are symbols too. -/
def expand {τ : Type} (symbol : σ → τ) (repetition : Rule σ → τ) : Rule σ → List (List τ)
  | nothing => [[]]
  | one s => [[symbol s]]
  | both a b =>
    (a.expand symbol repetition).flatMap fun x => (b.expand symbol repetition).map (x ++ ·)
  | either a b => a.expand symbol repetition ++ b.expand symbol repetition
  | series r => [[repetition r]]

end Rule

inductive Side where
  | left
  | right
  deriving DecidableEq

/-- One way to form a phrase. Where a token could end one phrase or go on with another, the higher
level has it, and among equal levels the side decides. Where both stay possible, the reading of more
weight is taken in the end. -/
structure Form (σ : Type) where
  rule : Rule σ
  weight : Int
  level : Int
  side : Option Side

/-- A form without choices: the number of its phrase and of each symbol in it. -/
structure Production where
  head : Nat
  body : Array Nat
  weight : Int
  level : Int
  side : Option Side
  deriving DecidableEq

end Grammar

/-- A grammar of numbered symbols. The first production is for the whole text and has a head of its
own. -/
structure Grammar where
  tokens : Nat
  phrases : Nat
  series : Nat
  productions : Array Grammar.Production

namespace Grammar

/-- How many symbols there are, besides the head for the whole text. -/
def symbols (g : Grammar) : Nat := g.tokens + g.phrases + g.series

def isSeries (g : Grammar) (symbol : Nat) : Bool :=
  g.tokens + g.phrases ≤ symbol && symbol < g.symbols

/-- The grammar of some phrases, the first one for the whole text, over numbered tokens. -/
def ofForms {τ ν : Type} [DecidableEq τ] [DecidableEq ν] (tokens : List τ)
    (phrases : List ν) (forms : ν → List (Form (τ ⊕ ν))) : Grammar :=
  let repeated := phrases.foldl
    (fun known p => (forms p).foldl (fun known f => f.rule.repeated known) known) []
  let symbol : τ ⊕ ν → Nat
    | .inl t => tokens.idxOf t
    | .inr p => tokens.length + phrases.idxOf p
  let repetition (r : Rule (τ ⊕ ν)) : Nat := tokens.length + phrases.length + repeated.idxOf r
  let ofForm (p : ν) (f : Form (τ ⊕ ν)) : List Production :=
    (f.rule.expand symbol repetition).map fun body =>
      ⟨symbol (.inr p), body.toArray, f.weight, f.level, f.side⟩
  let ofRepeated (r : Rule (τ ⊕ ν)) : List Production :=
    let head := repetition r
    ⟨head, #[head, head], 0, 0, none⟩ ::
      (r.expand symbol repetition).map fun body => ⟨head, body.toArray, 0, 0, none⟩
  let total := tokens.length + phrases.length + repeated.length
  { tokens := tokens.length
    phrases := phrases.length
    series := repeated.length
    productions :=
      (⟨total, #[tokens.length], 0, 0, none⟩ ::
        (phrases.flatMap fun p => ((forms p).flatMap (ofForm p)).eraseDups) ++
          repeated.flatMap ofRepeated).toArray }

end Grammar

end ServiceGraph
