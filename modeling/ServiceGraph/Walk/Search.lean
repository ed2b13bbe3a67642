namespace ServiceGraph

/-- What comes of a search: an answer, that there is none, or nothing because it never ends. -/
inductive Search (α : Type) where
  | found (answer : α)
  | unknown
  | endless
  deriving DecidableEq

namespace Search

variable {α β : Type}

def bind (s : Search α) (next : α → Search β) : Search β :=
  match s with
  | found a => next a
  | unknown => unknown
  | endless => endless

instance : Monad Search where
  pure := found
  bind := Search.bind

/-- A search that looks up what may be missing. -/
def ofOption : Option α → Search α
  | some a => found a
  | none => unknown

/-- The answer of a search that ends, if it has one. -/
def ended? : Search α → Option (Option α)
  | found a => some (some a)
  | unknown => some none
  | endless => none

@[simp] theorem found_bind (a : α) (next : α → Search β) : (found a >>= next) = next a := rfl

@[simp] theorem unknown_bind (next : α → Search β) : (unknown >>= next) = unknown := rfl

@[simp] theorem endless_bind (next : α → Search β) : (endless >>= next) = endless := rfl

theorem bind_eq_found_iff {s : Search α} {next : α → Search β} {b : β} :
    (s >>= next) = found b ↔ ∃ a, s = found a ∧ next a = found b := by
  cases s with
  | found a => simp
  | unknown => simp
  | endless => simp

/-- Nothing comes of a search without an answer. -/
theorem bind_of_unanswered {s : Search α} {p : Prop} (h : s = unknown ∨ s = endless ∧ p)
    (next : α → Search β) : (s >>= next) = unknown ∨ (s >>= next) = endless ∧ p := by
  rcases h with rfl | ⟨rfl, hp⟩
  · exact .inl rfl
  · exact .inr ⟨rfl, hp⟩

@[simp] theorem ofOption_some (a : α) : ofOption (some a) = found a := rfl

@[simp] theorem ofOption_none : ofOption (none : Option α) = unknown := rfl

theorem ofOption_eq_found_iff {o : Option α} {a : α} : ofOption o = found a ↔ o = some a := by
  cases o with
  | none => simp
  | some b => simp

theorem ofOption_bind_eq_found_iff {o : Option α} {next : α → Search β} {b : β} :
    (ofOption o >>= next) = found b ↔ ∃ a, o = some a ∧ next a = found b := by
  simp only [bind_eq_found_iff, ofOption_eq_found_iff]

theorem ended?_eq_none_iff {s : Search α} : s.ended? = none ↔ s = endless := by
  cases s with
  | found a => simp [ended?]
  | unknown => simp [ended?]
  | endless => simp [ended?]

variable [DecidableEq β]

/-- Whether `f` gives the answer `b` for all elements, in order up to the first one where it does
not. -/
def agreesOn (f : α → Search β) (b : β) : List α → Search β
  | [] => found b
  | a :: rest => do
    if (← f a) = b then agreesOn f b rest else unknown

/-- The answer that `f` gives for every element, if there is an element and all answers agree. -/
def agreed (f : α → Search β) : List α → Search β
  | [] => unknown
  | a :: rest => do agreesOn f (← f a) rest

theorem agreesOn_eq_found_iff {f : α → Search β} {b c : β} {xs : List α} :
    agreesOn f b xs = found c ↔ b = c ∧ ∀ x ∈ xs, f x = found b := by
  induction xs with
  | nil => simp [agreesOn]
  | cons a rest ih =>
    rw [agreesOn, bind_eq_found_iff, List.forall_mem_cons]
    constructor
    · rintro ⟨d, ha, hrest⟩
      split at hrest
      next hd =>
        obtain ⟨hbc, hall⟩ := ih.1 hrest
        exact ⟨hbc, ha.trans (congrArg found hd), hall⟩
      next => cases hrest
    · rintro ⟨hbc, ha, hall⟩
      exact ⟨b, ha, (if_pos rfl).trans (ih.2 ⟨hbc, hall⟩)⟩

theorem agreed_eq_found_iff {f : α → Search β} {xs : List α} {b : β} :
    agreed f xs = found b ↔ xs ≠ [] ∧ ∀ x ∈ xs, f x = found b := by
  cases xs with
  | nil => simp [agreed]
  | cons a rest =>
    rw [agreed, bind_eq_found_iff, List.forall_mem_cons]
    constructor
    · rintro ⟨c, ha, hrest⟩
      obtain ⟨rfl, hall⟩ := agreesOn_eq_found_iff.1 hrest
      exact ⟨List.cons_ne_nil a rest, ha, hall⟩
    · rintro ⟨-, ha, hall⟩
      exact ⟨b, ha, agreesOn_eq_found_iff.2 ⟨rfl, hall⟩⟩

end Search

end ServiceGraph
