import Mathlib.Tactic.ByContra
import ServiceGraph.Walk.Callable

namespace ServiceGraph

variable {slots : List Param} {values : List Bound} {name : String} {b : Bound} {i j : Nat}

theorem boundTo?_eq_some_iff {bindings : List (String × Bound)} :
    boundTo? bindings name = some b ↔
      ∃ j : Nat, bindings[j]? = some (name, b) ∧ ∀ k, j < k → ∀ c, bindings[k]? ≠ some (name, c) := by
  rw [boundTo?, List.lookup_eq_some_iff]
  constructor
  · intro ⟨after, before, hsplit, hafter⟩
    have hbindings : bindings = before.reverse ++ (name, b) :: after.reverse := by
      rw [← List.reverse_reverse bindings, hsplit]
      simp
    refine ⟨before.length, by simp [hbindings], ?_⟩
    intro k hk c hc
    obtain ⟨d, rfl⟩ := Nat.exists_eq_add_of_lt hk
    have hmem : (name, c) ∈ after := by
      rw [hbindings, List.getElem?_append_right (by simp; omega)] at hc
      have hlater : before.length + d + 1 - before.reverse.length = d + 1 := by simp; omega
      rw [hlater, List.getElem?_cons_succ] at hc
      exact List.mem_reverse.1 (List.mem_of_getElem? hc)
    simpa using hafter _ hmem
  · intro ⟨j, hj, hlast⟩
    obtain ⟨hlt, hget⟩ := List.getElem?_eq_some_iff.1 hj
    refine ⟨(bindings.drop (j + 1)).reverse, (bindings.take j).reverse, ?_, ?_⟩
    · have hsplit : bindings = bindings.take j ++ (name, b) :: bindings.drop (j + 1) := by
        rw [← hget, ← List.drop_eq_getElem_cons hlt, List.take_append_drop]
      have hreverse := congrArg List.reverse hsplit
      simpa using hreverse
    · intro p hp
      rw [List.mem_reverse] at hp
      obtain ⟨d, hd⟩ := List.mem_iff_getElem?.1 hp
      rw [List.getElem?_drop] at hd
      rw [bne_iff_ne]
      intro heq
      subst heq
      exact hlast (j + 1 + d) (by omega) p.2 hd

/-- The slot at position `j` has this name and gets this value, and no later slot of the name gets
one. -/
structure LastNamed (slots : List Param) (values : List Bound) (name : String) (j : Nat)
    (b : Bound) : Prop where
  slot : (slots[j]?).map (·.name) = some name
  value : values[j]? = some b
  last : ∀ k, j < k → (slots[k]?).map (·.name) = some name → values[k]? = none

theorem boundTo?_bindSlots_eq_some_iff :
    boundTo? (bindSlots slots values) name = some b ↔ ∃ j, LastNamed slots values name j b := by
  have entry (k : Nat) (c : Bound) : (bindSlots slots values)[k]? = some (name, c) ↔
      (slots[k]?).map (·.name) = some name ∧ values[k]? = some c := by
    rw [bindSlots, List.getElem?_zip_eq_some, List.getElem?_map]
  rw [boundTo?_eq_some_iff]
  constructor
  · intro ⟨j, hj, hlast⟩
    obtain ⟨hslot, hvalue⟩ := (entry j b).1 hj
    refine ⟨j, hslot, hvalue, ?_⟩
    intro k hk hname
    rw [Option.eq_none_iff_forall_ne_some]
    intro c hc
    exact hlast k hk c ((entry k c).2 ⟨hname, hc⟩)
  · intro ⟨j, h⟩
    refine ⟨j, (entry j b).2 ⟨h.slot, h.value⟩, ?_⟩
    intro k hk c hc
    obtain ⟨hname, hvalue⟩ := (entry k c).1 hc
    rw [h.last k hk hname] at hvalue
    cases hvalue

/-- No other slot that gets a value has the name of the slot at `i`. -/
def OwnName (slots : List Param) (values : List Bound) (i : Nat) : Prop :=
  ∀ j, j ≠ i → j < values.length → (slots[j]?).map (·.name) ≠ (slots[i]?).map (·.name)

theorem LastNamed.eq_of_ownName {p : Param} (h : LastNamed slots values p.name j b)
    (hp : slots[i]? = some p) (hown : OwnName slots values i) : j = i := by
  by_contra hne
  have hlt : j < values.length := (List.getElem?_eq_some_iff.1 h.value).1
  apply hown j hne hlt
  rw [h.slot, hp, Option.map_some]

theorem lastNamed_of_ownName {p : Param} (hp : slots[i]? = some p) (hb : values[i]? = some b)
    (hown : OwnName slots values i) : LastNamed slots values p.name i b where
  slot := by rw [hp, Option.map_some]
  value := hb
  last := by
    intro k hk hname
    rw [List.getElem?_eq_none_iff]
    by_contra hlt
    apply hown k (by omega) (by omega)
    rw [hname, hp, Option.map_some]

/-- What slot `i` holds when values are passed to slots. -/
structure Binds (slots : List Param) (values : List Bound) (i : Nat) (held : Option Bound) :
    Prop where
  /-- It holds the value of the last slot of its name that gets one. -/
  last : ∀ b, held = some b ↔ ∃ p j, slots[i]? = some p ∧ LastNamed slots values p.name j b
  /-- A slot with a name of its own holds the value at its position, or nothing if there is none. -/
  own : i < slots.length → OwnName slots values i → held = values[i]?

theorem binds_bindSlots (slots : List Param) (values : List Bound) (i : Nat) :
    Binds slots values i ((slots[i]?).bind fun p => boundTo? (bindSlots slots values) p.name) := by
  have last (b : Bound) :
      ((slots[i]?).bind fun p => boundTo? (bindSlots slots values) p.name) = some b ↔
        ∃ p j, slots[i]? = some p ∧ LastNamed slots values p.name j b := by
    simp only [Option.bind_eq_some_iff, boundTo?_bindSlots_eq_some_iff, exists_and_left]
  refine ⟨last, ?_⟩
  intro hlt hown
  have hp : slots[i]? = some slots[i] := List.getElem?_eq_getElem hlt
  ext b
  rw [last b]
  constructor
  · intro ⟨p, j, hp, h⟩
    rw [← h.eq_of_ownName hp hown]
    exact h.value
  · intro hb
    exact ⟨slots[i], i, hp, lastNamed_of_ownName hp hb hown⟩

namespace Frame

/-- The parameters of a called function hold its arguments, and its captured variables the values
that its closure bound; a handler has captured variables only. -/
theorem slots_bind_last_named (frame : Frame) (site : Position) (callee : Function) (call : Call)
    (callable : Callable) (index : UInt64) :
    Binds callee.params (call.arguments.map frame.bound) index.toNat
        ((frame.descend site callee call callable).param? index) ∧
      Binds callee.freeVars callable.bindings index.toNat
        ((frame.descend site callee call callable).freeVar? index) ∧
      Binds callee.freeVars callable.bindings index.toNat
        ((frame.handler site callee callable).freeVar? index) ∧
      (frame.handler site callee callable).param? index = none := by
  refine ⟨binds_bindSlots _ _ _, binds_bindSlots _ _ _, binds_bindSlots _ _ _, ?_⟩
  rw [param?]
  cases (frame.handler site callee callable).function.params[index.toNat]? <;> rfl

/-- A function with two locations, `http://b/` and `http://c/`. -/
def twoLocations : Function :=
  { Function.declared 2 "example.com/svc/a" "main" "main" with
    values := [
      ⟨"c0", "string", none, .const (.string "http://b/")⟩,
      ⟨"c1", "string", none, .const (.string "http://c/")⟩]
    blocks := [⟨0, [], []⟩] }

/-- A function with two blank parameters and two captured variables of one name. -/
def sharedNames : Function :=
  { Function.declared 1 "example.com/svc/a" "main" "fetch" with
    params := [⟨"_", 0⟩, ⟨"_", 1⟩]
    freeVars := [⟨"url", 2⟩, ⟨"url", 3⟩]
    values := [
      ⟨"_", "string", none, .parameter 0⟩,
      ⟨"_", "string", none, .parameter 1⟩,
      ⟨"url", "string", none, .freeVar 0⟩,
      ⟨"url", "string", none, .freeVar 1⟩]
    blocks := [⟨0, [], []⟩] }

/-- The frame of `sharedNames`, called with arguments and through a closure. -/
def sharedNamesFrame (args bindings : List ValueId) : Frame :=
  (entry twoLocations).descend ⟨"main.go", 8⟩ sharedNames ⟨.static 1, args⟩
    ⟨1, bindings.map (entry twoLocations).bound⟩

/-- The first parameter holds the second argument, the second one holds the first argument where there
is no second, and the same goes for captured variables. -/
theorem sharedNames_confused :
    (sharedNamesFrame [0, 1] []).param? 0 = some ((entry twoLocations).bound 1) ∧
      (sharedNamesFrame [0] []).param? 1 = some ((entry twoLocations).bound 0) ∧
      (sharedNamesFrame [] [0, 1]).freeVar? 0 = some ((entry twoLocations).bound 1) ∧
      (sharedNamesFrame [] [0]).freeVar? 1 = some ((entry twoLocations).bound 0) := by
  decide

end Frame

end ServiceGraph
