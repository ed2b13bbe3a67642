import Mathlib.Logic.Relation
import ServiceGraph.Proofs.Program.Drafts

namespace ServiceGraph

/-- Whether a value is computed by an instruction. Constants, slots, functions and global variables
are there without one. -/
def ValueKind.isInstr : ValueKind → Bool
  | .const _ | .parameter _ | .freeVar _ | .function _ | .globalVar _ => false
  | _ => true

theorem getElem?_append_singleton_eq_some_iff {α : Type} {xs : List α} {x y : α} {k : Nat} :
    (xs ++ [x])[k]? = some y ↔ xs[k]? = some y ∨ k = xs.length ∧ y = x := by
  rcases Nat.lt_trichotomy k xs.length with hlt | rfl | hgt
  · rw [List.getElem?_append_left hlt]
    exact ⟨.inl, fun h => h.elim id fun ⟨heq, _⟩ => absurd heq (Nat.ne_of_lt hlt)⟩
  · simp [eq_comm]
  · rw [List.getElem?_eq_none (by simp; omega), List.getElem?_eq_none (by omega)]
    simp
    omega

theorem getElem?_modify_eq_some_iff {α : Type} {xs : List α} {change : α → α} {c j : Nat} {y : α} :
    (xs.modify c change)[j]? = some y ↔
      ∃ x, xs[j]? = some x ∧ y = if c = j then change x else x := by
  rw [List.getElem?_modify, Option.map_eq_map, Option.map_eq_some_iff]
  exact exists_congr fun x => and_congr_right' eq_comm

/-- The value of a slot has the name of the slot, or is named after its id where the slot has no
name. -/
def Param.Names (p : Param) (v : Value) : Prop :=
  v.name = if p.name.isEmpty then "t" ++ String.ofList (Decimal.natText p.value.toNat) else p.name

/-- Slots stand for values of a kind that tells the position of the slot. -/
structure Slots (values : List Value) (slots : List Param) (kind : UInt64 → ValueKind) : Prop where
  bound : ∀ k p, slots[k]? = some p → ∃ v index, values[p.value.toNat]? = some v ∧
    v.kind = kind index ∧ index.toNat = k ∧ p.Names v
  length_le : slots.length ≤ values.length

namespace Slots

variable {values : List Value} {slots : List Param} {kind : UInt64 → ValueKind} {v : Value}

theorem append_value (h : Slots values slots kind) (v : Value) :
    Slots (values ++ [v]) slots kind where
  bound k p hp := by
    obtain ⟨w, index, hw, hrest⟩ := h.bound k p hp
    exact ⟨w, index, getElem?_append_singleton_eq_some_iff.2 (.inl hw), hrest⟩
  length_le := by
    have hle := h.length_le
    rw [List.length_append]
    omega

theorem append_slot (h : Slots values slots kind) {p : Param}
    (hkind : v.kind = kind (UInt64.ofNat slots.length)) (hname : p.Names v)
    (hp : p.value.toNat = values.length) : Slots (values ++ [v]) (slots ++ [p]) kind where
  bound k q hq := by
    rcases getElem?_append_singleton_eq_some_iff.1 hq with hq | ⟨rfl, rfl⟩
    · exact (h.append_value v).bound k q hq
    · -- there are no more slots than values, and the new value has an id
      have hlt := q.value.toNat_lt
      have hle := h.length_le
      refine ⟨v, _, ?_, hkind, UInt64.toNat_ofNat_of_lt' (by simp [UInt64.size]; omega), hname⟩
      exact getElem?_append_singleton_eq_some_iff.2 (.inr ⟨hp, rfl⟩)
  length_le := by
    have hle := h.length_le
    rw [List.length_append, List.length_append]
    simpa using hle

end Slots

namespace Function

variable {f g : Function} {v : Value}

/-- The block at a position has an instruction. -/
def ListsAt (f : Function) (j : Nat) (id : ValueId) : Prop :=
  ∃ b, f.blocks[j]? = some b ∧ id ∈ b.instrs

theorem listsAt_modify_iff {c j : Nat} {change : Block → Block} {id : ValueId}
    (hblocks : g.blocks = f.blocks.modify c change) :
    g.ListsAt j id ↔ ∃ b, f.blocks[j]? = some b ∧ id ∈ (if c = j then change b else b).instrs := by
  simp only [ListsAt, hblocks, getElem?_modify_eq_some_iff]
  constructor
  · rintro ⟨_, ⟨b, hb, rfl⟩, hid⟩
    exact ⟨b, hb, hid⟩
  · rintro ⟨b, hb, hid⟩
    exact ⟨_, ⟨b, hb, rfl⟩, hid⟩

/-- Blocks have the ids of instructions, and each of them stands in one block. -/
structure Listing (f : Function) : Prop where
  inRange : ∀ j id, f.ListsAt j id → id.toNat < f.values.length
  inOneBlock : ∀ i j id, f.ListsAt i id → f.ListsAt j id → i = j
  listed_iff : ∀ id v, f.value? id = some v → ((∃ j, f.ListsAt j id) ↔ v.kind.isInstr = true)

/-- What holds of every function that is built step by step. -/
structure WellBuilt (f : Function) : Prop extends f.Listing where
  index_eq : ∀ (j : Nat) (b : Block), f.blocks[j]? = some b → b.index.toNat = j
  ascending : ∀ b ∈ f.blocks, b.instrs.Pairwise (· < ·)
  params : Slots f.values f.params .parameter
  freeVars : Slots f.values f.freeVars .freeVar

/-- The elementary changes of a function under construction. -/
inductive Change (f : Function) : Function → Prop where
  | value {v : Value} : v.kind.isInstr = false → Change f { f with values := f.values ++ [v] }
  | instr {c : Nat} {id : ValueId} {v : Value} :
      v.kind.isInstr = true → id.toNat = f.values.length → c < f.blocks.length →
      Change f { f with
        values := f.values ++ [v]
        blocks := f.blocks.modify c fun b => { b with instrs := b.instrs ++ [id] } }
  | param {p : Param} {v : Value} :
      v.kind = .parameter (UInt64.ofNat f.params.length) → p.Names v →
      p.value.toNat = f.values.length →
      Change f { f with values := f.values ++ [v], params := f.params ++ [p] }
  | freeVar {p : Param} {v : Value} :
      v.kind = .freeVar (UInt64.ofNat f.freeVars.length) → p.Names v →
      p.value.toNat = f.values.length →
      Change f { f with values := f.values ++ [v], freeVars := f.freeVars ++ [p] }
  | block {id : BlockId} : id.toNat = f.blocks.length →
      Change f { f with blocks := f.blocks ++ [⟨id, [], []⟩] }
  | succs {c : Nat} {more : List BlockId} :
      Change f { f with
        blocks := f.blocks.modify c fun b => { b with succs := b.succs ++ more } }

/-- A new value, entered into a block if it is an instruction. -/
theorem Listing.append (h : f.Listing) {c : Nat} (hvalues : g.values = f.values ++ [v])
    (hlists : ∀ j id, g.ListsAt j id ↔
      f.ListsAt j id ∨ v.kind.isInstr = true ∧ j = c ∧ id.toNat = f.values.length) :
    g.Listing where
  inRange j id hid := by
    rw [hvalues, List.length_append, List.length_singleton]
    rcases (hlists j id).1 hid with hid | ⟨-, -, hid⟩
    · exact Nat.lt_succ_of_lt (h.inRange j id hid)
    · omega
  inOneBlock i j id hi hj := by
    rcases (hlists i id).1 hi with hi | ⟨-, rfl, hid⟩ <;>
      rcases (hlists j id).1 hj with hj | ⟨-, rfl, hid'⟩
    · exact h.inOneBlock i j id hi hj
    · exact absurd hid' (Nat.ne_of_lt (h.inRange i id hi))
    · exact absurd hid (Nat.ne_of_lt (h.inRange j id hj))
    · rfl
  listed_iff id w hw := by
    rw [value?, hvalues, getElem?_append_singleton_eq_some_iff] at hw
    rcases hw with hw | ⟨hid, rfl⟩
    · have hlt : id.toNat < f.values.length := (List.getElem?_eq_some_iff.1 hw).1
      rw [← h.listed_iff id w hw]
      refine exists_congr fun j => (hlists j id).trans ⟨?_, .inl⟩
      exact fun hid => hid.resolve_right fun ⟨_, _, hnew⟩ => absurd hnew (Nat.ne_of_lt hlt)
    · constructor
      · rintro ⟨j, hj⟩
        rcases (hlists j id).1 hj with hj | ⟨hinstr, -, -⟩
        · exact absurd hid (Nat.ne_of_lt (h.inRange j id hj))
        · exact hinstr
      · exact fun hinstr => ⟨c, (hlists c id).2 (.inr ⟨hinstr, rfl, hid⟩)⟩

/-- Changes of blocks that leave the instructions alone. -/
theorem Listing.congr (h : f.Listing) (hvalues : g.values = f.values)
    (hlists : ∀ j id, g.ListsAt j id ↔ f.ListsAt j id) : g.Listing where
  inRange j id hid := by
    rw [hvalues]
    exact h.inRange j id ((hlists j id).1 hid)
  inOneBlock i j id hi hj := h.inOneBlock i j id ((hlists i id).1 hi) ((hlists j id).1 hj)
  listed_iff id v hv := by
    rw [value?, hvalues] at hv
    rw [← h.listed_iff id v hv]
    exact exists_congr fun j => hlists j id

namespace WellBuilt

theorem value (h : f.WellBuilt) (hv : v.kind.isInstr = false) :
    WellBuilt { f with values := f.values ++ [v] } where
  toListing := h.toListing.append (c := 0) rfl fun j id => by simp [hv, ListsAt]
  index_eq := h.index_eq
  ascending := h.ascending
  params := h.params.append_value v
  freeVars := h.freeVars.append_value v

theorem param (h : f.WellBuilt) {p : Param}
    (hkind : v.kind = .parameter (UInt64.ofNat f.params.length)) (hname : p.Names v)
    (hp : p.value.toNat = f.values.length) :
    WellBuilt { f with values := f.values ++ [v], params := f.params ++ [p] } :=
  { h.value (by rw [hkind]; rfl) with params := h.params.append_slot hkind hname hp }

theorem freeVar (h : f.WellBuilt) {p : Param}
    (hkind : v.kind = .freeVar (UInt64.ofNat f.freeVars.length)) (hname : p.Names v)
    (hp : p.value.toNat = f.values.length) :
    WellBuilt { f with values := f.values ++ [v], freeVars := f.freeVars ++ [p] } :=
  { h.value (by rw [hkind]; rfl) with freeVars := h.freeVars.append_slot hkind hname hp }

theorem index_eq_modify (h : f.WellBuilt) {c j : Nat} {change : Block → Block} {b : Block}
    (hchange : ∀ b, (change b).index = b.index) (hb : (f.blocks.modify c change)[j]? = some b) :
    b.index.toNat = j := by
  obtain ⟨old, hold, rfl⟩ := getElem?_modify_eq_some_iff.1 hb
  rw [← h.index_eq j old hold]
  split
  · rw [hchange]
  · rfl

theorem ascending_modify (h : f.WellBuilt) {c : Nat} {change : Block → Block} {b : Block}
    (hchange : ∀ b, f.blocks[c]? = some b → (change b).instrs.Pairwise (· < ·))
    (hb : b ∈ f.blocks.modify c change) : b.instrs.Pairwise (· < ·) := by
  obtain ⟨j, hj⟩ := List.mem_iff_getElem?.1 hb
  obtain ⟨old, hold, rfl⟩ := getElem?_modify_eq_some_iff.1 hj
  split
  case isTrue heq => exact hchange old (heq ▸ hold)
  case isFalse => exact h.ascending old (List.mem_of_getElem? hold)

theorem instr (h : f.WellBuilt) {c : Nat} {id : ValueId} (hv : v.kind.isInstr = true)
    (hid : id.toNat = f.values.length) (hc : c < f.blocks.length) :
    WellBuilt { f with
      values := f.values ++ [v]
      blocks := f.blocks.modify c fun b => { b with instrs := b.instrs ++ [id] } } where
  toListing := by
    refine h.toListing.append (c := c) rfl fun j i => (listsAt_modify_iff rfl).trans ?_
    by_cases hj : c = j
    · subst hj
      simp only [if_pos, List.mem_append, List.mem_singleton, ListsAt, hv, true_and]
      have hi : i = id ↔ i.toNat = f.values.length := by rw [← hid, UInt32.toNat_inj]
      simp only [and_or_left, exists_or, hi]
      refine or_congr_right ⟨fun ⟨_, _, heq⟩ => heq, fun heq => ?_⟩
      exact ⟨f.blocks[c], List.getElem?_eq_getElem hc, heq⟩
    · simp [hj, ListsAt, Ne.symm hj]
  index_eq _ _ := h.index_eq_modify fun _ => rfl
  ascending _ := h.ascending_modify fun b hb => by
    have hold := h.ascending b (List.mem_of_getElem? hb)
    refine List.pairwise_append.2 ⟨hold, List.pairwise_singleton _ _, ?_⟩
    intro i hi k hk
    have hlt := h.inRange c i ⟨b, hb, hi⟩
    rw [List.mem_singleton.1 hk, UInt32.lt_iff_toNat_lt]
    omega
  params := h.params.append_value v
  freeVars := h.freeVars.append_value v

theorem block (h : f.WellBuilt) {id : BlockId} (hid : id.toNat = f.blocks.length) :
    WellBuilt { f with blocks := f.blocks ++ [⟨id, [], []⟩] } where
  toListing := by
    refine h.toListing.congr rfl fun j i => ?_
    simp only [ListsAt, getElem?_append_singleton_eq_some_iff]
    constructor
    · rintro ⟨b, hb | ⟨-, rfl⟩, hi⟩
      · exact ⟨b, hb, hi⟩
      · cases hi
    · exact fun ⟨b, hb, hi⟩ => ⟨b, .inl hb, hi⟩
  index_eq j b hb := by
    rcases getElem?_append_singleton_eq_some_iff.1 hb with hb | ⟨rfl, rfl⟩
    · exact h.index_eq j b hb
    · exact hid
  ascending b hb := by
    rcases List.mem_append.1 hb with hb | hb
    · exact h.ascending b hb
    · rw [List.mem_singleton.1 hb]
      exact .nil
  params := h.params
  freeVars := h.freeVars

theorem succs (h : f.WellBuilt) (c : Nat) (more : List BlockId) :
    WellBuilt { f with
      blocks := f.blocks.modify c fun b => { b with succs := b.succs ++ more } } where
  toListing := by
    refine h.toListing.congr rfl fun j i => (listsAt_modify_iff rfl).trans ?_
    refine exists_congr fun b => and_congr_right fun _ => ?_
    split <;> rfl
  index_eq _ _ := h.index_eq_modify fun _ => rfl
  ascending _ := h.ascending_modify fun b hb => h.ascending b (List.mem_of_getElem? hb)
  params := h.params
  freeVars := h.freeVars

theorem change (h : f.WellBuilt) (hg : f.Change g) : g.WellBuilt := by
  cases hg with
  | value hv => exact h.value hv
  | instr hv hid hc => exact h.instr hv hid hc
  | param hkind hname hp => exact h.param hkind hname hp
  | freeVar hkind hname hp => exact h.freeVar hkind hname hp
  | block hid => exact h.block hid
  | succs => exact h.succs _ _

end WellBuilt

theorem Change.id_eq (h : f.Change g) : g.id = f.id := by
  cases h <;> rfl

theorem Change.blocks_ne_nil (h : f.Change g) (hf : f.blocks ≠ []) : g.blocks ≠ [] := by
  cases h with
  | value | param | freeVar => exact hf
  | instr | succs => simpa [List.modify_eq_nil_iff] using hf
  | block => simp

end Function

namespace Draft

variable {d d' : Draft} {id : ValueId} {name type : String} {position : Option Position}
  {kind : ValueKind}

/-- Some elementary changes of the function of a draft. -/
def Changes (d d' : Draft) : Prop := Relation.ReflTransGen Function.Change d.function d'.function

theorem addValue_function (h : d.addValue name type position kind = .ok (d', id)) :
    id.toNat = d.function.values.length ∧ d'.current = d.current ∧
      d'.function = { d.function with values := d.function.values ++
        [⟨if name.isEmpty then "t" ++ String.ofList (Decimal.natText id.toNat) else name,
          type, position, kind⟩] } := by
  obtain ⟨i, hi, hd⟩ := bind_eq_ok h
  cases hd
  exact ⟨toNat_freshId hi, rfl, rfl⟩

theorem changeBlock_function {change : Block → Block} (h : d.changeBlock change = .ok d') :
    d.current.toNat < d.function.blocks.length ∧
      d'.function = { d.function with
        blocks := d.function.blocks.modify d.current.toNat change } := by
  rw [changeBlock] at h
  split at h
  case isTrue hlt =>
    cases h
    exact ⟨hlt, rfl⟩
  case isFalse => cases h

theorem changes_addValue (hkind : kind.isInstr = false)
    (h : d.addValue name type position kind = .ok (d', id)) : d.Changes d' := by
  obtain ⟨-, -, hfunction⟩ := addValue_function h
  rw [Changes, hfunction]
  exact .single (.value hkind)

theorem changes_addInstr (hkind : kind.isInstr = true)
    (h : d.addInstr type position kind = .ok (d', id)) : d.Changes d' := by
  obtain ⟨⟨d₁, i⟩, hvalue, hblock⟩ := bind_eq_ok h
  obtain ⟨d₂, hchange, hd⟩ := bind_eq_ok hblock
  cases hd
  obtain ⟨hid, hcurrent, hvalues⟩ := addValue_function hvalue
  obtain ⟨hlt, hblocks⟩ := changeBlock_function hchange
  rw [hcurrent, hvalues] at hlt hblocks
  rw [Changes, hblocks]
  exact .single (.instr hkind hid hlt)

theorem changes_addParam (h : d.addParam name type = .ok (d', id)) : d.Changes d' := by
  obtain ⟨⟨d₁, i⟩, hvalue, hd⟩ := bind_eq_ok h
  cases hd
  obtain ⟨hid, -, hvalues⟩ := addValue_function hvalue
  rw [Changes]
  simp only [hvalues]
  exact .single (.param rfl rfl hid)

theorem changes_addFreeVar (h : d.addFreeVar name type = .ok (d', id)) : d.Changes d' := by
  obtain ⟨⟨d₁, i⟩, hvalue, hd⟩ := bind_eq_ok h
  cases hd
  obtain ⟨hid, -, hvalues⟩ := addValue_function hvalue
  rw [Changes]
  simp only [hvalues]
  exact .single (.freeVar rfl rfl hid)

theorem changes_storeElements {array : ValueId} {index : Nat} {es : List ValueId}
    (h : storeElements array index d es = .ok d') : d.Changes d' := by
  induction es generalizing d index with
  | nil =>
    cases h
    exact .refl
  | cons e rest ih =>
    obtain ⟨⟨d₁, i⟩, hindex, h₁⟩ := bind_eq_ok h
    obtain ⟨⟨d₂, addr⟩, haddr, h₂⟩ := bind_eq_ok h₁
    obtain ⟨⟨d₃, boxed⟩, hboxed, h₃⟩ := bind_eq_ok h₂
    obtain ⟨⟨d₄, store⟩, hstore, h₄⟩ := bind_eq_ok h₃
    have hvalue : d.Changes d₁ := changes_addValue rfl hindex
    have hinstrs : d₁.Changes d₄ :=
      ((changes_addInstr rfl haddr).trans (changes_addInstr rfl hboxed)).trans
        (changes_addInstr rfl hstore)
    exact (hvalue.trans hinstrs).trans (ih h₄)

theorem changes_addVariadic {es : List ValueId} (h : d.addVariadic es = .ok (d', id)) :
    d.Changes d' := by
  obtain ⟨⟨d₁, array⟩, halloc, h₁⟩ := bind_eq_ok h
  obtain ⟨d₂, hstores, hslice⟩ := bind_eq_ok h₁
  exact (changes_addInstr rfl halloc).trans
    ((changes_storeElements hstores).trans (changes_addInstr rfl hslice))

theorem changes_addBlock (h : d.addBlock = .ok (d', id)) : d.Changes d' := by
  obtain ⟨i, hi, hd⟩ := bind_eq_ok h
  cases hd
  exact .single (.block (toNat_freshId hi))

theorem changes_leave {succs : List BlockId} (hkind : kind.isInstr = true)
    (h : d.leave kind succs = .ok d') : d.Changes d' := by
  obtain ⟨⟨d₁, i⟩, hinstr, hchange⟩ := bind_eq_ok h
  obtain ⟨-, hblocks⟩ := changeBlock_function hchange
  refine (changes_addInstr hkind hinstr).tail ?_
  rw [hblocks]
  exact .succs

/-- Every step comes down to elementary changes. -/
theorem changes_step {s : DraftStep} {made : Option UInt32} (h : d.step s = .ok (d', made)) :
    d.Changes d' := by
  cases s with
  | inFile file | switchTo block =>
    cases h
    exact .refl
  | param name type =>
    obtain ⟨id, hresult, -⟩ := made_eq_ok h
    exact changes_addParam hresult
  | freeVar name type =>
    obtain ⟨id, hresult, -⟩ := made_eq_ok h
    exact changes_addFreeVar hresult
  | variadic elements =>
    obtain ⟨id, hresult, -⟩ := made_eq_ok h
    exact changes_addVariadic hresult
  | newBlock =>
    obtain ⟨id, hresult, -⟩ := made_eq_ok h
    exact changes_addBlock hresult
  | constStr | constInt | nil | globalVar | funcRef =>
    obtain ⟨id, hresult, -⟩ := made_eq_ok h
    exact changes_addValue rfl hresult
  | jump | branch | ret =>
    obtain ⟨d₁, hleave, hd⟩ := bind_eq_ok h
    cases hd
    exact changes_leave rfl hleave
  | _ =>
    obtain ⟨id, hresult, -⟩ := made_eq_ok h
    exact changes_addInstr rfl hresult

end Draft

end ServiceGraph
