import ServiceGraph.Program.Draft

namespace ServiceGraph

theorem bind_eq_ok {ε α β : Type} {x : Except ε α} {next : α → Except ε β} {b : β}
    (h : x >>= next = .ok b) : ∃ a, x = .ok a ∧ next a = .ok b := by
  cases x with
  | error e => cases h
  | ok a => exact ⟨a, rfl, h⟩

/-- The value that an address or a store refers to: the array, or the address. -/
def ValueKind.target? : ValueKind → Option ValueId
  | .indexAddr array _ => some array
  | .store addr _ => some addr
  | _ => none

theorem toNat_freshId {position : Nat} {id : UInt32} (h : freshId position = .ok id) :
    id.toNat = position := by
  rw [freshId] at h
  split at h
  case isTrue hlt =>
    cases h
    exact UInt32.toNat_ofNat_of_lt' hlt
  case isFalse => cases h

namespace Draft

variable {d d' : Draft} {id array slice : ValueId} {kind : ValueKind} {es : List ValueId}

/-- The kinds of the values that a draft has. -/
def kinds (d : Draft) : List ValueKind := d.function.values.map (·.kind)

theorem addValue_eq_ok {name type : String} {position : Option Position}
    (h : d.addValue name type position kind = .ok (d', id)) :
    d'.kinds = d.kinds ++ [kind] ∧ id.toNat = d.kinds.length := by
  obtain ⟨i, hi, hd⟩ := bind_eq_ok h
  cases hd
  refine ⟨by simp [kinds], ?_⟩
  rw [toNat_freshId hi, kinds, List.length_map]

theorem kinds_changeBlock {change : Block → Block} (h : d.changeBlock change = .ok d') :
    d'.kinds = d.kinds := by
  rw [changeBlock] at h
  split at h
  case isTrue =>
    cases h
    rfl
  case isFalse => cases h

theorem addInstr_eq_ok {type : String} {position : Option Position}
    (h : d.addInstr type position kind = .ok (d', id)) :
    d'.kinds = d.kinds ++ [kind] ∧ id.toNat = d.kinds.length := by
  obtain ⟨⟨d₁, i⟩, hvalue, hblock⟩ := bind_eq_ok h
  obtain ⟨d₂, hchange, hd⟩ := bind_eq_ok hblock
  cases hd
  obtain ⟨hkinds, hid⟩ := addValue_eq_ok hvalue
  exact ⟨(kinds_changeBlock hchange).trans hkinds, hid⟩

/-- The values that store elements into an array, where `base` values come before and the first
element goes to position `index`. -/
def elementKinds (array : ValueId) : (base index : Nat) → List ValueId → List ValueKind
  | _, _, [] => []
  | base, index, e :: rest =>
    .const (.int (Int64.ofNat index)) :: .indexAddr array (UInt32.ofNat base) :: .makeInterface e ::
      .store (UInt32.ofNat (base + 1)) (UInt32.ofNat (base + 2)) ::
      elementKinds array (base + 4) (index + 1) rest

theorem length_elementKinds (array : ValueId) (base index : Nat) (es : List ValueId) :
    (elementKinds array base index es).length = 4 * es.length := by
  induction es generalizing base index with
  | nil => rfl
  | cons e rest ih => simp [elementKinds, ih]; omega

theorem kinds_storeElements {index : Nat} (h : storeElements array index d es = .ok d') :
    d'.kinds = d.kinds ++ elementKinds array d.kinds.length index es := by
  induction es generalizing d index with
  | nil =>
    cases h
    simp [elementKinds]
  | cons e rest ih =>
    obtain ⟨⟨d₁, i⟩, hindex, h₁⟩ := bind_eq_ok h
    obtain ⟨⟨d₂, addr⟩, haddr, h₂⟩ := bind_eq_ok h₁
    obtain ⟨⟨d₃, boxed⟩, hboxed, h₃⟩ := bind_eq_ok h₂
    obtain ⟨⟨d₄, store⟩, hstore, h₄⟩ := bind_eq_ok h₃
    obtain ⟨hk₁, hi⟩ := addValue_eq_ok hindex
    obtain ⟨hk₂, ha⟩ := addInstr_eq_ok haddr
    obtain ⟨hk₃, hb⟩ := addInstr_eq_ok hboxed
    obtain ⟨hk₄, -⟩ := addInstr_eq_ok hstore
    have hrest := ih h₄
    have hi' : i = UInt32.ofNat d.kinds.length := by rw [← hi, UInt32.ofNat_toNat]
    have ha' : addr = UInt32.ofNat (d.kinds.length + 1) := by
      rw [← UInt32.ofNat_toNat (x := addr), ha, hk₁, List.length_append, List.length_singleton]
    have hb' : boxed = UInt32.ofNat (d.kinds.length + 2) := by
      rw [← UInt32.ofNat_toNat (x := boxed), hb, hk₂, hk₁]
      simp
    rw [hrest, hk₄, hk₃, hk₂, hk₁, hi', ha', hb']
    simp [elementKinds]

/-- The values of a list of arguments, where `base` values come before. -/
def variadicKinds (base : Nat) (es : List ValueId) : List ValueKind :=
  .alloc :: (elementKinds (UInt32.ofNat base) (base + 1) 0 es ++ [.slice (UInt32.ofNat base)])

theorem addVariadic_eq_ok (h : d.addVariadic es = .ok (d', slice)) :
    d'.kinds = d.kinds ++ variadicKinds d.kinds.length es ∧
      slice.toNat = d.kinds.length + 1 + 4 * es.length := by
  obtain ⟨⟨d₁, array⟩, halloc, h₁⟩ := bind_eq_ok h
  obtain ⟨d₂, hstores, hslice⟩ := bind_eq_ok h₁
  obtain ⟨hk₁, ha⟩ := addInstr_eq_ok halloc
  have hk₂ := kinds_storeElements hstores
  obtain ⟨hk₃, hs⟩ := addInstr_eq_ok hslice
  have harray : array = UInt32.ofNat d.kinds.length := by rw [← ha, UInt32.ofNat_toNat]
  refine ⟨?_, ?_⟩
  · rw [hk₃, hk₂, hk₁, harray]
    simp [variadicKinds]
  · rw [hs, hk₂, hk₁]
    simp [length_elementKinds]
    omega

theorem getElem?_elementKinds (array : ValueId) (base index : Nat) (es : List ValueId) (j : Nat) :
    (elementKinds array base index es)[4 * j]? =
        (es[j]?).map (fun _ => .const (.int (Int64.ofNat (index + j)))) ∧
      (elementKinds array base index es)[4 * j + 1]? =
        (es[j]?).map (fun _ => .indexAddr array (UInt32.ofNat (base + 4 * j))) ∧
      (elementKinds array base index es)[4 * j + 2]? = (es[j]?).map .makeInterface ∧
      (elementKinds array base index es)[4 * j + 3]? =
        (es[j]?).map (fun _ => .store (UInt32.ofNat (base + 4 * j + 1))
          (UInt32.ofNat (base + 4 * j + 2))) := by
  induction es generalizing base index j with
  | nil => simp [elementKinds]
  | cons e rest ih =>
    cases j with
    | zero => simp [elementKinds]
    | succ j =>
      have hbase : base + 4 + 4 * j = base + 4 * (j + 1) := by omega
      have hindex : index + 1 + j = index + (j + 1) := by omega
      have hj := ih (base + 4) (index + 1) j
      rw [hbase, hindex] at hj
      exact hj

theorem cases_elementKinds {base index q : Nat}
    (h : (elementKinds array base index es)[q]? = some kind) :
    ∃ j e, es[j]? = some e ∧
      (q = 4 * j ∧ kind = .const (.int (Int64.ofNat (index + j))) ∨
        q = 4 * j + 1 ∧ kind = .indexAddr array (UInt32.ofNat (base + 4 * j)) ∨
        q = 4 * j + 2 ∧ kind = .makeInterface e ∨
        q = 4 * j + 3 ∧ kind = .store (UInt32.ofNat (base + 4 * j + 1))
          (UInt32.ofNat (base + 4 * j + 2))) := by
  obtain ⟨h₀, h₁, h₂, h₃⟩ := getElem?_elementKinds array base index es (q / 4)
  have hq : q = 4 * (q / 4) + q % 4 := by omega
  have hr : q % 4 = 0 ∨ q % 4 = 1 ∨ q % 4 = 2 ∨ q % 4 = 3 := by omega
  generalize q / 4 = j at hq h₀ h₁ h₂ h₃
  generalize q % 4 = r at hq hr
  rcases hr with rfl | rfl | rfl | rfl <;> subst hq
  · obtain ⟨e, he, hkind⟩ := Option.map_eq_some_iff.1 (h₀.symm.trans h)
    exact ⟨j, e, he, .inl ⟨rfl, hkind.symm⟩⟩
  · obtain ⟨e, he, hkind⟩ := Option.map_eq_some_iff.1 (h₁.symm.trans h)
    exact ⟨j, e, he, .inr (.inl ⟨rfl, hkind.symm⟩)⟩
  · obtain ⟨e, he, hkind⟩ := Option.map_eq_some_iff.1 (h₂.symm.trans h)
    exact ⟨j, e, he, .inr (.inr (.inl ⟨rfl, hkind.symm⟩))⟩
  · obtain ⟨e, he, hkind⟩ := Option.map_eq_some_iff.1 (h₃.symm.trans h)
    exact ⟨j, e, he, .inr (.inr (.inr ⟨rfl, hkind.symm⟩))⟩

theorem cases_variadicKinds {base q : Nat} (h : (variadicKinds base es)[q]? = some kind) :
    kind = .alloc ∨ kind = .slice (UInt32.ofNat base) ∨
      ∃ p, q = p + 1 ∧ (elementKinds (UInt32.ofNat base) (base + 1) 0 es)[p]? = some kind := by
  cases q with
  | zero => exact .inl (Option.some.inj h).symm
  | succ p =>
    rw [variadicKinds, List.getElem?_cons_succ] at h
    by_cases hlt : p < (elementKinds (UInt32.ofNat base) (base + 1) 0 es).length
    · rw [List.getElem?_append_left hlt] at h
      exact .inr (.inr ⟨p, rfl, h⟩)
    · rw [List.getElem?_append_right (Nat.le_of_not_lt hlt)] at h
      exact .inr (.inl (List.mem_singleton.1 (List.mem_of_getElem? h)))

/-- Among values that come after `base` others, addresses and stores refer to earlier ones of
them. -/
def Local (base : Nat) (new : List ValueKind) : Prop :=
  ∀ j kind x, new[j]? = some kind → kind.target? = some x → base ≤ x.toNat ∧ x.toNat < base + j

theorem local_nil (base : Nat) : Local base [] := by
  intro j kind x hj
  cases hj

theorem local_singleton {base : Nat} (h : kind.target? = none) : Local base [kind] := by
  intro j k x hj hx
  cases List.mem_singleton.1 (List.mem_of_getElem? hj)
  cases h.symm.trans hx

theorem Local.append {base : Nat} {new new' : List ValueKind} (h : Local base new)
    (h' : Local (base + new.length) new') : Local base (new ++ new') := by
  intro j kind x hj hx
  by_cases hlt : j < new.length
  · rw [List.getElem?_append_left hlt] at hj
    exact h j kind x hj hx
  · rw [List.getElem?_append_right (by omega)] at hj
    have hx' := h' (j - new.length) kind x hj hx
    omega

theorem local_variadicKinds {base : Nat} (h : base + 1 + 4 * es.length < UInt32.size) :
    Local base (variadicKinds base es) := by
  have toNat {n : Nat} (hn : n ≤ base + 1 + 4 * es.length) : (UInt32.ofNat n).toNat = n :=
    UInt32.toNat_ofNat_of_lt' (by omega)
  intro j kind x hj hx
  rcases cases_variadicKinds hj with rfl | rfl | ⟨q, rfl, helement⟩
  · cases hx
  · cases hx
  · obtain ⟨i, e, he, hkind⟩ := cases_elementKinds helement
    have hi : i < es.length := (List.getElem?_eq_some_iff.1 he).1
    rcases hkind with ⟨-, rfl⟩ | ⟨hq, rfl⟩ | ⟨-, rfl⟩ | ⟨hq, rfl⟩
    · cases hx
    · cases hx
      rw [toNat (by omega)]
      omega
    · cases hx
    · cases hx
      rw [toNat (by omega)]
      omega

theorem made_eq_ok {result : Except BuildError (Draft × UInt32)} {made : Option UInt32}
    (h : step.made result = .ok (d', made)) : ∃ id, result = .ok (d', id) ∧ made = some id := by
  obtain ⟨⟨d₁, id⟩, hresult, hmade⟩ := bind_eq_ok h
  cases hmade
  exact ⟨id, hresult, rfl⟩

/-- A draft has more values than another one, and the new ones are local. -/
def Extends (d d' : Draft) : Prop :=
  ∃ new, d'.kinds = d.kinds ++ new ∧ Local d.kinds.length new

theorem Extends.refl (d : Draft) : d.Extends d := ⟨[], by simp, local_nil _⟩

theorem Extends.trans {d₁ d₂ d₃ : Draft} (h : d₁.Extends d₂) (h' : d₂.Extends d₃) :
    d₁.Extends d₃ := by
  obtain ⟨new, hkinds, hlocal⟩ := h
  obtain ⟨new', hkinds', hlocal'⟩ := h'
  refine ⟨new ++ new', by rw [hkinds', hkinds, List.append_assoc], hlocal.append ?_⟩
  rwa [hkinds, List.length_append] at hlocal'

theorem Extends.of_kinds_eq (h : d'.kinds = d.kinds) : d.Extends d' :=
  ⟨[], by rw [h, List.append_nil], local_nil _⟩

theorem Extends.singleton (h : d'.kinds = d.kinds ++ [kind]) (hkind : kind.target? = none) :
    d.Extends d' :=
  ⟨[kind], h, local_singleton hkind⟩

theorem extends_addParam {name type : String} (h : d.addParam name type = .ok (d', id)) :
    d.Extends d' := by
  obtain ⟨⟨d₁, i⟩, hvalue, hd⟩ := bind_eq_ok h
  cases hd
  exact .singleton (addValue_eq_ok hvalue).1 rfl

theorem extends_addFreeVar {name type : String} (h : d.addFreeVar name type = .ok (d', id)) :
    d.Extends d' := by
  obtain ⟨⟨d₁, i⟩, hvalue, hd⟩ := bind_eq_ok h
  cases hd
  exact .singleton (addValue_eq_ok hvalue).1 rfl

theorem extends_addVariadic (h : d.addVariadic es = .ok (d', slice)) : d.Extends d' := by
  obtain ⟨hkinds, hslice⟩ := addVariadic_eq_ok h
  exact ⟨_, hkinds, local_variadicKinds (hslice ▸ slice.toNat_lt)⟩

theorem extends_addBlock (h : d.addBlock = .ok (d', id)) : d.Extends d' := by
  obtain ⟨i, -, hd⟩ := bind_eq_ok h
  cases hd
  exact .refl d

theorem extends_leave {succs : List BlockId} (hkind : kind.target? = none)
    (h : d.leave kind succs = .ok d') : d.Extends d' := by
  obtain ⟨⟨d₁, i⟩, hinstr, hchange⟩ := bind_eq_ok h
  apply Extends.singleton _ hkind
  rw [kinds_changeBlock hchange, (addInstr_eq_ok hinstr).1]

/-- Every step extends the draft. -/
theorem extends_step {s : DraftStep} {made : Option UInt32} (h : d.step s = .ok (d', made)) :
    d.Extends d' := by
  cases s with
  | inFile file | switchTo block =>
    cases h
    exact .of_kinds_eq rfl
  | param name type =>
    obtain ⟨id, hresult, -⟩ := made_eq_ok h
    exact extends_addParam hresult
  | freeVar name type =>
    obtain ⟨id, hresult, -⟩ := made_eq_ok h
    exact extends_addFreeVar hresult
  | variadic elements =>
    obtain ⟨id, hresult, -⟩ := made_eq_ok h
    exact extends_addVariadic hresult
  | newBlock =>
    obtain ⟨id, hresult, -⟩ := made_eq_ok h
    exact extends_addBlock hresult
  | constStr | constInt | nil | globalVar | funcRef =>
    obtain ⟨id, hresult, -⟩ := made_eq_ok h
    exact .singleton (addValue_eq_ok hresult).1 rfl
  | jump | branch | ret =>
    obtain ⟨d₁, hleave, hd⟩ := bind_eq_ok h
    cases hd
    exact extends_leave rfl hleave
  | _ =>
    obtain ⟨id, hresult, -⟩ := made_eq_ok h
    exact .singleton (addInstr_eq_ok hresult).1 rfl

theorem run_cons_eq_ok {s : DraftStep} {rest : List DraftStep} {made : List (Option UInt32)}
    (h : d.run (s :: rest) = .ok (d', made)) :
    ∃ d₁ m more, d.step s = .ok (d₁, m) ∧ d₁.run rest = .ok (d', more) ∧ made = m :: more := by
  obtain ⟨⟨d₁, m⟩, hstep, hrest⟩ := bind_eq_ok h
  obtain ⟨⟨d₂, more⟩, hrun, hd⟩ := bind_eq_ok hrest
  cases hd
  exact ⟨d₁, m, more, hstep, hrun, rfl⟩

theorem run_append_eq_ok {xs ys : List DraftStep} {made : List (Option UInt32)}
    (h : d.run (xs ++ ys) = .ok (d', made)) :
    ∃ d₁, d.run xs = .ok (d₁, made.take xs.length) ∧ d₁.run ys = .ok (d', made.drop xs.length) := by
  induction xs generalizing d made with
  | nil => exact ⟨d, rfl, h⟩
  | cons s xs ih =>
    obtain ⟨d₁, m, more, hstep, hrun, rfl⟩ := run_cons_eq_ok h
    obtain ⟨d₂, hxs, hys⟩ := ih hrun
    refine ⟨d₂, ?_, hys⟩
    rw [run, hstep]
    simp only [bind, Except.bind, hxs]
    rfl

theorem extends_run {steps : List DraftStep} {made : List (Option UInt32)}
    (h : d.run steps = .ok (d', made)) : d.Extends d' := by
  induction steps generalizing d made with
  | nil =>
    cases h
    exact .refl _
  | cons s rest ih =>
    obtain ⟨d₁, m, more, hstep, hrun, -⟩ := run_cons_eq_ok h
    exact (extends_step hstep).trans (ih hrun)

end Draft

end ServiceGraph
