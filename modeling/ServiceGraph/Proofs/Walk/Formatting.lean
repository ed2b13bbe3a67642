import Mathlib.Data.List.Forall2
import ServiceGraph.Proofs.Program.Drafts
import ServiceGraph.Proofs.Walk.Unboxing
import ServiceGraph.Proofs.Walk.Variadic

namespace ServiceGraph

/-- A constant that is formatted. -/
inductive Operand where
  | string (s : String)
  | int (n : Int64)

namespace Operand

def literal : Operand → Literal
  | .string s => .string s
  | .int n => .int n

def verb : Operand → Char
  | .string _ => 's'
  | .int _ => 'd'

def text : Operand → String
  | .string s => s
  | .int n => toString n.toInt

/-- The step that makes the constant. -/
def step : Operand → DraftStep
  | .string s => .constStr s
  | .int n => .constInt n

end Operand

/-- A part of a formatted text. -/
inductive Piece where
  | literal (s : String)
  | operand (o : Operand)

namespace Piece

/-- What stands in the format for a piece. -/
def format : Piece → List Char
  | .literal s => s.toList.flatMap fun c => if c = '%' then ['%', '%'] else [c]
  | .operand o => ['%', o.verb]

def operand? : Piece → Option Operand
  | .literal _ => none
  | .operand o => some o

def text : Piece → String
  | .literal s => s
  | .operand o => o.text

/-- The format of a list of pieces. -/
def formats (pieces : List Piece) : String := String.ofList (pieces.flatMap format)

def operands (pieces : List Piece) : List Operand := pieces.filterMap operand?

/-- The texts of a list of pieces, one after the other. -/
def texts (pieces : List Piece) : String := String.ofList (pieces.flatMap fun p => p.text.toList)

end Piece

/-- The number of operands that a format asks for. -/
def verbCount : List Char → Nat
  | '%' :: c :: rest => (if c = 's' ∨ c = 'd' then 1 else 0) + verbCount rest
  | _ :: rest => verbCount rest
  | [] => 0

/-- Whether a percent sign is the last character of a format, or stands before one that means
nothing there. -/
def hasStray : List Char → Bool
  | ['%'] => true
  | '%' :: c :: rest => (c != '%' && c != 's' && c != 'd') || hasStray rest
  | _ :: rest => hasStray rest
  | [] => false

/-- The verbs that operands are read for: those before the first percent sign that is out of
place. -/
def verbs : List Char → List Char
  | '%' :: '%' :: rest => verbs rest
  | '%' :: verb :: rest => if verb = 's' ∨ verb = 'd' then verb :: verbs rest else []
  | ['%'] => []
  | _ :: rest => verbs rest
  | [] => []

section Expansion

variable {operand : Char → ValueId → Search String} {cs : List Char} {xs ys : List ValueId}

theorem expandFormat_char {c : Char} (hc : c ≠ '%') :
    expandFormat operand (c :: cs) xs = do return c :: (← expandFormat operand cs xs) := by
  rw [expandFormat]
  all_goals
    intros
    contradiction

theorem expandFormat_operand {o : Operand} {x : ValueId} (hx : operand o.verb x = .found o.text) :
    expandFormat operand ('%' :: o.verb :: cs) (x :: xs) =
      do return o.text.toList ++ (← expandFormat operand cs xs) := by
  have hverb : o.verb = 's' ∨ o.verb = 'd' := by
    cases o with
    | string => exact .inl rfl
    | int => exact .inr rfl
  rw [expandFormat, if_pos hverb, hx]
  · rfl
  · intro heq
    simp [heq] at hverb

theorem expandFormat_literal (s : List Char) :
    expandFormat operand (s.flatMap (fun c => if c = '%' then ['%', '%'] else [c]) ++ cs) xs =
      do return s ++ (← expandFormat operand cs xs) := by
  induction s with
  | nil =>
    rw [List.flatMap_nil, List.nil_append]
    cases expandFormat operand cs xs <;> rfl
  | cons c rest ih =>
    rw [List.flatMap_cons, List.append_assoc]
    by_cases hc : c = '%'
    · subst hc
      rw [if_pos rfl, List.cons_append, List.singleton_append, expandFormat, ih]
      cases expandFormat operand cs xs <;> rfl
    · rw [if_neg hc, List.singleton_append, expandFormat_char hc, ih]
      cases expandFormat operand cs xs <;> rfl

/-- A format made of pieces is filled in with their texts. Operands that are left over do not
matter. -/
theorem expandFormat_pieces (rest : List ValueId) {pieces : List Piece}
    (h : List.Forall₂ (fun o x => operand (Operand.verb o) x = .found o.text)
      (Piece.operands pieces) xs) :
    expandFormat operand (Piece.formats pieces).toList (xs ++ rest) =
      .found (Piece.texts pieces).toList := by
  rw [Piece.formats, Piece.texts, String.toList_ofList, String.toList_ofList]
  induction pieces generalizing xs with
  | nil =>
    rw [List.flatMap_nil, expandFormat, List.flatMap_nil]
  | cons p pieces ih =>
    rw [List.flatMap_cons, List.flatMap_cons]
    cases p with
    | literal s =>
      have htail := ih h
      rw [Piece.format, expandFormat_literal, htail]
      rfl
    | operand o =>
      cases h with
      | cons hx hrest =>
        have htail := ih hrest
        rw [Piece.format, List.cons_append, List.singleton_append, List.cons_append,
          expandFormat_operand hx, htail]
        rfl

/-- A format with stray percent signs or with too few operands is not filled in: there is no text,
or one of the operands that are read is searched for without an end. -/
theorem expandFormat_of_bad (h : xs.length < verbCount cs ∨ hasStray cs = true) :
    expandFormat operand cs xs = .unknown ∨ expandFormat operand cs xs = .endless ∧
      ∃ p ∈ (verbs cs).zip xs, operand p.1 p.2 = .endless := by
  fun_induction expandFormat operand cs xs with
  | case1 => simp [verbCount, hasStray] at h
  | case2 rest xs ih =>
    have hrest : xs.length < verbCount rest ∨ hasStray rest = true := by
      simpa [verbCount, hasStray] using h
    rw [verbs]
    exact Search.bind_of_unanswered (ih hrest) _
  | case3 | case5 | case6 => exact .inl rfl
  | case4 verb rest hp hv o xs ih =>
    have hrest : xs.length < verbCount rest ∨ hasStray rest = true := by
      have hcount : verbCount ('%' :: verb :: rest) = 1 + verbCount rest := by
        rw [verbCount, if_pos hv]
      have hstray : hasStray ('%' :: verb :: rest) = hasStray rest := by
        rcases hv with rfl | rfl <;> simp [hasStray]
      rw [hcount, hstray, List.length_cons] at h
      exact h.imp_left fun hlt => by omega
    have hverbs : verbs ('%' :: verb :: rest) = verb :: verbs rest := by
      rw [verbs, if_pos hv]
      exact hp
    rw [hverbs, List.zip_cons_cons]
    cases ho : operand verb o with
    | unknown => exact .inl rfl
    | endless => exact .inr ⟨rfl, (verb, o), List.mem_cons_self, ho⟩
    | found text =>
      refine Search.bind_of_unanswered ((ih hrest).imp_right ?_) _
      rintro ⟨hendless, p, hp, hoperand⟩
      exact ⟨hendless, p, List.mem_cons_of_mem _ hp, hoperand⟩
  | case7 c rest xs hp hv hl ih =>
    have hc : c ≠ '%' := by
      intro hc
      cases rest with
      | nil => exact hl hc rfl
      | cons verb rest => exact hv verb rest hc rfl
    have hrest : xs.length < verbCount rest ∨ hasStray rest = true := by
      rwa [verbCount, hasStray] at h
      all_goals
        intros
        contradiction
    have hverbs : verbs (c :: rest) = verbs rest := by
      rw [verbs]
      all_goals
        intros
        contradiction
    rw [hverbs]
    exact Search.bind_of_unanswered (ih hrest) _

theorem expandFormat_congr
    (h : List.Forall₂ (fun x y => ∀ verb, operand verb x = operand verb y) xs ys) :
    expandFormat operand cs xs = expandFormat operand cs ys := by
  fun_induction expandFormat operand cs xs generalizing ys with
  | case1 => rw [expandFormat]
  | case2 rest xs ih => rw [expandFormat, ih h]
  | case3 verb rest hp hv =>
    cases h
    rw [expandFormat, if_pos hv]
    exact hp
  | case4 verb rest hp hv x xs ih =>
    cases h with
    | cons hx hxs =>
      rw [expandFormat, if_pos hv, hx, ih hxs]
      exact hp
  | case5 verb rest xs hp hv =>
    cases h <;> rw [expandFormat, if_neg hv] <;> exact hp
  | case6 => rw [expandFormat]
  | case7 c rest xs hp hv hl ih =>
    rw [expandFormat, ih h]
    all_goals assumption

/-- What is paired with an element of two lists is paired with one of the first, or of the second
after leaving out as many. -/
theorem mem_zip_append {vs : List Char} {p : Char × ValueId} (h : p ∈ vs.zip (xs ++ ys)) :
    p.2 ∈ xs ∨ p ∈ (vs.drop xs.length).zip ys := by
  induction xs generalizing vs with
  | nil => exact .inr h
  | cons x xs ih =>
    cases vs with
    | nil => cases h
    | cons v vs =>
      rcases List.mem_cons.1 h with rfl | h
      · exact .inl List.mem_cons_self
      · exact (ih h).imp_left (List.mem_cons_of_mem x)

end Expansion

section Elements

open Draft

variable {f : Function} {pre post : List ValueKind} {es : List ValueId}

theorem Function.kind?_eq_getElem? (f : Function) (id : ValueId) :
    f.kind? id = (f.values.map (·.kind))[id.toNat]? := by
  rw [Function.kind?, Function.value?, List.getElem?_map]

theorem Function.storesAt_iff {array : ValueId} {k : Nat} {i : Int} {v : ValueId} :
    f.StoresAt array k i v ↔ ∃ addr index n,
      (f.values.map (·.kind))[k]? = some (.store addr v) ∧
      f.kind? addr = some (.indexAddr array index) ∧
      f.kind? index = some (.const (.int n)) ∧ n.toInt = i := by
  constructor
  · intro ⟨store, hk, index, n, ⟨addr, hstore, haddr⟩, hindex, hn⟩
    refine ⟨addr, index, n, ?_, haddr, hindex, hn⟩
    rw [List.getElem?_map, hk, Option.map_some, hstore]
  · intro ⟨addr, index, n, hk, haddr, hindex, hn⟩
    rw [List.getElem?_map] at hk
    obtain ⟨store, hstore, hkind⟩ := Option.map_eq_some_iff.1 hk
    exact ⟨store, hstore, index, n, ⟨addr, hkind, haddr⟩, hindex, hn⟩

/-- A function has a list of arguments among its values; other addresses and stores belong to other
steps of its construction. -/
structure ListsAt (f : Function) (pre : List ValueKind) (es : List ValueId)
    (post : List ValueKind) : Prop where
  kinds : f.values.map (·.kind) = pre ++ (variadicKinds pre.length es ++ post)
  before : Local 0 pre
  after : Local (pre.length + (4 * es.length + 2)) post
  size : pre.length + 1 + 4 * es.length < UInt32.size

namespace ListsAt

theorem length_variadicKinds (base : Nat) (es : List ValueId) :
    (variadicKinds base es).length = 4 * es.length + 2 := by
  simp [variadicKinds, length_elementKinds]

theorem toNat_ofNat (h : ListsAt f pre es post) {n : Nat} (hn : n ≤ pre.length + 1 + 4 * es.length) :
    (UInt32.ofNat n).toNat = n :=
  UInt32.toNat_ofNat_of_lt' (Nat.lt_of_le_of_lt hn h.size)

theorem getElem?_before (h : ListsAt f pre es post) {k : Nat} (hk : k < pre.length) :
    (f.values.map (·.kind))[k]? = pre[k]? := by
  rw [h.kinds, List.getElem?_append_left hk]

theorem getElem?_list (h : ListsAt f pre es post) {q : Nat} (hq : q < 4 * es.length + 2) :
    (f.values.map (·.kind))[pre.length + q]? = (variadicKinds pre.length es)[q]? := by
  rw [h.kinds, List.getElem?_append_right (Nat.le_add_right _ _), Nat.add_sub_cancel_left,
    List.getElem?_append_left (by rwa [length_variadicKinds])]

theorem getElem?_after (h : ListsAt f pre es post) (j : Nat) :
    (f.values.map (·.kind))[pre.length + (4 * es.length + 2) + j]? = post[j]? := by
  rw [h.kinds, List.getElem?_append_right (by omega),
    List.getElem?_append_right (by rw [length_variadicKinds]; omega), length_variadicKinds]
  congr 1
  omega

theorem getElem?_element (h : ListsAt f pre es post) {q : Nat} (hq : q < 4 * es.length) :
    (f.values.map (·.kind))[pre.length + 1 + q]? =
      (elementKinds (UInt32.ofNat pre.length) (pre.length + 1) 0 es)[q]? := by
  rw [Nat.add_assoc, Nat.add_comm 1 q, h.getElem?_list (by omega), variadicKinds,
    List.getElem?_cons_succ, List.getElem?_append_left (by rwa [length_elementKinds])]

theorem kind?_slice (h : ListsAt f pre es post) {slice : ValueId}
    (hslice : slice.toNat = pre.length + 1 + 4 * es.length) :
    f.kind? slice = some (.slice (UInt32.ofNat pre.length)) := by
  have hposition : pre.length + 1 + 4 * es.length = pre.length + (4 * es.length + 1) := by omega
  rw [Function.kind?_eq_getElem?, hslice, hposition, h.getElem?_list (by omega), variadicKinds,
    List.getElem?_cons_succ, List.getElem?_append_right (Nat.le_of_eq (length_elementKinds ..)),
    length_elementKinds, Nat.sub_self]
  rfl

/-- The four values of an element: its position, its address, the element in its box, and the
store. -/
theorem kind?_element (h : ListsAt f pre es post) {j : Nat} {e : ValueId} (hj : es[j]? = some e) :
    f.kind? (UInt32.ofNat (pre.length + 1 + 4 * j)) = some (.const (.int (Int64.ofNat j))) ∧
      f.kind? (UInt32.ofNat (pre.length + 1 + 4 * j + 1)) =
        some (.indexAddr (UInt32.ofNat pre.length) (UInt32.ofNat (pre.length + 1 + 4 * j))) ∧
      f.kind? (UInt32.ofNat (pre.length + 1 + 4 * j + 2)) = some (.makeInterface e) ∧
      (f.values.map (·.kind))[pre.length + 1 + (4 * j + 3)]? =
        some (.store (UInt32.ofNat (pre.length + 1 + 4 * j + 1))
          (UInt32.ofNat (pre.length + 1 + 4 * j + 2))) := by
  have hlt : j < es.length := (List.getElem?_eq_some_iff.1 hj).1
  obtain ⟨h₀, h₁, h₂, h₃⟩ :=
    getElem?_elementKinds (UInt32.ofNat pre.length) (pre.length + 1) 0 es j
  rw [hj, Option.map_some] at h₀ h₁ h₂ h₃
  rw [Nat.zero_add] at h₀
  refine ⟨?_, ?_, ?_, ?_⟩
  · rw [Function.kind?_eq_getElem?, h.toNat_ofNat (by omega), h.getElem?_element (by omega), h₀]
  · rw [Function.kind?_eq_getElem?, h.toNat_ofNat (by omega), Nat.add_assoc _ (4 * j),
      h.getElem?_element (by omega), h₁]
  · rw [Function.kind?_eq_getElem?, h.toNat_ofNat (by omega), Nat.add_assoc _ (4 * j),
      h.getElem?_element (by omega), h₂]
  · rw [h.getElem?_element (by omega), h₃]

/-- A store into the array belongs to the list: earlier and later stores go elsewhere. -/
theorem store_mem (h : ListsAt f pre es post) {k : Nat} {addr index v : ValueId}
    (hk : (f.values.map (·.kind))[k]? = some (.store addr v))
    (haddr : f.kind? addr = some (.indexAddr (UInt32.ofNat pre.length) index)) :
    pre.length ≤ k ∧ k < pre.length + (4 * es.length + 2) := by
  have harray : (UInt32.ofNat pre.length).toNat = pre.length := h.toNat_ofNat (by omega)
  rw [Function.kind?_eq_getElem?] at haddr
  constructor
  · by_contra hlt
    rw [h.getElem?_before (by omega)] at hk
    have haddr' := h.before k _ addr hk rfl
    rw [h.getElem?_before (by omega)] at haddr
    have hbefore := h.before _ _ _ haddr rfl
    omega
  · by_contra hge
    obtain ⟨j, rfl⟩ := Nat.exists_eq_add_of_le (Nat.le_of_not_lt hge)
    rw [h.getElem?_after] at hk
    have haddr' := h.after j _ addr hk rfl
    obtain ⟨i, hi⟩ := Nat.exists_eq_add_of_le haddr'.1
    rw [hi, h.getElem?_after] at haddr
    have hafter := h.after _ _ _ haddr rfl
    omega

/-- The stores into the array are those of the list, one for each element. -/
theorem storesAt_iff (h : ListsAt f pre es post) {k : Nat} {i : Int} {v : ValueId} :
    f.StoresAt (UInt32.ofNat pre.length) k i v ↔
      ∃ j : Nat, j < es.length ∧ k = pre.length + 1 + (4 * j + 3) ∧ i = j ∧
        v = UInt32.ofNat (pre.length + 1 + 4 * j + 2) := by
  have hsize := h.size
  have index_eq {j : Nat} (hj : j < es.length) : (Int64.ofNat j).toInt = j :=
    Int64.toInt_ofNat_of_lt (by simp only [UInt32.size] at hsize; omega)
  rw [Function.storesAt_iff]
  constructor
  · intro ⟨addr, index, n, hk, haddr, hindex, hn⟩
    obtain ⟨hge, hlt⟩ := h.store_mem hk haddr
    obtain ⟨q, rfl⟩ := Nat.exists_eq_add_of_le hge
    rw [h.getElem?_list (by omega)] at hk
    rcases cases_variadicKinds hk with hkind | hkind | ⟨p, rfl, helement⟩
    · cases hkind
    · cases hkind
    · obtain ⟨j, e, he, hcases⟩ := cases_elementKinds helement
      have hj : j < es.length := (List.getElem?_eq_some_iff.1 he).1
      obtain ⟨hconst, hindexAddr, -, -⟩ := h.kind?_element he
      rcases hcases with ⟨-, hkind⟩ | ⟨-, hkind⟩ | ⟨-, hkind⟩ | ⟨rfl, hkind⟩
      · cases hkind
      · cases hkind
      · cases hkind
      · cases hkind
        cases hindexAddr.symm.trans haddr
        cases hconst.symm.trans hindex
        exact ⟨j, hj, by omega, by rw [← hn, index_eq hj], rfl⟩
  · intro ⟨j, hj, hk, hi, hv⟩
    obtain ⟨hconst, haddr, -, hstore⟩ := h.kind?_element (List.getElem?_eq_getElem hj)
    subst hk hv
    exact ⟨_, _, _, hstore, haddr, hconst, by rw [index_eq hj, hi]⟩

/-- The boxes of the elements. -/
def boxes (base : Nat) (es : List ValueId) : List ValueId :=
  (List.range es.length).map fun j => UInt32.ofNat (base + 1 + 4 * j + 2)

theorem hasElements (h : ListsAt f pre es post) :
    f.HasElements (UInt32.ofNat pre.length) (boxes pre.length es) where
  stored := by
    intro k i v hstores
    obtain ⟨j, hj, -, hi, hv⟩ := h.storesAt_iff.1 hstores
    exact ⟨j, hi, by simp [boxes, hj, hv]⟩
  once := by
    intro j hj
    rw [boxes, List.length_map, List.length_range] at hj
    refine ⟨pre.length + 1 + (4 * j + 3), ?_⟩
    intro k
    constructor
    · intro ⟨v, hstores⟩
      obtain ⟨i, -, hk, hi, -⟩ := h.storesAt_iff.1 hstores
      omega
    · intro hk
      exact ⟨_, h.storesAt_iff.2 ⟨j, hj, hk, rfl, rfl⟩⟩

theorem variadic?_eq (h : ListsAt f pre es post) {slice : ValueId}
    (hslice : slice.toNat = pre.length + 1 + 4 * es.length) :
    f.variadic? slice = some (boxes pre.length es) :=
  (Function.variadic?_slice_eq_some_iff (h.kind?_slice hslice)).2 h.hasElements

theorem unbox?_boxes (h : ListsAt f pre es post) :
    List.Forall₂ (fun x e => f.unbox? x = some e) (boxes pre.length es) es := by
  rw [List.forall₂_iff_get]
  refine ⟨by simp [boxes], ?_⟩
  intro j hj hj'
  obtain ⟨-, -, hbox, -⟩ := h.kind?_element (List.getElem?_eq_getElem hj')
  have hget : (boxes pre.length es).get ⟨j, hj⟩ = UInt32.ofNat (pre.length + 1 + 4 * j + 2) := by
    simp only [boxes, List.get_eq_getElem, List.getElem_map, List.getElem_range]
  rw [hget]
  exact Function.wraps_iff.1 (.inl hbox)

end ListsAt

end Elements

section Construction

open Draft

variable {d d' d₀ d₁ d₂ d₃ : Draft} {operands : List Operand} {ids : List ValueId}

theorem Draft.Extends.getElem?_eq (h : d.Extends d') {k : Nat} {kind : ValueKind}
    (hk : d.kinds[k]? = some kind) : d'.kinds[k]? = some kind := by
  obtain ⟨new, hkinds, -⟩ := h
  rw [hkinds, List.getElem?_append_left (List.getElem?_eq_some_iff.1 hk).1, hk]

theorem Draft.step_operand {o : Operand} {made : Option UInt32}
    (h : d.step o.step = .ok (d', made)) :
    ∃ id, made = some id ∧ d'.kinds[id.toNat]? = some (.const o.literal) := by
  cases o with
  | string | int =>
    obtain ⟨id, hresult, hmade⟩ := made_eq_ok h
    obtain ⟨hkinds, hid⟩ := addValue_eq_ok hresult
    exact ⟨id, hmade, by simp [hkinds, hid, Operand.literal]⟩

/-- Each step for an operand makes its constant. -/
theorem Draft.run_operands (h : d.run (operands.map Operand.step) = .ok (d', ids.map some)) :
    List.Forall₂ (fun o id => d'.kinds[UInt32.toNat id]? = some (.const (Operand.literal o)))
      operands ids := by
  induction operands generalizing d ids with
  | nil =>
    cases ids with
    | nil => exact .nil
    | cons id rest => cases h
  | cons o operands ih =>
    obtain ⟨d₁, made, more, hstep, hrun, hmade⟩ := run_cons_eq_ok h
    obtain ⟨id, rfl, hid⟩ := step_operand hstep
    cases ids with
    | nil => cases hmade
    | cons id' rest =>
      cases hmade
      exact .cons ((extends_run hrun).getElem?_eq hid) (ih hrun)

theorem Draft.run_call {es : List ValueId} {slice result : ValueId} {sprintf : FunctionId}
    {args : List ValueId} {line : UInt32} {after : List DraftStep} {made : List (Option UInt32)}
    (hlocal : Local 0 d₁.kinds)
    (hcall : d₁.run [.variadic es, .call sprintf args line] = .ok (d₂, [some slice, some result]))
    (hafter : d₂.run after = .ok (d₃, made)) :
    (∃ post, ListsAt d₃.function d₁.kinds es post) ∧
      slice.toNat = d₁.kinds.length + 1 + 4 * es.length ∧
      d₃.function.kind? result = some (.call ⟨.static sprintf, args⟩) := by
  obtain ⟨d, made₁, more, hvariadic, hrest, hmade⟩ := run_cons_eq_ok hcall
  cases hmade
  obtain ⟨d', made₂, more, hstep, hnil, hmade⟩ := run_cons_eq_ok hrest
  cases hmade
  cases hnil
  obtain ⟨id, hlist, hid⟩ := made_eq_ok hvariadic
  cases hid
  obtain ⟨id, hinstr, hid⟩ := made_eq_ok hstep
  cases hid
  obtain ⟨hkinds, hslice⟩ := addVariadic_eq_ok hlist
  obtain ⟨hkinds', hresult⟩ := addInstr_eq_ok hinstr
  have hlength : d.kinds.length = d₁.kinds.length + (4 * es.length + 2) := by
    rw [hkinds, List.length_append, ListsAt.length_variadicKinds]
  obtain ⟨post, hpost, hafter'⟩ := (extends_step hstep).trans (extends_run hafter)
  refine ⟨⟨post, ?_, hlocal, hlength ▸ hafter', hslice ▸ slice.toNat_lt⟩, hslice, ?_⟩
  · rw [← List.append_assoc, ← hkinds]
    exact hpost
  · rw [Function.kind?_eq_getElem?]
    apply (extends_run hafter).getElem?_eq
    simp [hkinds', hresult]

theorem Draft.Extends.local_kinds {f : Function} (hf : f.values = [])
    (h : (ofFunction f).Extends d) : Local 0 d.kinds := by
  have hempty : (ofFunction f).kinds = [] := by simp [kinds, ofFunction, hf]
  obtain ⟨new, hkinds, hlocal⟩ := h
  rw [hempty] at hkinds hlocal
  rw [hkinds]
  exact hlocal

end Construction

theorem Decimal.ofList_intText (n : Int) : String.ofList (Decimal.intText n) = toString n := by
  cases n with
  | ofNat m =>
    have hnonneg : ¬ Int.ofNat m < 0 := Int.not_lt.2 (Int.natCast_nonneg m)
    rw [Decimal.intText, if_neg hnonneg]
    rfl
  | negSucc m =>
    have htext : toString (Int.negSucc m) = "-" ++ String.ofList (Nat.toDigits 10 (m + 1)) := rfl
    rw [Decimal.intText, if_pos (Int.negSucc_lt_zero m), htext, ← String.toList_inj,
      String.toList_append]
    simp [Decimal.natText]

namespace Analysis

variable {a : Analysis} {frame : Frame} {n : Nat}

theorem textWithin_const {id : ValueId} {s : String}
    (hk : frame.function.kind? id = some (.const (.string s))) :
    a.textWithin (n + 1) frame id = .found s := by
  obtain ⟨v, hv, hkind⟩ := Function.kind?_eq_some_iff.1 hk
  rw [textWithin, textStep, hv, Search.ofOption_some, Search.found_bind, hkind]

theorem textWithin_int {id : ValueId} {i : Int64}
    (hk : frame.function.kind? id = some (.const (.int i))) :
    a.textWithin (n + 1) frame id = .unknown := by
  obtain ⟨v, hv, hkind⟩ := Function.kind?_eq_some_iff.1 hk
  rw [textWithin, textStep, hv, Search.ofOption_some, Search.found_bind, hkind]

/-- A box does not change the text of an operand. -/
theorem operandText_box {text : ValueId → Search String} {f : Function} {x e : ValueId}
    (hx : f.unbox? x = some e) (verb : Char) :
    operandText text f verb x = operandText text f verb e := by
  have hunder : f.underlying x = f.underlying e := by rw [Function.underlying, hx]
  rw [operandText, operandText, hunder]

theorem textWithin_formatter_call {format : String} {formatId slice result : ValueId}
    {sprintf : FunctionId} {callee : Function} {xs es : List ValueId}
    (hresult : frame.function.kind? result = some (.call ⟨.static sprintf, [formatId, slice]⟩))
    (hcallee : a.program.function? sprintf = some callee) (hsignature : callee.signature = formatter)
    (hsubstitutes : a.settings.substitutes.index? formatter = none)
    (hformat : frame.function.kind? formatId = some (.const (.string format)))
    (hlist : frame.function.variadic? slice = some xs)
    (hboxed : List.Forall₂ (fun x e => frame.function.unbox? x = some e) xs es) :
    a.textWithin (n + 2) frame result = do
      return String.ofList (← expandFormat (operandText (a.textWithin (n + 1) frame) frame.function)
        format.toList es) := by
  obtain ⟨v, hv, hkind⟩ := Function.kind?_eq_some_iff.1 hresult
  rw [textWithin, textStep, hv, Search.ofOption_some, Search.found_bind, hkind]
  simp only [callText, hcallee, hsignature, hsubstitutes, Search.ofOption_some, Search.found_bind,
    if_true]
  rw [formatText_eq]
  simp only [operands?, List.getElem?_cons_zero, List.getElem?_cons_succ, Search.ofOption_some,
    Search.found_bind, textWithin_const hformat, hlist]
  rw [expandFormat_congr (hboxed.imp fun _ _ hx => operandText_box hx)]

theorem unboxes_const {f : Function} {id : ValueId} {literal : Literal}
    (hid : f.kind? id = some (.const literal)) : f.Unboxes id id := by
  apply Function.Unboxes.self
  rw [Function.unbox?_eq_none_iff]
  intro y hwraps
  rw [Function.Wraps, hid] at hwraps
  rcases hwraps with heq | heq <;> cases heq

/-- A constant is written out for the verb that goes with it. -/
theorem operandText_const {o : Operand} {id : ValueId}
    (hid : frame.function.kind? id = some (.const o.literal)) :
    operandText (a.textWithin (n + 1) frame) frame.function o.verb id = .found o.text := by
  cases o with
  | string s =>
    rw [Operand.verb, operandText_inner (unboxes_const hid) (fun heq => absurd heq (by decide))]
    exact textWithin_const hid
  | int i =>
    rw [Operand.verb, operandText_int (unboxes_const hid) hid, Decimal.ofList_intText]
    rfl

/-- Constants are read without trouble, whatever the verb. -/
theorem operandText_const_ne_endless {operands : List Operand} {ids : List ValueId} {id : ValueId}
    (hids : List.Forall₂ (fun o id => frame.function.kind? id = some (.const (Operand.literal o)))
      operands ids) (hmem : id ∈ ids) (verb : Char) :
    operandText (a.textWithin (n + 1) frame) frame.function verb id ≠ .endless := by
  obtain ⟨i, hi, rfl⟩ := List.getElem_of_mem hmem
  obtain ⟨hlength, hget⟩ := List.forall₂_iff_get.1 hids
  have hid := hget i (hlength ▸ hi) hi
  generalize operands.get ⟨i, hlength ▸ hi⟩ = o at hid
  rw [List.get_eq_getElem] at hid
  rw [operandText, Function.underlying_eq_some_iff.2 (unboxes_const hid)]
  have htext : a.textWithin (n + 1) frame ids[i] ≠ .endless := by
    cases o with
    | string s => simp [textWithin_const hid]
    | int i => simp [textWithin_int hid]
  dsimp only
  split
  · split
    · simp
    · exact htext
  · exact htext

theorem underlying_boxed {f : Function} {operands : List Operand} {xs ids : List ValueId}
    (hids : List.Forall₂ (fun o id => f.kind? id = some (.const (Operand.literal o))) operands ids)
    (hxs : List.Forall₂ (fun x id => f.unbox? x = some id) xs ids) :
    xs.map f.underlying = ids.map some := by
  induction hids generalizing xs with
  | nil =>
    cases hxs
    rfl
  | cons hid _ ih =>
    cases hxs with
    | cons hx hrest =>
      rw [List.map_cons, List.map_cons, ih hrest,
        Function.underlying_eq_some_iff.2 (.step hx (unboxes_const hid))]

/-- A function is built, among other steps, from constants for a format and its operands, a list of
these operands and of others behind them, and a call of the formatter. The list is read back as it
was built, each operand in a box around its constant. The text of the call is that of the pieces that
the format and the operands are made of. If the format has stray percent signs or asks for more
operands than the list has there is none; only another operand that is read, and that is searched for
without an end, can keep the search from saying so. -/
theorem resolve_formatted (a : Analysis) (frame : Frame) {f : Function} (hf : f.values = [])
    {before after : List DraftStep} {made made' : List (Option UInt32)} {d₀ d₁ d₂ d₃ : Draft}
    {format : String} {operands : List Operand} {formatId slice result : ValueId}
    {ids surplus : List ValueId} {sprintf : FunctionId} {line : UInt32} {callee : Function}
    (hbefore : (Draft.ofFunction f).run before = .ok (d₀, made))
    (hconstants : d₀.run (.constStr format :: operands.map Operand.step) =
      .ok (d₁, some formatId :: ids.map some))
    (hcall : d₁.run [.variadic (ids ++ surplus), .call sprintf [formatId, slice] line] =
      .ok (d₂, [some slice, some result]))
    (hafter : d₂.run after = .ok (d₃, made'))
    (hframe : frame.function = d₃.function)
    (hcallee : a.program.function? sprintf = some callee) (hsignature : callee.signature = formatter)
    (hsubstitutes : a.settings.substitutes.index? formatter = none) :
    (∀ pieces, format = Piece.formats pieces → operands = Piece.operands pieces →
      a.resolve frame result = .found (Piece.texts pieces)) ∧
    ((ids ++ surplus).length < verbCount format.toList ∨ hasStray format.toList = true →
      a.resolve frame result = .unknown ∨ a.resolve frame result = .endless ∧
        ∃ p ∈ ((verbs format.toList).drop ids.length).zip surplus,
          operandText (a.textWithin 32 frame) frame.function p.1 p.2 = .endless) ∧
    ∃ boxed others, frame.function.variadic? slice = some (boxed ++ others) ∧
      boxed.map frame.function.underlying = ids.map some ∧ others.length = surplus.length := by
  have hstart := (Draft.extends_run hbefore).trans (Draft.extends_run hconstants)
  obtain ⟨⟨post, hlists⟩, hslice, hresult⟩ := Draft.run_call (hstart.local_kinds hf) hcall hafter
  rw [← hframe] at hlists hresult
  -- the constants are still there when the function is finished
  have hend := (Draft.extends_run hcall).trans (Draft.extends_run hafter)
  have hconsts : List.Forall₂
      (fun o id => frame.function.kind? id = some (.const (Operand.literal o)))
      (.string format :: operands) (formatId :: ids) := by
    apply List.Forall₂.imp _ (Draft.run_operands hconstants)
    intro o id hid
    rw [Function.kind?_eq_getElem?, hframe]
    exact hend.getElem?_eq hid
  cases hconsts with
  | cons hformat hids =>
    have hlist := hlists.variadic?_eq hslice
    have hboxed := List.forall₂_take_append _ ids surplus hlists.unbox?_boxes
    have hothers := List.forall₂_drop_append _ ids surplus hlists.unbox?_boxes
    have htext : a.resolve frame result = _ := textWithin_formatter_call hresult hcallee hsignature
      hsubstitutes hformat hlist hlists.unbox?_boxes
    rw [← List.take_append_drop ids.length (ListsAt.boxes _ _)] at hlist
    refine ⟨?_, ?_, _, _, hlist, underlying_boxed hids hboxed, hothers.length_eq⟩
    · intro pieces hpieces hoperands
      subst hpieces hoperands
      have htexts := hids.imp fun _ _ hid => operandText_const (a := a) (n := 31) hid
      rw [htext, expandFormat_pieces _ htexts, Search.found_bind, String.ofList_toList]
      rfl
    · intro hbad
      rw [htext]
      refine Search.bind_of_unanswered ((expandFormat_of_bad hbad).imp_right ?_) _
      rintro ⟨hendless, p, hp, hoperand⟩
      refine ⟨hendless, p, (mem_zip_append hp).resolve_left ?_, hoperand⟩
      intro hmem
      exact operandText_const_ne_endless hids hmem p.1 hoperand

/-- The location `http://orders%s:8080/100%`, with an operand that looks like a format. -/
def location : List Piece :=
  [.literal "http://", .operand (.string "orders%s"), .literal ":", .operand (.int 8080),
    .literal "/100%"]

def formatterOnly : Analysis where
  program := ⟨[.declared 0 "fmt" "fmt" "Sprintf"], [], .empty⟩
  settings := .default
  service := "a"

/-- The location is formatted after another list of arguments was made, with an operand too many. -/
def locationSteps : List DraftStep :=
  [.constStr "x", .variadic [0]] ++
    (.constStr (Piece.formats location) :: (Piece.operands location).map Operand.step ++
      ([.variadic [8, 9, 0], .call 0 [7, 23] 5] ++ [.ret]))

theorem location_formatted : ∃ d,
    (Draft.ofFunction (.declared 1 "main" "main" "main")).run locationSteps =
      .ok (d, [some 0, some 6, some 7, some 8, some 9, some 23, some 24, none]) ∧
    formatterOnly.resolve (.entry d.function) 24 = .found (Piece.texts location) := by
  have hbuilt : ∃ d, (Draft.ofFunction (.declared 1 "main" "main" "main")).run locationSteps =
      .ok (d, [some 0, some 6, some 7, some 8, some 9, some 23, some 24, none]) := ⟨_, rfl⟩
  obtain ⟨d, hrun⟩ := hbuilt
  obtain ⟨d₀, hbefore, hrest⟩ := Draft.run_append_eq_ok hrun
  obtain ⟨d₁, hconstants, hrest⟩ := Draft.run_append_eq_ok hrest
  obtain ⟨d₂, hcall, hafter⟩ := Draft.run_append_eq_ok hrest
  have hids : d₀.run (.constStr (Piece.formats location) ::
      (Piece.operands location).map Operand.step) = .ok (d₁, some 7 :: [8, 9].map some) := hconstants
  have hlist : d₁.run [.variadic ([8, 9] ++ [0]), .call 0 [7, 23] 5] =
      .ok (d₂, [some 23, some 24]) := hcall
  have hformatted := resolve_formatted formatterOnly (.entry d.function) rfl hbefore hids hlist
    hafter rfl rfl rfl rfl
  exact ⟨d, hrun, hformatted.1 location rfl rfl⟩

end Analysis

end ServiceGraph
