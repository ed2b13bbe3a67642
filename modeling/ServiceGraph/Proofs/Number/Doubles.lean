import Mathlib.Algebra.Group.Nat.Defs
import ServiceGraph.Proofs.Json.Reading

namespace ServiceGraph

namespace Binary64

theorem Ratio.round_le (r : Ratio) : r.round ≤ r.num + 1 := by
  have quotient : r.num / r.den ≤ r.num := Nat.div_le_self _ _
  unfold Ratio.round
  dsimp only
  split_ifs <;> omega

theorem Ratio.num_scale_le (r : Ratio) {e : Int} {n : Nat} (he : e ≤ n) :
    (r.scale 2 e).num ≤ r.num * 2 ^ n := by
  cases e with
  | ofNat k =>
    have exponent : k ≤ n := by
      rw [Int.ofNat_eq_natCast] at he
      omega
    exact Nat.mul_le_mul_left _ (Nat.pow_le_pow_right (by decide) exponent)
  | negSucc k => exact Nat.le_mul_of_pos_right _ (Nat.two_pow_pos n)

theorem Ratio.log_lt {r : Ratio} {n : Nat} (hn : 0 < n) (h : r.num < 2 ^ n) : r.log 2 < n := by
  have num : (Nat.toDigits 2 r.num).length ≤ n := (Nat.length_toDigits_le_iff (by decide) hn).2 h
  have den : 0 < (Nat.toDigits 2 r.den).length := Nat.length_toDigits_pos
  unfold Ratio.log
  dsimp only
  split_ifs <;> omega

theorem Ratio.neg_one_le_log_natural (n : Nat) : -1 ≤ Ratio.log 2 ⟨n, 1⟩ := by
  have num : 0 < (Nat.toDigits 2 n).length := Nat.length_toDigits_pos
  have den : (Nat.toDigits 2 1).length = 1 := by decide
  unfold Ratio.log
  dsimp only
  split_ifs <;> omega

theorem isSome_nearest? (negative : Bool) {r : Ratio} (h : r.num < 2 ^ 200) :
    (nearest? negative r).isSome := by
  have log := Ratio.log_lt (by decide) h
  unfold nearest? leastExponent greatestExponent
  dsimp only
  split_ifs <;> simp <;> omega

/-- The double nearest to a natural number of 64 bits is not much larger than the number. -/
theorem num_value_nearest?_lt {negative : Bool} {n : Nat} {x : Binary64} (hn : n < 2 ^ 64)
    (h : nearest? negative ⟨n, 1⟩ = some x) : x.value.num < 2 ^ 140 := by
  have above : Ratio.log 2 ⟨n, 1⟩ < (64 : Nat) := Ratio.log_lt (by decide) hn
  have below := Ratio.neg_one_le_log_natural n
  -- the exponent lies between -53 and 12, so scaling by it adds at most 53 binary digits
  have bounds : x.mantissa ≤ n * 2 ^ 53 + 1 ∧ x.exponent ≤ (12 : Nat) := by
    unfold nearest? leastExponent greatestExponent at h
    dsimp only at h
    split_ifs at h with hzero hcarry hlarge hlarge
    · cases h
      simp [zero, leastExponent]
    all_goals
      cases h
      have mantissa := (Ratio.round_le _).trans
        (Nat.succ_le_succ (Ratio.num_scale_le ⟨n, 1⟩ (e := -max (-1074) (Ratio.log 2 ⟨n, 1⟩ - 52))
          (n := 53) (by omega)))
      dsimp only at mantissa ⊢
      constructor
      · simp only [Nat.pow_eq] at *
        omega
      · omega
  calc x.value.num ≤ x.mantissa * 2 ^ 12 := Ratio.num_scale_le ⟨x.mantissa, 1⟩ bounds.2
    _ < 2 ^ 140 := by omega

theorem scaleTen?_zero (x : Binary64) :
    x.scaleTen? 0 = nearest? x.negative (x.value.mul (tenPower 0)) := by
  change x.scaleTen? (.ofNat 0) = _
  rw [scaleTen?, if_pos (Nat.zero_le _)]

end Binary64

namespace Numeral

theorem le_foldl_digits (n : Nat) (ds : List Char) :
    n ≤ ds.foldl (fun n c => 10 * n + digitValue c) n := by
  induction ds generalizing n with
  | nil => exact le_rfl
  | cons d ds ih =>
    have step := ih (10 * n + digitValue d)
    rw [List.foldl_cons]
    omega

/-- Digits are all taken if their value is small enough. -/
theorem absorb_eq {n : Nat} {ds : List Char}
    (h : ds.foldl (fun n c => 10 * n + digitValue c) n < UInt64.size) :
    absorb n ds = (ds.foldl (fun n c => 10 * n + digitValue c) n, []) := by
  induction ds generalizing n with
  | nil => rfl
  | cons d ds ih =>
    have small : 10 * n + digitValue d < UInt64.size := (le_foldl_digits _ ds).trans_lt h
    rw [absorb, if_pos small, ih h]
    rfl

theorem significand_ofInt {n : Int} (h : n.natAbs < UInt64.size) :
    (ofInt n).significand = (n.natAbs, 0) := by
  have value : (Decimal.natText n.natAbs).foldl (fun n c => 10 * n + digitValue c) 0 = n.natAbs :=
    Json.digitsValue_natText n.natAbs
  have taken : absorb 0 (Decimal.natText n.natAbs) = (n.natAbs, []) := by
    rw [absorb_eq (by rwa [value]), value]
  simp [significand, ofInt, taken, absorb]

theorem toBinary64?_of_significand {x : Numeral} {n : Nat} {power : Int}
    (h : x.significand = (n, power)) :
    x.toBinary64? = (Binary64.nearest? x.negative ⟨n, 1⟩).bind (·.scaleTen? power) := by
  rw [toBinary64?, h]
  rfl

theorem isSome_toBinary64?_ofInt {n : Int} (h : n.natAbs < UInt64.size) :
    (ofInt n).toBinary64?.isSome := by
  have small : n.natAbs < 2 ^ 200 := h.trans (by decide)
  obtain ⟨x, hx⟩ := Option.isSome_iff_exists.1
    (Binary64.isSome_nearest? (ofInt n).negative (r := ⟨n.natAbs, 1⟩) small)
  have unit : (Binary64.tenPower 0).num = 2 ^ 52 := by decide
  have product : (x.value.mul (Binary64.tenPower 0)).num < 2 ^ 200 := by
    have bound : x.value.num < 2 ^ 140 := Binary64.num_value_nearest?_lt h hx
    have num : (x.value.mul (Binary64.tenPower 0)).num = x.value.num * 2 ^ 52 :=
      congrArg (x.value.num * ·) unit
    rw [num]
    omega
  rw [toBinary64?_of_significand (significand_ofInt h), hx, Option.bind_some,
    Binary64.scaleTen?_zero]
  exact Binary64.isSome_nearest? _ product

end Numeral

end ServiceGraph
