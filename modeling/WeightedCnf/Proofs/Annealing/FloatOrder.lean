import Mathlib
import WeightedCnf.Proofs.Annealing.Best

namespace WeightedCnf.Annealing
open Float.Model (UnpackedFloat totalExponent)
open Float.Model.Format (binary64)
open Float.Model.UnpackedFloat (packComponents)

-- What a number is compared by: its kind with its sign, then its exponent, then its mantissa.
def rank? : UnpackedFloat → Option (Int × Int × Int)
  | .notANumber => none
  | .infinity .negative => some (-2, 0, 0)
  | .finite .negative mantissa exponent _ => some (-1, -exponent, -mantissa)
  | .zero _ => some (0, 0, 0)
  | .finite .positive mantissa exponent _ => some (1, exponent, mantissa)
  | .infinity .positive => some (2, 0, 0)

def compareRanks (a b : Int × Int × Int) : Ordering :=
  (compare a.1 b.1).then ((compare a.2.1 b.2.1).then (compare a.2.2 b.2.2))

theorem compare_eq_compareRanks (x y : UnpackedFloat) :
    x.compare y = (rank? x).bind fun a => (rank? y).map (compareRanks a) := by
  rcases x with (_ | _) | _ | _ | ⟨_ | _, m, e, _⟩ <;>
    rcases y with (_ | _) | _ | _ | ⟨_ | _, n, d, _⟩ <;> try rfl
  · simp [UnpackedFloat.compare, rank?, compareRanks, compare_neg, compare_natCast, Ordering.swap_then]
  · simp [UnpackedFloat.compare, rank?, compareRanks, compare_natCast]

theorem compareRanks_eq_lt_iff {a b : Int × Int × Int} :
    compareRanks a b = .lt ↔
      a.1 < b.1 ∨ a.1 = b.1 ∧ (a.2.1 < b.2.1 ∨ a.2.1 = b.2.1 ∧ a.2.2 < b.2.2) := by
  simp only [compareRanks, Ordering.then_eq_lt, Int.compare_eq_lt, Int.compare_eq_eq]

theorem compareRanks_eq_eq_iff {a b : Int × Int × Int} : compareRanks a b = .eq ↔ a = b := by
  simp only [compareRanks, Ordering.then_eq_eq, Int.compare_eq_eq]
  constructor
  · rintro ⟨first, second, third⟩
    exact Prod.ext first (Prod.ext second third)
  · rintro rfl
    exact ⟨rfl, rfl, rfl⟩

theorem lt_iff_ranks {x y : Float} :
    x < y ↔ ∃ a b, rank? x.toModel.unpack = some a ∧ rank? y.toModel.unpack = some b ∧
      compareRanks a b = .lt := by
  change Float.lt x y = true ↔ _
  unfold Float.lt
  rw [decide_eq_true_iff]
  change (x.toModel.unpack.compare y.toModel.unpack == some Ordering.lt) = true ↔ _
  rw [beq_iff_eq, compare_eq_compareRanks]
  simp only [Option.bind_eq_some_iff, Option.map_eq_some_iff]
  constructor
  · rintro ⟨a, left, b, right, less⟩
    exact ⟨a, b, left, right, less⟩
  · rintro ⟨a, b, left, right, less⟩
    exact ⟨a, left, b, right, less⟩

theorem beq_iff_ranks {x y : Float} :
    (x == y) = true ↔ ∃ a, rank? x.toModel.unpack = some a ∧ rank? y.toModel.unpack = some a := by
  change (x.toModel.unpack.compare y.toModel.unpack == some Ordering.eq) = true ↔ _
  rw [beq_iff_eq, compare_eq_compareRanks]
  simp only [Option.bind_eq_some_iff, Option.map_eq_some_iff, compareRanks_eq_eq_iff]
  constructor
  · rintro ⟨a, left, b, right, rfl⟩
    exact ⟨a, left, right⟩
  · rintro ⟨a, left, right⟩
    exact ⟨a, left, a, right, rfl⟩

theorem float_lt_irrefl (x : Float) : ¬ x < x := by
  rw [lt_iff_ranks]
  rintro ⟨a, b, known, same, less⟩
  rw [known, Option.some.injEq] at same
  subst same
  rw [compareRanks_eq_lt_iff] at less
  omega

theorem float_lt_trans {x y z : Float} (first : x < y) (second : y < z) : x < z := by
  rw [lt_iff_ranks] at *
  obtain ⟨a, b, low, middle, less⟩ := first
  obtain ⟨c, d, same, high, more⟩ := second
  rw [middle, Option.some.injEq] at same
  subst same
  rw [compareRanks_eq_lt_iff] at less more
  exact ⟨a, d, low, high, compareRanks_eq_lt_iff.mpr (by omega)⟩

theorem float_lt_of_lt_of_beq {x y z : Float} (less : x < y) (equal : (z == y) = true) : x < z := by
  obtain ⟨b, same, middle⟩ := beq_iff_ranks.mp equal
  obtain ⟨a, c, low, high, ordered⟩ := lt_iff_ranks.mp less
  rw [middle, Option.some.injEq] at high
  subst high
  exact lt_iff_ranks.mpr ⟨a, b, low, same, ordered⟩

theorem unpack_minusInfinity : (-(1.0 / 0.0) : Float).toModel.unpack = .infinity .negative := by rfl

theorem nothing_lt_iff {S : Type} {x : Float} :
    (Best.nothing : Best S).score < x ↔
      x.isNaN = false ∧ (x == (Best.nothing : Best S).score) = false := by
  have least : (Best.nothing : Best S).score.toModel.unpack = .infinity .negative := unpack_minusInfinity
  rw [lt_iff_ranks, ← Bool.not_eq_true (x == _), beq_iff_ranks, least]
  change _ ↔ x.toModel.unpack.isNaN = false ∧ _
  rcases x.toModel.unpack with (_ | _) | _ | _ | ⟨_ | _, m, e, _⟩ <;>
    simp [rank?, UnpackedFloat.isNaN, compareRanks_eq_lt_iff]

def mantissaOf (n : Nat) : Nat := n <<< (52 - n.log2)

theorem log2_mantissaOf {n : Nat} (nonzero : n ≠ 0) (digits : n.log2 ≤ 52) : (mantissaOf n).log2 = 52 := by
  rw [mantissaOf, log2_shiftLeft nonzero]
  omega

theorem shiftToTarget_exact {m : Nat} (full : m.log2 = 52) {e : Int} (low : -1074 ≤ e) :
    UnpackedFloat.shiftToTargetExponent binary64 m e .exact = (⟨m, false, false⟩, e) := by
  have target : binary64.targetExponent (totalExponent m e) = e := by
    simp only [Float.Model.Format.targetExponent, totalExponent, full, Float.Model.Format.minExponent,
      Float.Model.Format.mantissaBits]
    omega
  simp only [UnpackedFloat.shiftToTargetExponent, target, UnpackedFloat.shiftToExponent, Int.sub_self]
  exact congrArg (Prod.mk _) (Int.add_zero e)

theorem roundWithAccuracy_exact {m : Nat} (full : m.log2 = 52) (positive : 0 < m) {e : Int} (low : -1074 ≤ e) :
    UnpackedFloat.roundWithAccuracy binary64 .positive m e .exact = .finite .positive m e positive := by
  have settled := shiftToTarget_exact full low
  simp only [UnpackedFloat.roundWithAccuracy, settled]
  have rounded : (⟨m, false, false⟩ : UnpackedFloat.ExtendedMantissa).roundedMantissa = m := rfl
  simp only [rounded, settled]
  exact dif_neg (Nat.ne_of_gt positive)

theorem ofNat_exact {n : Nat} (nonzero : n ≠ 0) (digits : n.log2 ≤ 52) :
    ∃ positive, UnpackedFloat.ofNat binary64 n =
      .finite .positive (mantissaOf n) (n.log2 - 52 : Int) positive := by
  have full := log2_mantissaOf nonzero digits
  have positive : 0 < mantissaOf n := by
    apply Nat.pos_of_ne_zero
    intro zero
    rw [zero] at full
    cases full
  refine ⟨positive, ?_⟩
  have greater : compare (n : Int) 0 = .gt := Int.compare_eq_gt.mpr (by omega)
  have target : binary64.targetExponent (totalExponent n 0) = (n.log2 - 52 : Int) := by
    simp only [Float.Model.Format.targetExponent, totalExponent, Float.Model.Format.minExponent,
      Float.Model.Format.mantissaBits]
    omega
  have shift : (0 - (n.log2 - 52 : Int)).toNat = 52 - n.log2 := by omega
  have reached : (0 - ((52 - n.log2 : Nat) : Int)) = (n.log2 - 52 : Int) := by omega
  simp only [UnpackedFloat.ofNat, UnpackedFloat.ofInt, UnpackedFloat.normalize, greater,
    UnpackedFloat.round, Int.toNat_natCast, target, UnpackedFloat.decreaseExponent, shift, reached]
  exact roundWithAccuracy_exact full positive (by omega)

theorem pack_exact (biased : Nat) {m : Nat} (positive : 0 < m) (full : m.log2 = 52) (room : biased < 2047) :
    UnpackedFloat.pack binary64 (.finite .positive m (biased - 1075) positive) =
      packComponents binary64 .positive (BitVec.ofNat 11 biased) (BitVec.ofNat 52 m) := by
  have bias : ((biased - 1075 : Int) + binary64.exponentBias +
      binary64.mantissaBitsWithoutImplicit).toNat = biased := by
    change ((biased - 1075 : Int) + (1023 : Nat) + (52 : Nat)).toNat = biased
    omega
  have fits : ¬ 2 ^ binary64.exponentBits ≤ biased + 1 := by
    change ¬ 2048 ≤ biased + 1
    omega
  simp only [UnpackedFloat.pack, bias, full, fits, if_false]
  rfl

theorem implicit_digit {m : Nat} (full : m.log2 = 52) : (1#1 ++ BitVec.ofNat 52 m).toNat = m := by
  have nonzero : m ≠ 0 := by
    rintro rfl
    cases full
  have least : 2 ^ 52 ≤ m := (Nat.le_log2 nonzero).mp (Nat.le_of_eq full.symm)
  have limit : m < 2 ^ 53 := (Nat.log2_lt nonzero).mp (by omega)
  rw [BitVec.toNat_append, ← Nat.shiftLeft_add_eq_or_of_lt (BitVec.ofNat 52 m).isLt,
    BitVec.toNat_ofNat, Nat.shiftLeft_eq]
  change 1 * 2 ^ 52 + m % 2 ^ 52 = m
  omega

theorem unpack_exact (biased : Nat) {m : Nat} (positive : 0 < m) (full : m.log2 = 52)
    (normal : 0 < biased) (room : biased < 2047) :
    UnpackedFloat.unpack binary64
      (packComponents binary64 .positive (BitVec.ofNat 11 biased) (BitVec.ofNat 52 m)) =
      .finite .positive m (biased - 1075) positive := by
  have field : (BitVec.ofNat 11 biased).toNat = biased := by
    rw [BitVec.toNat_ofNat]
    omega
  have notLast : BitVec.ofNat 11 biased ≠ -1#11 := by
    intro equal
    rw [equal] at field
    change 2047 = biased at field
    omega
  have notFirst : BitVec.ofNat 11 biased ≠ 0#11 := by
    intro equal
    rw [equal] at field
    change 0 = biased at field
    omega
  unfold UnpackedFloat.unpack
  simp only [UnpackedFloat.unpackExponent_packComponents, UnpackedFloat.unpackMantissa_packComponents,
    UnpackedFloat.unpackSign_packComponents, notLast, notFirst, if_false, implicit_digit full, field]
  rfl

-- The mantissa has all 53 digits of the number, and the exponent says how many of them it has.
theorem rank_toFloat {n : Nat} (nonzero : n ≠ 0) (small : n < 9007199254740992) :
    rank? n.toUInt64.toFloat.toModel.unpack = some (1, (n.log2 - 52 : Int), (mantissaOf n : Int)) := by
  have digits : n.log2 ≤ 52 := Nat.le_of_lt_succ ((Nat.log2_lt nonzero).mpr small)
  have word : n.toUInt64.toNat = n := by
    apply Nat.mod_eq_of_lt
    omega
  have full := log2_mantissaOf nonzero digits
  obtain ⟨positive, made⟩ := ofNat_exact nonzero digits
  have biased : ((n.log2 + 1023 : Nat) - 1075 : Int) = (n.log2 - 52 : Int) := by omega
  have packed := pack_exact (n.log2 + 1023) positive full (by omega)
  have unpacked := unpack_exact (n.log2 + 1023) positive full (by omega) (by omega)
  rw [biased] at packed unpacked
  change rank? (UnpackedFloat.unpack binary64
    (UnpackedFloat.pack binary64 (UnpackedFloat.ofNat binary64 n.toUInt64.toNat))) = _
  rw [word, made, packed, unpacked]
  rfl

theorem mantissaOf_lt {m n : Nat} (same : m.log2 = n.log2) (less : m < n) : mantissaOf m < mantissaOf n := by
  rw [mantissaOf, mantissaOf, same, Nat.shiftLeft_eq, Nat.shiftLeft_eq]
  exact Nat.mul_lt_mul_of_pos_right less (Nat.two_pow_pos _)

theorem toFloat_lt_of_lt {m n : Nat} (less : m < n) (small : n < 9007199254740992) :
    m.toUInt64.toFloat < n.toUInt64.toFloat := by
  have above := rank_toFloat (Nat.ne_of_gt (Nat.zero_lt_of_lt less)) small
  rw [lt_iff_ranks]
  by_cases zero : m = 0
  · subst zero
    exact ⟨(0, 0, 0), _, rfl, above, compareRanks_eq_lt_iff.mpr (.inl Int.zero_lt_one)⟩
  · refine ⟨_, _, rank_toFloat zero (by omega), above, compareRanks_eq_lt_iff.mpr (.inr ⟨rfl, ?_⟩)⟩
    have ordered : m.log2 ≤ n.log2 := by
      rw [Nat.log2_eq_log_two, Nat.log2_eq_log_two]
      exact Nat.log_mono_right (Nat.le_of_lt less)
    rcases Nat.lt_or_eq_of_le ordered with lower | same
    · left
      change (m.log2 - 52 : Int) < (n.log2 - 52 : Int)
      omega
    · right
      have mantissas := mantissaOf_lt same less
      change (m.log2 - 52 : Int) = (n.log2 - 52 : Int) ∧ (mantissaOf m : Int) < (mantissaOf n : Int)
      omega

end WeightedCnf.Annealing
