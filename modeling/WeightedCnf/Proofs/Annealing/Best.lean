import WeightedCnf.Annealing.Run
import WeightedCnf.Proofs.Basic

namespace WeightedCnf.Annealing
open Float.Model (UnpackedFloat)
open Float.Model.Format (binary64)
open Float.Model.UnpackedFloat (packComponents packedInfinity)

def IsAbove : UnpackedFloat → Prop
  | .notANumber => False
  | .infinity sign => sign = .positive
  | .zero _ => True
  | .finite .. => True

def IsNatural : UnpackedFloat → Prop
  | .zero _ => True
  | .finite sign .. => sign = .positive
  | _ => False

theorem lt_of_isAbove {x : UnpackedFloat} (above : IsAbove x) :
    (UnpackedFloat.infinity .negative).lt x = true := by
  cases x with
  | notANumber => cases above
  | infinity sign =>
    cases above
    rfl
  | zero sign => rfl
  | finite sign mantissa exponent positive => rfl

theorem isAbove_packComponents (sign : UnpackedFloat.Sign) {exponent : BitVec 11}
    (finite : exponent ≠ -1#11) (mantissa : BitVec 52) :
    IsAbove (UnpackedFloat.unpack binary64 (packComponents binary64 sign exponent mantissa)) := by
  unfold UnpackedFloat.unpack
  rw [UnpackedFloat.unpackExponent_packComponents]
  extract_lets
  rw [if_neg finite]
  refine iteInduction (motive := IsAbove) (fun _ => ?_) fun _ => trivial
  exact diteInduction (motive := IsAbove) (fun _ => trivial) fun _ => trivial

-- A natural number may be too large for the format; it is then plus infinity.
theorem isAbove_unpack_pack {x : UnpackedFloat} (natural : IsNatural x) :
    IsAbove (UnpackedFloat.unpack binary64 (UnpackedFloat.pack binary64 x)) := by
  have small : (0 : BitVec 11) ≠ -1#11 := by decide
  fun_cases UnpackedFloat.pack binary64 x with
  | case1 => cases natural
  | case2 => cases natural
  | case3 sign => exact isAbove_packComponents sign small 0
  | case4 sign mantissa exponent =>
    cases natural
    have infinite : UnpackedFloat.unpack binary64 (packedInfinity binary64 .positive) =
        .infinity .positive := by rfl
    rw [infinite]
    rfl
  | case5 sign mantissa exponent positive bits biased fits =>
    apply isAbove_packComponents
    intro equal
    have word : biased % 2048 = 2047 := by simpa using congrArg BitVec.toNat equal
    have room : biased < 2047 := by simpa using fits
    omega
  | case6 sign mantissa => exact isAbove_packComponents sign small _

theorem isNatural_ofNat (n : Nat) : IsNatural (UnpackedFloat.ofNat binary64 n) := by
  unfold UnpackedFloat.ofNat UnpackedFloat.ofInt UnpackedFloat.normalize
  split
  · rename_i negative
    rw [Int.compare_eq_lt] at negative
    omega
  · trivial
  · unfold UnpackedFloat.round UnpackedFloat.roundWithAccuracy
    exact diteInduction (motive := IsNatural) (fun _ => trivial) fun _ => rfl

theorem nothing_lt_toFloat {S : Type} (n : UInt64) : (Best.nothing : Best S).score < n.toFloat := by
  have least : (-(1.0 / 0.0) : Float).toModel.unpack = .infinity .negative := by rfl
  have above := lt_of_isAbove (isAbove_unpack_pack (isNatural_ofNat n.toNat))
  rw [← least] at above
  change Float.lt _ _ = true
  unfold Float.lt
  rw [decide_eq_true_iff]
  exact above

end WeightedCnf.Annealing
