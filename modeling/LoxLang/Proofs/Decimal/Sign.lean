import LoxLang.Token.Scan
import Mathlib

/-!
# Numbers read from digits have no sign

The digits of a literal are read as a whole number that is scaled by a power of ten.  Neither the rounding
nor the division at the end can set the sign bit (`signBit_ofScientific`), so the exact reading of such a
number is not negative (`negative_eq`).
-/

namespace LoxLang

open Float.Model
open Float.Model.UnpackedFloat (Sign)

namespace Decimal

/-- The number has no minus sign. -/
def Unsigned : UnpackedFloat → Prop
  | .notANumber => True
  | .infinity s | .zero s | .finite s _ _ _ => s = .positive

/-- The sign bit of a double. -/
def signBit (x : Float) : Bool := x.toBits.toBitVec.getLsbD 63

/-- The exact reading takes the sign from the sign bit. -/
theorem negative_eq {x : Float} {v : Finite} (hx : Binary.ofFloat x = .finite v) :
    v.negative = signBit x := by
  have hbit : signBit x = (x.toBits.toNat / Nat.pow 2 63 % 2 == 1) := by
    rw [signBit, BitVec.getLsbD, Nat.testBit_eq_decide_div_mod_eq]
    rfl
  unfold Binary.ofFloat Binary.ofBits at hx
  dsimp only at hx
  rw [hbit]
  split_ifs at hx <;> cases hx <;> rfl

/-! ### Packing -/

theorem unsigned_unpack {b : BitVec 64} (h : b.getLsbD 63 = false) :
    Unsigned (UnpackedFloat.unpack Format.binary64 b) := by
  have hsign : @UnpackedFloat.unpackSign Format.binary64 b = 0#1 := by
    apply BitVec.eq_of_getLsbD_eq
    intro i hi
    obtain rfl : i = 0 := by omega
    simp [UnpackedFloat.unpackSign, h]
  unfold UnpackedFloat.unpack
  rw [hsign]
  dsimp only
  split_ifs <;> trivial

theorem getLsbD_pack {u : UnpackedFloat} (h : Unsigned u) :
    (UnpackedFloat.pack Format.binary64 u).getLsbD 63 = false := by
  have hpacked (e : BitVec 11) (m : BitVec 52) :
      (UnpackedFloat.packComponents Format.binary64 .positive e m).getLsbD 63 = false := by
    rw [UnpackedFloat.packComponents, BitVec.getLsbD_append, BitVec.getLsbD_append]
    rfl
  cases u with
  | notANumber => exact hpacked _ _
  | infinity s | zero s =>
    obtain rfl : s = .positive := h
    exact hpacked _ _
  | finite s m e hm =>
    obtain rfl : s = .positive := h
    unfold UnpackedFloat.pack
    dsimp only
    split_ifs <;> exact hpacked _ _

theorem signBit_pack {u : UnpackedFloat} (h : Unsigned u) :
    signBit (.ofModel (.pack u)) = false := getLsbD_pack h

theorem unsigned_toModel {x : Float} (h : signBit x = false) : Unsigned x.toModel.unpack :=
  unsigned_unpack h

/-! ### Operations -/

theorem unsigned_round (m : Nat) (e : Int) (acc : UnpackedFloat.Accuracy) :
    Unsigned (UnpackedFloat.roundWithAccuracy Format.binary64 .positive m e acc) := by
  unfold UnpackedFloat.roundWithAccuracy
  dsimp only
  split_ifs <;> rfl

theorem unsigned_div {a b : UnpackedFloat} (ha : Unsigned a) (hb : Unsigned b) :
    Unsigned (UnpackedFloat.div Format.binary64 a b) := by
  cases a <;> cases b <;> first
    | trivial
    | (cases ha; cases hb; first | rfl | exact unsigned_round _ _ _)

theorem unsigned_ofNat (n : Nat) : Unsigned (UnpackedFloat.ofNat Format.binary64 n) := by
  unfold UnpackedFloat.ofNat UnpackedFloat.ofInt UnpackedFloat.normalize
  have hle : compare (n : Int) 0 ≠ .lt := by
    rw [Ne, Int.compare_eq_lt]; omega
  split
  · contradiction
  · rfl
  · exact unsigned_round _ _ _

theorem unsigned_ofScientific (m : Nat) (e : Int) :
    Unsigned (UnpackedFloat.ofScientific Format.binary64 m e) := by
  unfold UnpackedFloat.ofScientific
  split_ifs
  · rfl
  · rfl
  · rfl
  · exact unsigned_round _ _ _
  · exact unsigned_div rfl rfl

/-- A number that is read from digits has no minus sign. -/
theorem signBit_ofScientific (m : Nat) (e : Nat) : signBit (Float.ofScientific m true e) = false := by
  unfold Float.ofScientific
  by_cases h : m < 2 ^ 53 ∧ e ≤ 22
  -- the quotient of the digits and a power of ten
  · have hpower : ∀ x ∈ Float.exactlyRepresentablePowersOfTen, signBit x = false := by decide
    rw [dif_pos h, if_pos rfl]
    exact signBit_pack (unsigned_div (unsigned_toModel (signBit_pack (unsigned_ofNat _)))
      (unsigned_toModel (hpower _ (Array.getElem_mem _))))
  · rw [dif_neg h, if_pos rfl]
    exact signBit_pack (unsigned_ofScientific _ _)

end Decimal

end LoxLang
