/-
# The value of a literal is a number

A decimal that is too large is infinite, and one that is too small is zero, but
none is `nan`: an operation gives none only where an operand is none or both are
zero or infinite, and reading a decimal multiplies or divides by a power of ten
that is finite (`nearest_ne_nan`). So the value of a literal equals itself.

Key definitions: `Number.IsFinite`.
Key theorems: `Number.pack_ne_nan`, `Number.ofScientific_ne_nan`, `Number.nearest_ne_nan`.
-/
import Mathlib
import ScriptDebug.Proofs.Number.Sign

namespace ScriptDebug
namespace Number

open Float.Model Float.Model.UnpackedFloat

/-- A finite number that is not zero. -/
def IsFinite : UnpackedFloat → Prop
  | .finite .. => True
  | _ => False

instance (u : UnpackedFloat) : Decidable (IsFinite u) := by
  cases u <;> unfold IsFinite <;> infer_instance

/-! ### Packing keeps what is a number -/

/-- The bits of a number are not those of one that is none. -/
theorem isNaNBits_pack {F : Format} {u : UnpackedFloat} (h : u ≠ .notANumber) :
    isNaNBits (UnpackedFloat.pack F u) = false := by
  rw [isNaNBits, decide_eq_false_iff_not]
  rintro ⟨he, hm⟩
  fun_cases UnpackedFloat.pack F u with
  | case1 => exact h rfl
  | case2 s => exact hm unpackMantissa_packComponents
  | case3 s => exact hm unpackMantissa_packComponents
  | case4 s m e hm' biased hb =>
    rw [UnpackedFloat.pack, if_pos hb] at hm
    exact hm unpackMantissa_packComponents
  | case5 s m e hm' bits biased hb hn =>
    -- the exponent of a normal number is below the one of infinity
    rw [UnpackedFloat.pack, if_neg hb, if_pos hn, unpackExponent_packComponents,
      BitVec.neg_one_eq_allOnes, ← BitVec.toNat_inj, BitVec.toNat_ofNat, BitVec.toNat_allOnes,
      Nat.mod_eq_of_lt (by omega)] at he
    omega
  | case6 s m e hm' bits biased hb hn =>
    rw [UnpackedFloat.pack, if_neg hb, if_neg hn, unpackExponent_packComponents] at he
    exact absurd he (by simp [F.he.ne'])

theorem ne_nan_iff {x : Float} : x ≠ Float.nan ↔ x.toModel.unpack ≠ .notANumber := by
  rw [ne_eq, ne_eq, not_iff_not, ← decide_eq_true_iff (p := x = Float.nan),
    ← Float.isNaN_eq_decide_eq_nan]
  exact isNaN_iff

theorem pack_ne_nan {u : UnpackedFloat} (h : u ≠ .notANumber) :
    Float.ofModel (Float.Model.pack u) ≠ Float.nan := by
  rw [ne_nan_iff]
  intro hn
  have hb := isNaNBits_pack (F := .binary64) h
  rw [(unpack_eq_notANumber_iff_of_valid valid_pack).1 hn] at hb
  exact Bool.false_ne_true (hb.symm.trans isNaNBits_packedNaN)

/-! ### Operations that give numbers -/

theorem roundWithAccuracy_ne_notANumber (F : Format) (s : Sign) (m : Nat) (e : Int)
    (a : Accuracy) : roundWithAccuracy F s m e a ≠ .notANumber := by
  unfold roundWithAccuracy
  simp only
  split <;> exact nofun

/-- A number times a finite one is a number. -/
theorem mul_ne_notANumber {F : Format} {u v : UnpackedFloat} (hu : u ≠ .notANumber)
    (hv : IsFinite v) : mul F u v ≠ .notANumber := by
  cases v with
  | finite =>
    cases u with
    | notANumber => exact absurd rfl hu
    | finite => exact roundWithAccuracy_ne_notANumber _ _ _ _ _
    | infinity | zero => exact nofun
  | _ => exact hv.elim

/-- A number over a finite one is a number. -/
theorem div_ne_notANumber {F : Format} {u v : UnpackedFloat} (hu : u ≠ .notANumber)
    (hv : IsFinite v) : div F u v ≠ .notANumber := by
  cases v with
  | finite =>
    cases u with
    | notANumber => exact absurd rfl hu
    | finite => exact roundWithAccuracy_ne_notANumber _ _ _ _ _
    | infinity | zero => exact nofun
  | _ => exact hv.elim

theorem ofNat_ne_notANumber (F : Format) (n : Nat) : UnpackedFloat.ofNat F n ≠ .notANumber := by
  unfold UnpackedFloat.ofNat UnpackedFloat.ofInt UnpackedFloat.normalize
  split
  · exact roundWithAccuracy_ne_notANumber _ _ _ _ _
  · exact nofun
  · exact roundWithAccuracy_ne_notANumber _ _ _ _ _

theorem ofScientific_ne_notANumber (F : Format) (m : Nat) (e : Int) :
    UnpackedFloat.ofScientific F m e ≠ .notANumber := by
  unfold UnpackedFloat.ofScientific
  split
  · exact nofun
  · split
    · exact nofun
    · split
      · exact nofun
      · split
        · exact mul_ne_notANumber nofun trivial
        · exact div_ne_notANumber nofun trivial

/-! ### The number nearest to a decimal -/

theorem isFinite_powerOfTen :
    ∀ x ∈ Float.exactlyRepresentablePowersOfTen, IsFinite x.toModel.unpack := by
  decide +kernel

theorem ofScientific_ne_nan (m e : Nat) (s : Bool) : Float.ofScientific m s e ≠ Float.nan := by
  unfold Float.ofScientific
  split
  · rename_i h
    have hp := isFinite_powerOfTen _ (Array.getElem_mem (Nat.lt_succ_of_le h.2))
    have hm : m.toUInt64.toFloat.toModel.unpack ≠ .notANumber :=
      ne_nan_iff.1 (pack_ne_nan (ofNat_ne_notANumber _ _))
    dsimp only
    split
    · exact pack_ne_nan (div_ne_notANumber hm hp)
    · exact pack_ne_nan (mul_ne_notANumber hm hp)
  · exact pack_ne_nan (ofScientific_ne_notANumber _ _ _)

/-- **The number nearest to a decimal is a number.** -/
theorem nearest_ne_nan (m : Nat) (e : Int) : nearest m e ≠ Float.nan := by
  have hinfinite : (1 / 0 : Float) ≠ Float.nan := by decide +kernel
  exact nearest_cases (P := (· ≠ Float.nan)) (ofScientific_ne_nan 0 0 false) hinfinite
    (fun m s e => ofScientific_ne_nan m e s) m e

end Number
end ScriptDebug
