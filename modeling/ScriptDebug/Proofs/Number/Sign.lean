/-
# The sign of a literal

A literal is written without a sign, and the number nearest to its decimal has
none either: its sign bit is clear (`unsigned_nearest`). Comparison of numbers
does not tell the two zeros apart, but among numbers without a sign it tells
everything apart (`eq_of_unsigned_beq`), so a table of literals that is searched by
comparison gives each literal its own number back.

Both are facts about the logical model of `Float`: a number is unpacked into
its sign, mantissa and exponent, and an operation rounds and packs its result.

Key definitions: `Number.signOf`, `Number.Unsigned`, `Number.IsWritten`.
Key theorems: `Number.eq_of_unsigned_beq`, `Number.unsigned_nearest`.
-/
import Mathlib
import ScriptDebug.Number.Literal

namespace ScriptDebug
namespace Number

open Float.Model Float.Model.UnpackedFloat

/-- The sign of an unpacked number. One that is none has no sign. -/
def signOf : UnpackedFloat → Sign
  | .infinity s | .zero s | .finite s _ _ _ => s
  | .notANumber => .positive

/-- A number whose sign bit is clear. -/
def Unsigned (x : Float) : Prop := @unpackSign .binary64 x.toModel.toBits.toBitVec = 0#1

instance (x : Float) : Decidable (Unsigned x) :=
  inferInstanceAs (Decidable (_ = 0#1))

/-! ### Packing keeps the sign -/

theorem unpackSign_pack {F : Format} {u : UnpackedFloat} (h : signOf u = .positive) :
    unpackSign (UnpackedFloat.pack F u) = 0#1 := by
  cases u with
  | notANumber => exact unpackSign_packComponents _ _ _
  | infinity s =>
    cases h
    exact unpackSign_packComponents _ _ _
  | zero s =>
    cases h
    exact unpackSign_packComponents _ _ _
  | finite s m e hm =>
    cases h
    unfold UnpackedFloat.pack
    dsimp only
    split
    · exact unpackSign_packComponents _ _ _
    · split <;> exact unpackSign_packComponents _ _ _

theorem signOf_unpack {F : Format} {b : BitVec F.numBits} (h : unpackSign b = 0#1) :
    signOf (UnpackedFloat.unpack F b) = .positive := by
  unfold UnpackedFloat.unpack
  simp only [h]
  split
  · split <;> rfl
  · split
    · split <;> rfl
    · rfl

theorem unsigned_pack {u : UnpackedFloat} (h : signOf u = .positive) :
    Unsigned (.ofModel (Float.Model.pack u)) :=
  unpackSign_pack h

theorem Unsigned.signOf {x : Float} (h : Unsigned x) : signOf x.toModel.unpack = .positive :=
  signOf_unpack h

/-! ### Operations on numbers without a sign -/

theorem signOf_roundWithAccuracy (F : Format) (s : Sign) (m : Nat) (e : Int) (a : Accuracy) :
    signOf (roundWithAccuracy F s m e a) = s := by
  unfold roundWithAccuracy
  simp only
  split <;> rfl

theorem signOf_mul {F : Format} {u v : UnpackedFloat} (hu : signOf u = .positive)
    (hv : signOf v = .positive) : signOf (mul F u v) = .positive := by
  cases u <;> cases v <;> cases hu <;> cases hv <;>
    first | rfl | exact signOf_roundWithAccuracy _ _ _ _ _

theorem signOf_div {F : Format} {u v : UnpackedFloat} (hu : signOf u = .positive)
    (hv : signOf v = .positive) : signOf (div F u v) = .positive := by
  cases u <;> cases v <;> cases hu <;> cases hv <;>
    first | rfl | exact signOf_roundWithAccuracy _ _ _ _ _

theorem signOf_ofNat (F : Format) (n : Nat) : signOf (UnpackedFloat.ofNat F n) = .positive := by
  unfold UnpackedFloat.ofNat UnpackedFloat.ofInt UnpackedFloat.normalize
  split
  · rename_i h
    rw [Int.compare_eq_lt] at h
    omega
  · rfl
  · exact signOf_roundWithAccuracy _ _ _ _ _

theorem signOf_ofScientific (F : Format) (m : Nat) (e : Int) :
    signOf (UnpackedFloat.ofScientific F m e) = .positive := by
  unfold UnpackedFloat.ofScientific
  split
  · rfl
  · split
    · rfl
    · split
      · rfl
      · split
        · exact signOf_mul rfl rfl
        · exact signOf_div rfl rfl

/-! ### Comparison tells numbers without a sign apart -/

/-- Numbers without a sign that compare as equal are the same. -/
theorem eq_of_unsigned_beq {x y : Float} (hx : Unsigned x) (hy : Unsigned y) (h : (x == y) = true) :
    x = y := by
  have hneg : ¬Unsigned (-0) := by decide
  obtain ⟨-, -, rfl | ⟨-, rfl⟩ | ⟨rfl, -⟩⟩ := Float.beq_iff_ne_nan_and_eq.1 h
  · rfl
  · exact absurd hy hneg
  · exact absurd hx hneg

/-! ### Literals have no sign -/

theorem unsigned_powerOfTen : ∀ e : Fin Float.exactlyRepresentablePowersOfTen.size,
    Unsigned Float.exactlyRepresentablePowersOfTen[e] := by
  decide +kernel

theorem unsigned_ofScientific (m e : Nat) (s : Bool) : Unsigned (Float.ofScientific m s e) := by
  unfold Float.ofScientific
  split
  · rename_i h
    have hp := (unsigned_powerOfTen ⟨e, Nat.lt_succ_of_le h.2⟩).signOf
    have hm : signOf m.toUInt64.toFloat.toModel.unpack = .positive :=
      (unsigned_pack (signOf_ofNat _ _)).signOf
    dsimp only
    split
    · exact unsigned_pack (signOf_div hm hp)
    · exact unsigned_pack (signOf_mul hm hp)
  · exact unsigned_pack (signOf_ofScientific _ _ _)

/-- The number nearest to a decimal is zero, infinite, or what the decimal is read as. -/
theorem nearest_cases {P : Float → Prop} (hzero : P 0) (hinfinite : P (1 / 0))
    (hread : ∀ (m : Nat) (s : Bool) (e : Nat), P (Float.ofScientific m s e)) (m : Nat) (e : Int) :
    P (nearest m e) := by
  unfold nearest
  dsimp only
  split
  · exact hzero
  · split
    · exact hinfinite
    · exact hread _ _ _

/-- The number nearest to a decimal has no sign. -/
theorem unsigned_nearest (m : Nat) (e : Int) : Unsigned (nearest m e) := by
  have hinfinite : Unsigned (1 / 0) :=
    unsigned_pack (signOf_div (unsigned_ofScientific 1 0 false).signOf
      (unsigned_ofScientific 0 0 false).signOf)
  exact nearest_cases (unsigned_ofScientific 0 0 false) hinfinite
    (fun m s e => unsigned_ofScientific m e s) m e

/-- A number that a decimal writes. -/
def IsWritten (x : Float) : Prop := ∃ m e, nearest m e = x

theorem IsWritten.unsigned {x : Float} (h : IsWritten x) : Unsigned x := by
  obtain ⟨m, e, rfl⟩ := h
  exact unsigned_nearest m e

theorem isWritten_of_readDecimal? {cs : List Char} {x : Float} (h : readDecimal? cs = some x) :
    IsWritten x := by
  unfold readDecimal? at h
  generalize takeDigits cs = whole at h
  dsimp only at h
  split at h
  all_goals
    split at h
    · simp at h
    · obtain ⟨e, -, rfl⟩ := Option.map_eq_some_iff.1 h
      exact ⟨_, _, rfl⟩

end Number
end ScriptDebug
