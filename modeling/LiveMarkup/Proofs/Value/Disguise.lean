import LiveMarkup.Scope
import Mathlib

/-! Values that the language takes for equal though they are not: what a write may change without
being dirty. -/

namespace LiveMarkup

open Float.Model (Format UnpackedFloat)

abbrev bitsOf (x : Float) : BitVec 64 := x.toModel.toBits.toBitVec

private theorem eq_of_bits {a b : Float} (h : bitsOf a = bitsOf b) : a = b := by
  obtain ⟨⟨⟨x⟩, hx⟩⟩ := a
  obtain ⟨⟨⟨y⟩, hy⟩⟩ := b
  cases (h : x = y)
  rfl

/-- Doubles that compare equal are the same, but for the zeros of both signs. -/
private theorem eq_or_zeros_of_beq {a b : Float} (h : (a == b) = true) :
    a = b ∨ (a = 0.0 ∧ b = -0.0) ∨ (a = -0.0 ∧ b = 0.0) := by
  have hzero : UnpackedFloat.packedZero Format.binary64 .positive = bitsOf 0.0 := by decide
  have hnegated : UnpackedFloat.packedZero Format.binary64 .negative = bitsOf (-0.0) := by decide
  have hbits := (UnpackedFloat.unpack_beq_unpack_iff a.toModel.valid b.toModel.valid).1 h
  rw [hzero, hnegated] at hbits
  obtain ⟨-, -, hab | ⟨ha, hb⟩ | ⟨ha, hb⟩⟩ := hbits
  · exact .inl (eq_of_bits hab)
  · exact .inr (.inl ⟨eq_of_bits ha, eq_of_bits hb⟩)
  · exact .inr (.inr ⟨eq_of_bits ha, eq_of_bits hb⟩)

namespace Value

/-- Two numbers that are equal to the language but different values: an integer and the double it is
compared as, or the zeros of both signs. -/
inductive Disguised : Value → Value → Prop where
  | asFloat {n : Int64} {x : Float} (h : (n.toFloat == x) = true) : Disguised (.int n) (.float x)
  | asInt {x : Float} {n : Int64} (h : (x == n.toFloat) = true) : Disguised (.float x) (.int n)
  | negated : Disguised (.float 0.0) (.float (-0.0))
  | unsigned : Disguised (.float (-0.0)) (.float 0.0)

end Value

namespace Scope

variable {v w : Value}

/-- A write that is not dirty writes what is there, or a number in another guise. -/
theorem eq_or_disguised_of_clean (h : isDirty (some v) w = false) : v = w ∨ v.Disguised w := by
  rw [isDirty, Bool.or_eq_false_iff, Bool.not_eq_false'] at h
  obtain ⟨hc, hs⟩ := h
  cases w with
  | null => cases v <;> first | exact .inl rfl | cases hs
  | bool b => cases v <;> simp_all [Value.same]
  | string s => cases v <;> simp_all [Value.same]
  | int n =>
    cases v with
    | int m => exact .inl (congrArg Value.int (beq_iff_eq.1 hs))
    | float x => exact .inr (.asInt hs)
    | _ => cases hs
  | float y =>
    cases v with
    | int m => exact .inr (.asFloat hs)
    | float x =>
      rcases eq_or_zeros_of_beq hs with rfl | ⟨rfl, rfl⟩ | ⟨rfl, rfl⟩
      · exact .inl rfl
      · exact .inr .negated
      · exact .inr .unsigned
    | _ => cases hs
  | _ => cases hc

end Scope

end LiveMarkup
