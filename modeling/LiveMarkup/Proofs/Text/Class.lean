import LiveMarkup.Text.Class

/-! How the classes of characters lie to each other. -/

namespace LiveMarkup.Text

variable {c : Char}

theorem inRanges_iff {ranges : List (Nat × Nat)} {n : Nat} :
    inRanges ranges n = true ↔ ∃ r ∈ ranges, r.1 ≤ n ∧ n ≤ r.2 := by
  simp [inRanges]

private theorem blankRanges_apart :
    ∀ r ∈ blankRanges, ∀ s ∈ alphabeticRanges, r.2 < s.1 ∨ s.2 < r.1 := by
  decide +kernel

theorem toNat_of_isDigit (h : c.isDigit = true) : 0x30 ≤ c.toNat ∧ c.toNat ≤ 0x39 :=
  Char.isDigit_iff_toNat.1 h

private theorem toNat_of_isAlpha (h : c.isAlpha = true) :
    0x41 ≤ c.toNat ∧ c.toNat ≤ 0x5A ∨ 0x61 ≤ c.toNat ∧ c.toNat ≤ 0x7A := by
  delta Char.isAlpha Char.isUpper Char.isLower at h
  simp only [Bool.or_eq_true, Bool.and_eq_true, decide_eq_true_eq, ge_iff_le, UInt32.le_iff_toNat_le,
    Char.reduceVal, UInt32.reduceToNat] at h
  exact h

theorem toNat_of_isLower (h : c.isLower = true) : 0x61 ≤ c.toNat ∧ c.toNat ≤ 0x7A := by
  delta Char.isLower at h
  simp only [Bool.and_eq_true, decide_eq_true_eq, ge_iff_le, UInt32.le_iff_toNat_le] at h
  exact h

theorem not_isUpper_of_toNat (h : c.toNat < 0x41 ∨ 0x5A < c.toNat) : c.isUpper = false := by
  rw [Bool.eq_false_iff]
  intro hupper
  delta Char.isUpper at hupper
  simp only [decide_eq_true_eq, ge_iff_le, UInt32.le_iff_toNat_le] at hupper
  have hrange : 0x41 ≤ c.toNat ∧ c.toNat ≤ 0x5A := hupper
  omega

/-- Identifiers do not begin with digits. -/
theorem isDigit_of_isIdentStart (h : isIdentStart c = true) : c.isDigit = false := by
  refine Bool.eq_false_iff.2 fun hdigit => ?_
  have hne : ∀ d, d.isDigit = false → c ≠ d := fun d hd hcd => by
    rw [← hcd, hdigit] at hd
    cases hd
  simp only [isIdentStart, Bool.or_eq_true, beq_iff_eq, hne '_' (by decide), hne '$' (by decide),
    or_false] at h
  have hrange := toNat_of_isDigit hdigit
  -- Digits are below the characters that the tables are for.
  rw [isAlphabetic, if_pos (by omega)] at h
  have hletter := toNat_of_isAlpha h
  omega

/-- White space does not occur in identifiers. -/
theorem isIdentRest_of_isBlank (h : isBlank c = true) : isIdentRest c = false := by
  obtain ⟨r, hr, hlow, hhigh⟩ := inRanges_iff.1 h
  have hends : ∀ r ∈ blankRanges, r.2 ≤ 0x20 ∨ 0x80 ≤ r.1 := by decide
  have hplace := hends r hr
  have hne : ∀ d, isBlank d = false → c ≠ d := fun d hd hcd => by
    rw [← hcd, h] at hd
    cases hd
  refine Bool.eq_false_iff.2 fun hident => ?_
  simp only [isIdentRest, isIdentStart, Bool.or_eq_true, beq_iff_eq, hne '_' (by decide),
    hne '$' (by decide), or_false] at hident
  rcases hident with hletter | hdigit
  · rw [isAlphabetic] at hletter
    split at hletter
    · have hrange := toNat_of_isAlpha hletter
      omega
    · obtain ⟨s, hs, hlow', hhigh'⟩ := inRanges_iff.1 hletter
      have hapart := blankRanges_apart r hr s hs
      omega
  · have hrange := toNat_of_isDigit hdigit
    omega

private theorem blankRanges_apart_numeric :
    ∀ r ∈ blankRanges, ∀ s ∈ numericRanges, r.2 < s.1 ∨ s.2 < r.1 := by
  decide +kernel

/-- White space is no letter and no number. -/
theorem isAlphanumeric_of_isBlank (h : isBlank c = true) : isAlphanumeric c = false := by
  have hident := isIdentRest_of_isBlank h
  simp only [isIdentRest, isIdentStart, Bool.or_eq_false_iff, isAlphabetic] at hident
  obtain ⟨⟨⟨hletter, -⟩, -⟩, hdigit⟩ := hident
  rw [isAlphanumeric]
  split at hletter
  · next hascii => rw [if_pos hascii, Char.isAlphanum, hletter, hdigit, Bool.or_false]
  · next hascii =>
    rw [if_neg hascii, hletter, Bool.false_or]
    refine Bool.eq_false_iff.2 fun hnumber => ?_
    obtain ⟨r, hr, hlow, hhigh⟩ := inRanges_iff.1 h
    obtain ⟨s, hs, hlow', hhigh'⟩ := inRanges_iff.1 hnumber
    have hapart := blankRanges_apart_numeric r hr s hs
    omega

/-- The letters of ASCII are letters. -/
private theorem isIdentRest_of_isAlpha (h : c.isAlpha = true) : isIdentRest c = true := by
  have hrange := toNat_of_isAlpha h
  simp [isIdentRest, isIdentStart, isAlphabetic, if_pos (show c.toNat < 0x80 by omega), h]

theorem not_isBlank_of_isAlpha (h : c.isAlpha = true) : isBlank c = false := by
  refine Bool.eq_false_iff.2 fun hblank => ?_
  have hno := isIdentRest_of_isBlank hblank
  rw [isIdentRest_of_isAlpha h] at hno
  cases hno

theorem not_isBlank_of_isDigit (h : c.isDigit = true) : isBlank c = false := by
  refine Bool.eq_false_iff.2 fun hblank => ?_
  have hno := isIdentRest_of_isBlank hblank
  rw [isIdentRest, h, Bool.or_true] at hno
  cases hno

/-- The letters and digits of ASCII are word characters. -/
theorem isWord_of_isAlphanum (hc : c.toNat < 0x80) (h : c.isAlphanum = true) : isWord c = true := by
  rw [isWord, if_pos hc, h, Bool.true_or]

end LiveMarkup.Text
