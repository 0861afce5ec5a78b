import LiveMarkup.Proofs.Value.Relocate
import Mathlib.Data.Nat.Pairing

/-! The relocation of functions that goes with putting one source behind another: those of the first
source keep their places, those of the second stand behind the first. -/

namespace LiveMarkup

namespace Pos

variable {p q seam : Pos} {w : List Char}

/-- Lines and columns count from one. -/
def Real (p : Pos) : Prop := 1 ≤ p.line ∧ 1 ≤ p.column

instance (p : Pos) : Decidable p.Real := inferInstanceAs (Decidable (_ ∧ _))

/-- The order of places in a source. -/
def Before (p q : Pos) : Prop := p.line < q.line ∨ p.line = q.line ∧ p.column < q.column

instance (p q : Pos) : Decidable (p.Before q) := inferInstanceAs (Decidable (_ ∨ _))

/-- The place that corresponds to `p` in a text that does not begin at the first place but at `seam`. -/
def behind (seam p : Pos) : Pos :=
  if p.line = 1 then ⟨seam.line, seam.column + (p.column - 1)⟩ else ⟨seam.line + (p.line - 1), p.column⟩

private theorem Real.next (h : p.Real) (c : Char) : (p.next c).Real := by
  unfold Pos.next
  split
  · exact ⟨Nat.le_add_left .., Nat.le_refl _⟩
  · exact ⟨h.1, Nat.le_add_left ..⟩

private theorem Real.after (h : p.Real) (w : List Char) : (p.after w).Real := by
  induction w generalizing p with
  | nil => exact h
  | cons c w ih => exact ih (h.next c)

theorem real_start : start.Real := ⟨Nat.le_refl _, Nat.le_refl _⟩

private theorem before_next (p : Pos) (c : Char) : p.Before (p.next c) := by
  unfold Pos.next
  split
  · exact .inl (Nat.lt_succ_self _)
  · exact .inr ⟨rfl, Nat.lt_succ_self _⟩

theorem Before.trans {r : Pos} (h : p.Before q) (h' : q.Before r) : p.Before r := by
  unfold Before at *
  omega

theorem before_after (p : Pos) (hw : w ≠ []) : p.Before (p.after w) := by
  induction w generalizing p with
  | nil => exact absurd rfl hw
  | cons c w ih =>
    cases w with
    | nil => exact before_next p c
    | cons d w => exact (before_next p c).trans (ih _ nofun)

private theorem behind_next (h : p.Real) (c : Char) :
    behind seam (p.next c) = (behind seam p).next c := by
  obtain ⟨hline, hcolumn⟩ := h
  unfold behind Pos.next
  by_cases hc : c = '\n'
  · rw [if_pos hc, if_pos hc, if_neg (show ¬ p.line + 1 = 1 by omega)]
    split <;> simp only [Pos.mk.injEq, and_true] <;> omega
  · rw [if_neg hc, if_neg hc]
    dsimp only
    split <;> simp only [Pos.mk.injEq, true_and]
    omega

theorem behind_after (h : p.Real) (w : List Char) : behind seam (p.after w) = (behind seam p).after w := by
  induction w generalizing p with
  | nil => rfl
  | cons c w ih => rw [after_cons, ih (h.next c), behind_next h, after_cons]

private theorem Real.behind (h : seam.Real) (hp : p.Real) : (behind seam p).Real := by
  obtain ⟨hline, hcolumn⟩ := h
  obtain ⟨-, hcolumn'⟩ := hp
  unfold Pos.behind
  split
  · exact ⟨hline, Nat.le_add_right_of_le hcolumn⟩
  · exact ⟨Nat.le_add_right_of_le hline, hcolumn'⟩

/-- What is behind the seam is not before it. -/
private theorem not_before_behind (h : p.Real) : ¬ (behind seam p).Before seam := by
  obtain ⟨hline, hcolumn⟩ := h
  unfold behind Before
  split <;> dsimp only <;> omega

private theorem behind_injective (hp : p.Real) (hq : q.Real) (h : behind seam p = behind seam q) :
    p = q := by
  obtain ⟨line, column⟩ := p
  obtain ⟨line', column'⟩ := q
  obtain ⟨hline, hcolumn⟩ := hp
  obtain ⟨hline', hcolumn'⟩ := hq
  unfold behind at h
  dsimp only at h hline hline' hcolumn hcolumn'
  split at h <;> split at h <;> simp only [Pos.mk.injEq] at h ⊢ <;> omega

/-- A place of which there is none in a source, another one for each place and each of two kinds. -/
def aside (kind : Bool) (p : Pos) : Pos := ⟨0, 2 * Nat.pair p.line p.column + kind.toNat⟩

private theorem aside_injective {i j : Bool} (h : aside i p = aside j q) : i = j ∧ p = q := by
  obtain ⟨line, column⟩ := p
  obtain ⟨line', column'⟩ := q
  have hcolumn := congrArg Pos.column h
  dsimp only [aside] at hcolumn
  have hi := i.toNat_le
  have hj := j.toNat_le
  obtain ⟨rfl, rfl⟩ := Nat.pair_eq_pair.1 (show Nat.pair line column = Nat.pair line' column' by omega)
  have hkind : i.toNat = j.toNat := by omega
  refine ⟨?_, rfl⟩
  revert hkind
  cases i <;> cases j <;> decide

private theorem Real.ne_aside (h : p.Real) (kind : Bool) (q : Pos) : p ≠ aside kind q := by
  rintro rfl
  exact absurd h.1 (Nat.not_succ_le_zero 0)

end Pos

/-- The relocation keeps the places of a text that is the whole of `source`, and takes those of `other`
to places in `source` behind the text. -/
structure Relocation.Joins (ρ : Relocation) (source other : Nat) (text : List Char) : Prop where
  first : ρ.source source = source
  second : ρ.source other = source
  others : ∀ n, n ≠ source → n ≠ other → ρ.Fixes n
  within : ∀ w w', text = w ++ w' → w' ≠ [] → ρ.place source (Pos.start.after w) = Pos.start.after w
  behind : ∀ w, ρ.place other (Pos.start.after w) = Pos.start.after (text ++ w)

namespace Relocation

variable {source other : Nat}

theorem Joins.fixes {ρ : Relocation} {text : List Char} (h : ρ.Joins source other text) {sources : List Nat}
    (hs : source ∉ sources) (ho : other ∉ sources) : ∀ n ∈ sources, ρ.Fixes n :=
  fun n hn => h.others n (fun hn' => hs (hn' ▸ hn)) fun hn' => ho (hn' ▸ hn)

/-- Where the places of two sources are in both together, which meet at the seam. What is no place in
its source is kept apart. -/
def joined (other : Nat) (seam : Pos) (n : Nat) (p : Pos) : Pos :=
  if n = other ∧ p.Real then Pos.behind seam p
  else if n ≠ other ∧ p.Real ∧ p.Before seam then p
  else Pos.aside (n == other) p

variable {seam p q : Pos} {m n : Nat}

private theorem joined_injective (hseam : seam.Real)
    (h : joined other seam m p = joined other seam n q) : (m = other ↔ n = other) ∧ p = q := by
  unfold joined at h
  split at h
  · next hm =>
    have hreal := hseam.behind hm.2
    split at h
    · next hn => exact ⟨by simp [hm.1, hn.1], Pos.behind_injective hm.2 hn.2 h⟩
    · split at h
      · next hn => exact absurd (h ▸ hn.2.2) (Pos.not_before_behind hm.2)
      · exact absurd h (hreal.ne_aside _ _)
  · split at h
    · next hm =>
      split at h
      · next hn => exact absurd (h ▸ hm.2.2) (Pos.not_before_behind hn.2)
      · split at h
        · next hn => exact ⟨by simp [hm.1, hn.1], h⟩
        · exact absurd h (hm.2.1.ne_aside _ _)
    · split at h
      · next hn => exact absurd h.symm ((hseam.behind hn.2).ne_aside _ _)
      · split at h
        · next hn => exact absurd h.symm (hn.2.1.ne_aside _ _)
        · obtain ⟨hkind, hpq⟩ := Pos.aside_injective h
          exact ⟨by simpa using Bool.eq_iff_iff.1 hkind, hpq⟩

/-- Any two sources can be joined. -/
theorem exists_joins (hne : source ≠ other) (text : List Char) :
    ∃ ρ : Relocation, ρ.Joins source other text := by
  have hseam : (Pos.start.after text).Real := Pos.real_start.after text
  let placed (n : Nat) (p : Pos) : Pos :=
    if n = source ∨ n = other then joined other (Pos.start.after text) n p else p
  have hinjective {m n : Nat} {p q : Pos}
      (hsource : (if m = other then source else m) = if n = other then source else n)
      (hplace : placed m p = placed n q) : m = n ∧ p = q := by
    have hboth : (m = source ∨ m = other) ↔ (n = source ∨ n = other) := by
      split at hsource <;> split at hsource <;> omega
    by_cases hm : m = source ∨ m = other
    · simp only [placed, if_pos hm, if_pos (hboth.1 hm)] at hplace
      obtain ⟨hother, rfl⟩ := joined_injective hseam hplace
      exact ⟨by split at hsource <;> split at hsource <;> omega, rfl⟩
    · simp only [placed, if_neg hm, if_neg (mt hboth.2 hm)] at hplace
      exact ⟨by split at hsource <;> split at hsource <;> omega, hplace⟩
  refine ⟨⟨fun n => if n = other then source else n, placed, hinjective⟩, if_neg hne, if_pos rfl, ?_, ?_, ?_⟩
  · exact fun n hs ho => ⟨if_neg ho, fun p => if_neg (not_or.2 ⟨hs, ho⟩)⟩
  · rintro w w' rfl hw'
    have hreal := Pos.real_start.after w
    have hbefore : (Pos.start.after w).Before (Pos.start.after (w ++ w')) := by
      rw [Pos.after_append]
      exact Pos.before_after _ hw'
    exact (if_pos (.inl rfl)).trans ((if_neg fun h => hne h.1).trans (if_pos ⟨hne, hreal, hbefore⟩))
  · intro w
    refine (if_pos (.inr rfl)).trans ((if_pos ⟨rfl, Pos.real_start.after w⟩).trans ?_)
    rw [Pos.behind_after Pos.real_start, Pos.after_append]
    rfl

end Relocation

end LiveMarkup
