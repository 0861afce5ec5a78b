import LiveMarkup.Proofs.Eval.Hosts

/-! What reading a scope gives after a write, and when a write that is not dirty changes nothing that
can be read. -/

namespace LiveMarkup

variable {x y : String} {v w : Value} {a b s : Scope}

namespace Bindings

variable {bs bs' : Bindings}

theorem get?_set? (h : set? x v bs = some bs') (y : String) :
    get? y bs' = if x = y then some v else get? y bs := by
  induction bs generalizing bs' with
  | nil => cases h
  | cons b bs ih =>
    obtain ⟨z, w⟩ := b
    by_cases hz : z = x
    · rw [set?, if_pos hz, Option.some.injEq] at h
      subst h hz
      by_cases hy : z = y <;> simp [get?, hy]
    · rw [set?, if_neg hz, Option.map_eq_some_iff] at h
      obtain ⟨bs'', h, rfl⟩ := h
      have ih := ih h
      by_cases hy : z = y
      · subst hy
        simp [get?, Ne.symm hz]
      · simp [get?, hy, ih]

private theorem get?_of_set?_eq_none (h : set? x v bs = none) : get? x bs = none := by
  rw [← Option.not_isSome_iff_eq_none, ← set?_isSome x v bs, h]
  exact Bool.false_ne_true

theorem get?_append (x : String) (bs cs : Bindings) :
    get? x (bs ++ cs) = (get? x bs).orElse fun _ => get? x cs := by
  induction bs with
  | nil => rfl
  | cons b bs ih =>
    obtain ⟨y, w⟩ := b
    by_cases hy : y = x <;> simp [get?, hy, ih]

private theorem get?_concat (x y : String) (v : Value) (bs : Bindings) :
    get? y (bs ++ [(x, v)]) = (get? y bs).orElse fun _ => if x = y then some v else none :=
  get?_append y bs [(x, v)]

private theorem get?_erase (h : x ≠ y) (bs : Bindings) : get? y (erase x bs) = get? y bs := by
  induction bs with
  | nil => rfl
  | cons b bs ih =>
    obtain ⟨z, w⟩ := b
    have ih : get? y (bs.filter fun b => b.1 != x) = get? y bs := ih
    by_cases hz : z = x
    · subst hz
      simp [erase, get?, h, ih]
    · simp [erase, get?, hz, ih]

end Bindings

namespace Scope

theorem get?_put (x : String) (v : Value) (s : Scope) (y : String) :
    (s.put x v).get? y = if x = y then some v else s.get? y := by
  unfold put
  cases hshown : s.shown.set? x v with
  | some shown =>
    simp only [get?, Bindings.get?_set? hshown]
    split <;> simp
  | none =>
    have hx := Bindings.get?_of_set?_eq_none hshown
    cases hinternal : s.internal.set? x v with
    | some internal =>
      simp only [get?, Bindings.get?_set? hinternal]
      split
      · next hxy => simp [← hxy, hx]
      · rfl
    | none =>
      have hx' := Bindings.get?_of_set?_eq_none hinternal
      simp only [get?, Bindings.get?_concat]
      split
      · next hxy => simp [← hxy, hx, hx']
      · simp

theorem get?_putPublic (x : String) (v : Value) (s : Scope) (y : String) :
    (s.putPublic x v).get? y = if x = y then some v else s.get? y := by
  unfold putPublic
  cases hshown : s.shown.set? x v with
  | some shown =>
    simp only [get?, Bindings.get?_set? hshown]
    split <;> simp
  | none =>
    have hx := Bindings.get?_of_set?_eq_none hshown
    simp only [get?, Bindings.get?_concat]
    split
    · next hxy => simp [← hxy, hx]
    · next hxy => simp [Bindings.get?_erase hxy]

/-- Every name has the same value in both scopes, or none. It may be public in one and internal in
the other. -/
def Agrees (a b : Scope) : Prop := ∀ x, a.get? x = b.get? x

theorem agrees_congruence : Congruence Agrees where
  get? h x := h x
  put h x v y := by rw [get?_put, get?_put, h y]

/-- No property is a double. Doubles may stand in lists and hashes. -/
def Floatless (s : Scope) : Prop := ∀ x f, s.get? x ≠ some (.float f)

/-- But for doubles, a write that is not dirty writes the value that is there. -/
theorem eq_of_clean (hv : ∀ f, v ≠ .float f) (hw : ∀ f, w ≠ .float f)
    (h : isDirty (some v) w = false) : v = w := by
  rw [isDirty, Bool.or_eq_false_iff, Bool.not_eq_false'] at h
  obtain ⟨hc, hs⟩ := h
  cases w with
  | float f => exact absurd rfl (hw f)
  | null | bool _ | int _ | string _ =>
    cases v with
    | float f => exact absurd rfl (hv f)
    | _ => simp_all [Value.same]
  | _ => cases hc

/-- A write that is not dirty changes at most who sees the property. -/
theorem putPublic_agrees (hs : s.Floatless) (ht : (s.putPublic x v).Floatless)
    (h : isDirty (s.get? x) v = false) : (s.putPublic x v).Agrees s := by
  intro y
  rw [get?_putPublic]
  split
  · next hxy =>
    subst hxy
    cases hg : s.get? x with
    | none =>
      rw [hg] at h
      cases h
    | some w =>
      rw [hg] at h
      have hv (f : Float) : v ≠ .float f := fun he => ht x f (by rw [get?_putPublic, if_pos rfl, he])
      have hw (f : Float) : w ≠ .float f := fun he => hs x f (by rw [hg, he])
      rw [eq_of_clean hw hv h]
  · rfl

end Scope

end LiveMarkup
