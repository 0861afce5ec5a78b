import Mathlib.Data.List.Nodup
import LiveMarkup.Proofs.Eval.Scopes

/-! Which properties of a scope are public, and in which order. Writing never takes a property away
nor hides one that is public. -/

namespace LiveMarkup

variable {x y : String} {v w : Value} {a b c s : Scope}

namespace Bindings

variable {bs bs' : Bindings}

theorem get?_isSome_iff : (get? x bs).isSome = true ↔ x ∈ bs.map (·.1) := by
  induction bs with
  | nil => simp [get?]
  | cons b bs ih =>
    obtain ⟨y, w⟩ := b
    by_cases hy : y = x
    · simp [get?, hy]
    · rw [get?, if_neg hy, ih, List.map_cons, List.mem_cons]
      exact (or_iff_right (Ne.symm hy)).symm

/-- A name can be set exactly if there is a binding of it. -/
private theorem set?_eq_none_iff : set? x v bs = none ↔ x ∉ bs.map (·.1) := by
  rw [← get?_isSome_iff, ← set?_isSome x v bs, Option.not_isSome_iff_eq_none]

private theorem mem_of_set? (h : set? x v bs = some bs') : x ∈ bs.map (·.1) := by
  by_contra hx
  rw [set?_eq_none_iff.2 hx] at h
  cases h

private theorem map_fst_erase (x : String) (bs : Bindings) :
    (erase x bs).map (·.1) = (bs.map (·.1)).filter (· != x) := by
  rw [erase, List.filter_map]
  rfl

end Bindings

namespace Scope

/-- No name stands twice, neither in one place nor as public and internal. -/
structure Sane (s : Scope) : Prop where
  shown : s.keys.Nodup
  internal : (s.internal.map (·.1)).Nodup
  apart : ∀ x ∈ s.keys, x ∉ s.internal.map (·.1)

/-! The public names. -/

theorem mem_keys_iff : x ∈ s.keys ↔ s.isPublic x = true := Bindings.get?_isSome_iff.symm

/-- A public property has the value that it has for programs, and other properties have none. -/
theorem getPublic?_eq (x : String) (s : Scope) :
    s.getPublic? x = if s.isPublic x then s.get? x else none := by
  rw [getPublic?, isPublic, get?]
  cases s.shown.get? x <;> rfl

theorem keys_put (x : String) (v : Value) (s : Scope) : (s.put x v).keys = s.keys := by
  unfold put
  split
  · next h => exact Bindings.map_fst_set? h
  · split <;> rfl

private theorem keys_putPublic (x : String) (v : Value) (s : Scope) :
    (s.putPublic x v).keys = if x ∈ s.keys then s.keys else s.keys ++ [x] := by
  unfold putPublic
  split
  · next h =>
    have hx : x ∈ s.keys := Bindings.mem_of_set? h
    rw [if_pos hx]
    exact Bindings.map_fst_set? h
  · next h =>
    have hx : x ∉ s.keys := Bindings.set?_eq_none_iff.1 h
    rw [if_neg hx, keys, List.map_append]
    rfl

theorem isPublic_put (x : String) (v : Value) (s : Scope) (y : String) :
    (s.put x v).isPublic y = s.isPublic y := by
  rw [Bool.eq_iff_iff, ← mem_keys_iff, keys_put, mem_keys_iff]

theorem isPublic_putPublic (x : String) (v : Value) (s : Scope) (y : String) :
    (s.putPublic x v).isPublic y = (x == y || s.isPublic y) := by
  rw [Bool.eq_iff_iff, ← mem_keys_iff, keys_putPublic, Bool.or_eq_true, ← mem_keys_iff, beq_iff_eq]
  split
  · next h => exact ⟨.inr, fun hy => hy.elim (fun hxy => hxy ▸ h) id⟩
  · rw [List.mem_append, List.mem_singleton, or_comm, eq_comm]

/-- The public names are those that have been given, each where it first stands. -/
theorem keys_putPublic_of_eq {names : List String} (h : s.keys = names.eraseDups) (x : String)
    (v : Value) : (s.putPublic x v).keys = (names ++ [x]).eraseDups := by
  rw [keys_putPublic, List.eraseDups_append, h]
  by_cases hx : x ∈ names
  · rw [if_pos (List.mem_eraseDups.2 hx)]
    simp [List.removeAll, hx]
  · rw [if_neg (fun hm => hx (List.mem_eraseDups.1 hm))]
    simp [List.removeAll, hx, List.eraseDups_cons]

/-- Properties are given by making them public one after the other. -/
theorem ofProps_eq (props : Bindings) :
    ofProps props = props.foldl (fun s p => s.putPublic p.1 p.2) empty := by
  have step (bs : Bindings) (p : String × Value) :
      (⟨bs, []⟩ : Scope).putPublic p.1 p.2 = ⟨(bs.set? p.1 p.2).getD (bs ++ [p]), []⟩ := by
    rw [putPublic]
    cases bs.set? p.1 p.2 <;> rfl
  have all (bs : Bindings) : props.foldl (fun s p => s.putPublic p.1 p.2) (⟨bs, []⟩ : Scope) =
      ⟨props.foldl (fun bs p => (bs.set? p.1 p.2).getD (bs ++ [p])) bs, []⟩ := by
    induction props generalizing bs with
    | nil => rfl
    | cons p props ih => rw [List.foldl_cons, step, ih, List.foldl_cons]
  exact (all []).symm

private theorem keys_foldl_putPublic {names : List String} (h : s.keys = names.eraseDups)
    (props : Bindings) : (props.foldl (fun s p => s.putPublic p.1 p.2) s).keys =
      (names ++ props.map (·.1)).eraseDups := by
  induction props generalizing s names with
  | nil => rw [List.map_nil, List.append_nil, List.foldl_nil, h]
  | cons p props ih =>
    rw [List.foldl_cons, ih (keys_putPublic_of_eq h p.1 p.2), List.append_assoc]
    rfl

theorem keys_ofProps (props : Bindings) :
    (ofProps props).keys = (props.map (·.1)).eraseDups := by
  have hnone : empty.keys = ([] : List String).eraseDups := rfl
  rw [ofProps_eq]
  exact keys_foldl_putPublic hnone props

/-! Writing keeps a scope sane. -/

theorem Sane.put (h : s.Sane) (x : String) (v : Value) : (s.put x v).Sane := by
  unfold Scope.put
  split
  · next shown hs =>
    have hk : shown.map (·.1) = s.keys := Bindings.map_fst_set? hs
    exact ⟨(congrArg List.Nodup hk).mpr h.shown, h.internal, fun y hy => h.apart y (hk ▸ hy)⟩
  · next hs =>
    have hx : x ∉ s.keys := Bindings.set?_eq_none_iff.1 hs
    split
    · next internal hi =>
      have hk : internal.map (·.1) = s.internal.map (·.1) := Bindings.map_fst_set? hi
      exact ⟨h.shown, hk ▸ h.internal, fun y hy => hk ▸ h.apart y hy⟩
    · next hi =>
      have hx' := Bindings.set?_eq_none_iff.1 hi
      refine ⟨h.shown, ?_, fun y hy => ?_⟩
      · rw [List.map_append]
        exact h.internal.append (List.nodup_singleton x) (by simpa using hx')
      · rw [List.map_append, List.mem_append, not_or]
        refine ⟨h.apart y hy, ?_⟩
        rintro hm
        cases List.mem_singleton.1 hm
        exact hx hy

theorem Sane.putPublic (h : s.Sane) (x : String) (v : Value) : (s.putPublic x v).Sane := by
  unfold Scope.putPublic
  split
  · next shown hs =>
    have hk : shown.map (·.1) = s.keys := Bindings.map_fst_set? hs
    exact ⟨(congrArg List.Nodup hk).mpr h.shown, h.internal, fun y hy => h.apart y (hk ▸ hy)⟩
  · next hs =>
    have hx : x ∉ s.keys := Bindings.set?_eq_none_iff.1 hs
    refine ⟨?_, ?_, fun y hy => ?_⟩
    · rw [keys, List.map_append]
      exact h.shown.append (List.nodup_singleton x) (by simpa using hx)
    · rw [Bindings.map_fst_erase]
      exact h.internal.filter _
    · rw [Bindings.map_fst_erase, List.mem_filter]
      rw [keys, List.map_append, List.mem_append] at hy
      rcases hy with hy | hy
      · exact fun hm => h.apart y hy hm.1
      · simp [List.mem_singleton.1 hy]

theorem sane_ofProps (props : Bindings) : (ofProps props).Sane := by
  have all (s : Scope) (h : s.Sane) : (props.foldl (fun s p => s.putPublic p.1 p.2) s).Sane := by
    induction props generalizing s with
    | nil => exact h
    | cons p props ih => exact ih _ (h.putPublic p.1 p.2)
  rw [ofProps_eq]
  exact all empty ⟨List.nodup_nil, List.nodup_nil, by simp [keys, empty]⟩

/-! What is there stays. -/

/-- Every property of the earlier scope is one of the later, and the names that were public are the
first of those that are. -/
structure Older (a b : Scope) : Prop where
  contains : ∀ x, a.contains x = true → b.contains x = true
  keys : a.keys <+: b.keys

theorem Older.trans (h : Older a b) (h' : Older b c) : Older a c :=
  ⟨fun x hx => h'.contains x (h.contains x hx), h.keys.trans h'.keys⟩

theorem Older.isPublic (h : Older a b) (hx : a.isPublic x = true) : b.isPublic x = true :=
  mem_keys_iff.1 (h.keys.subset (mem_keys_iff.2 hx))

theorem older_put (x : String) (v : Value) (s : Scope) : Older s (s.put x v) := by
  refine ⟨fun y hy => ?_, (keys_put x v s).symm ▸ List.prefix_rfl⟩
  rw [Scope.contains, get?_put]
  split
  · rfl
  · exact hy

theorem older_putPublic (x : String) (v : Value) (s : Scope) : Older s (s.putPublic x v) := by
  refine ⟨fun y hy => ?_, ?_⟩
  · rw [Scope.contains, get?_putPublic]
    split
    · rfl
    · exact hy
  · rw [keys_putPublic]
    split
    · exact List.prefix_rfl
    · exact List.prefix_append _ _

/-! The public properties as JSON. -/

private theorem get?_foldl_insert {β : Type} {es : List (String × β)} (h : (es.map (·.1)).Nodup)
    (d : Dictionary β) (x : String) : (es.foldl (fun d e => d.insert e.1 e.2) d).get? x =
      ((es.find? fun e => e.1 == x).map (·.2)).or (d.get? x) := by
  induction es generalizing d with
  | nil => rfl
  | cons e es ih =>
    obtain ⟨he, h⟩ := List.nodup_cons.1 h
    rw [List.foldl_cons, ih h, Dictionary.get?_insert, List.find?_cons]
    by_cases hx : e.1 = x
    · have hnone : es.find? (fun e => e.1 == x) = none := by
        rw [List.find?_eq_none]
        intro b hb hbx
        have hbe : b.1 = e.1 := (beq_iff_eq.1 hbx).trans hx.symm
        exact he (List.mem_map.2 ⟨b, hb, hbe⟩)
      simp [hx, hnone]
    · have hbeq : (e.1 == x) = false := by simpa using hx
      rw [if_neg hx, hbeq]

private theorem find?_map_toJson (x : String) (bs : Bindings) :
    ((bs.map fun p => (p.1, p.2.toJson)).find? fun e => e.1 == x).map (·.2) =
      (bs.get? x).map Value.toJson := by
  induction bs with
  | nil => rfl
  | cons b bs ih =>
    by_cases hb : b.1 = x
    · simp [Bindings.get?, hb]
    · simpa [Bindings.get?, hb, List.find?_cons] using ih

/-- The object has an entry for every public property, which stands for its value, and no others. -/
theorem Sane.toJson (h : s.Sane) : ∃ entries : Dictionary Json, s.toJson = .object entries ∧
    entries.Sorted ∧ ∀ x, entries.get? x = (s.getPublic? x).map Value.toJson := by
  refine ⟨_, rfl, Dictionary.sorted_ofEntries _, fun x => ?_⟩
  have hkeys : ((s.shown.map fun p => (p.1, p.2.toJson)).map (·.1)).Nodup := by
    rw [List.map_map]
    exact h.shown
  rw [Dictionary.ofEntries, get?_foldl_insert hkeys, find?_map_toJson, Dictionary.get?_nil,
    Option.or_none, Scope.getPublic?]

end Scope

/-! Scopes as tables. -/

/-- A scope kept in two parts that have to go together: a table of the values, with a flag on those
that are public, and the names in the order in which they became so. -/
structure Register where
  entry : String → Option (Value × Bool)
  order : List String

/-- The table with a value for a name. The flag may be raised, which puts the name at the end of the
order, but is never lowered. -/
def Register.write (isPublic : Bool) (x : String) (v : Value) (r : Register) : Register :=
  let flagged := (r.entry x).any (·.2)
  { entry := fun y => if x = y then some (v, flagged || isPublic) else r.entry y
    order := if isPublic && !flagged then r.order ++ [x] else r.order }

namespace Scope

def register (s : Scope) : Register := ⟨fun x => (s.get? x).map fun v => (v, s.isPublic x), s.keys⟩

private theorem any_register (x : String) (s : Scope) :
    (s.register.entry x).any (·.2) = s.isPublic x := by
  show ((s.get? x).map fun v => (v, s.isPublic x)).any (·.2) = s.isPublic x
  unfold isPublic Scope.get?
  cases s.shown.get? x <;> cases s.internal.get? x <;> rfl

private theorem write_register (p : Bool) (x : String) (v : Value) (s : Scope) :
    s.register.write p x v =
      { entry := fun y => if x = y then some (v, s.isPublic x || p) else s.register.entry y
        order := if p && !s.isPublic x then s.keys ++ [x] else s.keys } := by
  rw [Register.write, any_register]
  rfl

/-- The flags and the order go together whatever is written: what happens to the public names is what
happens to the table. -/
theorem register_put (x : String) (v : Value) (s : Scope) :
    (s.put x v).register = s.register.write false x v := by
  rw [write_register, register, keys_put]
  refine congrArg₂ Register.mk (funext fun y => ?_) rfl
  rw [get?_put, isPublic_put]
  by_cases hxy : x = y <;> simp [hxy, register]

theorem register_putPublic (x : String) (v : Value) (s : Scope) :
    (s.putPublic x v).register = s.register.write true x v := by
  rw [write_register, register, keys_putPublic]
  refine congrArg₂ Register.mk (funext fun y => ?_) ?_
  · rw [get?_putPublic, isPublic_putPublic]
    by_cases hxy : x = y
    · simp [hxy]
    · simp [hxy, beq_eq_false_iff_ne.2 hxy, register]
  · by_cases hx : s.isPublic x = true
    · simp [hx, mem_keys_iff]
    · simp [hx, mem_keys_iff]

end Scope

end LiveMarkup
