import LiveMarkup.Proofs.Expr.Move
import LiveMarkup.Proofs.Value.Recast

/-! Relocation of functions. Lambdas are told apart by the sources and places that made them; giving
these other numbers and places, different ones for different lambdas, changes nothing else. -/

namespace LiveMarkup

/-- New numbers for sources and new places in them, such that no two places become one. -/
structure Relocation where
  source : Nat → Nat
  place : Nat → Pos → Pos
  injective : ∀ {m n p q}, source m = source n → place m p = place n q → m = n ∧ p = q

def Relocation.site (ρ : Relocation) (s : Site) : Site := ⟨ρ.source s.source, ρ.place s.source s.arrow⟩

private theorem Relocation.site_beq (ρ : Relocation) (s t : Site) :
    (ρ.site s == ρ.site t) = (s == t) := by
  have hiff : ρ.site s = ρ.site t ↔ s = t := by
    refine ⟨fun h => ?_, fun h => h ▸ rfl⟩
    obtain ⟨m, p⟩ := s
    obtain ⟨n, q⟩ := t
    obtain ⟨rfl, rfl⟩ := ρ.injective (congrArg Site.source h) (congrArg Site.arrow h)
    rfl
  rw [Bool.eq_iff_iff, beq_iff_eq, beq_iff_eq, hiff]

/-- The source and all its places stay as they are. -/
def Relocation.Fixes (ρ : Relocation) (n : Nat) : Prop := ρ.source n = n ∧ ∀ p, ρ.place n p = p

def Relocation.refl : Relocation where
  source n := n
  place _ p := p
  injective hm hp := ⟨hm, hp⟩

namespace Value

mutual

def relocate (ρ : Relocation) : Value → Value
  | null => null
  | bool b => bool b
  | int n => int n
  | float x => float x
  | string s => string s
  | list items => list (relocateItems ρ items)
  | hash entries => hash (relocateEntries ρ entries)
  | lambda site params body captured =>
    lambda (ρ.site site) params (body.move (ρ.place site.source)) (relocateEntries ρ captured)
  | native id => native id

def relocateItems (ρ : Relocation) : List Value → List Value
  | [] => []
  | v :: vs => relocate ρ v :: relocateItems ρ vs

def relocateEntries (ρ : Relocation) : List (String × Value) → List (String × Value)
  | [] => []
  | (k, v) :: es => (k, relocate ρ v) :: relocateEntries ρ es

end

def relocated (ρ : Relocation) (es : List (String × Value)) : List (String × Value) :=
  es.map fun e => (e.1, relocate ρ e.2)

variable {ρ : Relocation}

private theorem relocateItems_eq_map (ρ : Relocation) (vs : List Value) :
    relocateItems ρ vs = vs.map (relocate ρ) := by
  induction vs with
  | nil => rfl
  | cons v vs ih => rw [relocateItems, ih, List.map_cons]

theorem relocateEntries_eq (ρ : Relocation) (es : List (String × Value)) :
    relocateEntries ρ es = relocated ρ es := by
  induction es with
  | nil => rfl
  | cons e es ih => rw [relocateEntries, ih, relocated, relocated, List.map_cons]

mutual

def sources : Value → List Nat
  | list items => sourcesOfItems items
  | hash entries => sourcesOfEntries entries
  | lambda site _ _ captured => site.source :: sourcesOfEntries captured
  | _ => []

def sourcesOfItems : List Value → List Nat
  | [] => []
  | v :: vs => sources v ++ sourcesOfItems vs

def sourcesOfEntries : List (String × Value) → List Nat
  | [] => []
  | (_, v) :: es => sources v ++ sourcesOfEntries es

end

mutual

/-- A value without lambdas of sources that change stays as it is. -/
theorem relocate_eq_self (v : Value) (h : ∀ n ∈ v.sources, ρ.Fixes n) : v.relocate ρ = v := by
  cases v with
  | list items => rw [relocate, relocateItems_eq_self items h]
  | hash entries => rw [relocate, relocateEntries_eq_self entries h]
  | lambda site params body captured =>
    rw [sources, List.forall_mem_cons] at h
    obtain ⟨⟨hsource, hplace⟩, hcaptured⟩ := h
    rw [relocate, relocateEntries_eq_self captured hcaptured, Relocation.site, hsource, funext hplace,
      body.move_id]
  | _ => rfl

theorem relocateItems_eq_self (vs : List Value) (h : ∀ n ∈ sourcesOfItems vs, ρ.Fixes n) :
    relocateItems ρ vs = vs := by
  cases vs with
  | nil => rfl
  | cons v vs =>
    rw [sourcesOfItems, List.forall_mem_append] at h
    rw [relocateItems, relocate_eq_self v h.1, relocateItems_eq_self vs h.2]

private theorem relocateEntries_eq_self (es : List (String × Value))
    (h : ∀ n ∈ sourcesOfEntries es, ρ.Fixes n) :
    relocateEntries ρ es = es := by
  cases es with
  | nil => rfl
  | cons e es =>
    rw [sourcesOfEntries, List.forall_mem_append] at h
    rw [relocateEntries, relocate_eq_self e.2 h.1, relocateEntries_eq_self es h.2]

end

theorem relocate_refl (v : Value) : v.relocate .refl = v :=
  v.relocate_eq_self fun _ _ => ⟨rfl, fun _ => rfl⟩

/-! Relocation is recasting. -/

end Value

def Relocation.recasting (ρ : Relocation) : Recasting where
  site := ρ.site
  injective s t h := beq_iff_eq.1 ((ρ.site_beq s t).symm.trans (beq_iff_eq.2 h))
  lambda site params body captured := (params, body.move (ρ.place site.source), captured)

namespace Value

variable {ρ : Relocation}

mutual

private theorem relocate_eq_recast (v : Value) : relocate ρ v = recast ρ.recasting v := by
  cases v with
  | list items => rw [relocate, recast, relocateItems_eq_recast]
  | hash entries => rw [relocate, recast, relocateEntries_eq_recast]
  | lambda site params body captured =>
    rw [relocate, recast, relocateEntries_eq_recast]
    rfl
  | _ => rfl

theorem relocateItems_eq_recast (vs : List Value) : relocateItems ρ vs = recastItems ρ.recasting vs := by
  cases vs with
  | nil => rfl
  | cons v vs => rw [relocateItems, recastItems, relocate_eq_recast, relocateItems_eq_recast]

theorem relocateEntries_eq_recast (es : List (String × Value)) :
    relocateEntries ρ es = recastEntries ρ.recasting es := by
  cases es with
  | nil => rfl
  | cons e es => rw [relocateEntries, recastEntries, relocate_eq_recast, relocateEntries_eq_recast]

end

theorem relocate_eq (ρ : Relocation) : relocate ρ = recast ρ.recasting := funext relocate_eq_recast

private theorem relocated_eq (ρ : Relocation) : relocated ρ = recastValues ρ.recasting := by
  funext es
  simp only [relocated, recastValues, relocate_eq]

@[simp] theorem relocate_literal (v : Literal) : relocate ρ v.value = v.value := by
  rw [relocate_eq, recast_literal]

@[simp] theorem truthy_relocate (v : Value) : (relocate ρ v).truthy = v.truthy := by
  rw [relocate_eq, truthy_recast]

@[simp] theorem isComposite_relocate (v : Value) : (relocate ρ v).isComposite = v.isComposite := by
  rw [relocate_eq, isComposite_recast]

@[simp] theorem isFunction_relocate (v : Value) : (relocate ρ v).isFunction = v.isFunction := by
  rw [relocate_eq, isFunction_recast]

@[simp] theorem markup_relocate (v : Value) : (relocate ρ v).markup = v.markup := by
  rw [relocate_eq, markup_recast]

@[simp] theorem shown_relocate (v : Value) : (relocate ρ v).shown = v.shown := by
  rw [relocate_eq, shown_recast]

/-- Values are equal after relocation exactly if they were before. -/
@[simp] theorem same_relocate (v w : Value) : (relocate ρ v).same (relocate ρ w) = v.same w := by
  rw [relocate_eq, same_recast]

@[simp] theorem relocate_list (items : List Value) :
    relocate ρ (list items) = list (items.map (relocate ρ)) := by
  rw [relocate, relocateItems_eq_map]

@[simp] theorem relocate_hash (entries : List (String × Value)) :
    relocate ρ (hash entries) = hash (relocated ρ entries) := by
  rw [relocate, relocateEntries_eq]

@[simp] theorem relocate_int (n : Int64) : relocate ρ (int n) = int n := rfl

theorem unary_relocate (op : UnaryOp) (v : Value) : unary op (relocate ρ v) = relocate ρ (unary op v) := by
  rw [relocate_eq, unary_recast]

theorem binary_relocate (op : BinaryOp) (v w : Value) :
    binary op (relocate ρ v) (relocate ρ w) = (binary op v w).map (relocate ρ) := by
  rw [relocate_eq, binary_recast]

theorem getD_relocate (o : Option Value) : (o.map (relocate ρ)).getD null = relocate ρ (o.getD null) := by
  rw [relocate_eq, getD_null]

theorem ofEntries_relocated (es : List (String × Value)) :
    Dictionary.ofEntries (relocated ρ es) = relocated ρ (Dictionary.ofEntries es) := by
  rw [relocated_eq, ofEntries_recastValues]

theorem field?_relocate (name : String) (v : Value) :
    (relocate ρ v).field? name = (v.field? name).map (relocate ρ) := by
  rw [relocate_eq, field?_recast]

end Value

def Invocation.relocate (ρ : Relocation) : Invocation → Invocation
  | value v => value (v.relocate ρ)
  | mapping f items => mapping (f.relocate ρ) (items.map (Value.relocate ρ))
  | filtering f items => filtering (f.relocate ρ) (items.map (Value.relocate ρ))

theorem Invocation.relocate_eq (ρ : Relocation) : Invocation.relocate ρ = Invocation.recast ρ.recasting := by
  funext r
  cases r <;> simp only [relocate, recast, Value.relocate_eq]

namespace Value

variable {ρ : Relocation}

theorem invoke_relocate (v : Value) (name : String) (args : List Value) :
    (relocate ρ v).invoke name (args.map (relocate ρ)) =
      (v.invoke name args).map (Invocation.relocate ρ) := by
  rw [relocate_eq, Invocation.relocate_eq, invoke_recast]

theorem global?_relocate (name : String) (args : List Value) :
    global? name (args.map (relocate ρ)) = (global? name args).map (relocate ρ) := by
  rw [relocate_eq, global?_recast]

theorem iterate_relocate (v : Value) :
    (relocate ρ v).iterate = v.iterate.map (List.map (relocate ρ)) := by
  rw [relocate_eq, iterate_recast]

end Value

/-! Scopes. -/

namespace Bindings

variable {ρ : Relocation}

theorem get?_relocated (x : String) (bs : Bindings) :
    get? x (Value.relocated ρ bs) = (get? x bs).map (Value.relocate ρ) := by
  rw [Value.relocated_eq, Value.relocate_eq, get?_recastValues]

theorem set?_relocated (x : String) (v : Value) (bs : Bindings) :
    set? x (v.relocate ρ) (Value.relocated ρ bs) = (set? x v bs).map (Value.relocated ρ) := by
  rw [Value.relocated_eq, Value.relocate_eq, set?_recastValues]

end Bindings

namespace Scope

variable {ρ : Relocation}

def relocate (ρ : Relocation) (s : Scope) : Scope :=
  ⟨Value.relocated ρ s.shown, Value.relocated ρ s.internal⟩

def sources (s : Scope) : List Nat := Value.sourcesOfEntries (s.shown ++ s.internal)

/-- A scope without lambdas of sources that change stays as it is. -/
theorem relocate_eq_self (s : Scope) (h : ∀ n ∈ s.sources, ρ.Fixes n) : s.relocate ρ = s := by
  have hall := Value.relocateEntries_eq_self _ h
  rw [Value.relocateEntries_eq, Value.relocated, List.map_append] at hall
  obtain ⟨hshown, hinternal⟩ := List.append_inj hall (List.length_map _)
  rw [relocate, Value.relocated, Value.relocated, hshown, hinternal]

theorem get?_relocate (x : String) (s : Scope) :
    (s.relocate ρ).get? x = (s.get? x).map (Value.relocate ρ) := by
  rw [get?, relocate, Bindings.get?_relocated, Bindings.get?_relocated, get?]
  cases s.shown.get? x <;> rfl

theorem put_relocate (x : String) (v : Value) (s : Scope) :
    (s.relocate ρ).put x (v.relocate ρ) = (s.put x v).relocate ρ := by
  rw [put, relocate, Bindings.set?_relocated, put]
  cases s.shown.set? x v with
  | some shown => rfl
  | none =>
    rw [Option.map_none, Bindings.set?_relocated]
    cases s.internal.set? x v with
    | some internal => rfl
    | none => simp [relocate, Value.relocated]

theorem isDirty_relocate (previous : Option Value) (v : Value) :
    isDirty (previous.map (Value.relocate ρ)) (v.relocate ρ) = isDirty previous v := by
  cases previous with
  | none => rfl
  | some w => simp only [Option.map_some, isDirty, Value.isComposite_relocate, Value.same_relocate]

end Scope

end LiveMarkup
