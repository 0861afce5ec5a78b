import LiveMarkup.Scope
import LiveMarkup.Value.Method

/-! Recasting of functions: lambdas are made into others, all else stays as it is. Since lambdas are told
apart by where they were made and otherwise only called, this goes with whatever can be done to values. -/

namespace LiveMarkup

/-- What lambdas are made into: other parameters, another body and other captured bindings, at a site that is
that of no other lambda. -/
structure Recasting where
  site : Site → Site
  injective : Function.Injective site
  lambda : Site → List String → Expr → List (String × Value) → List String × Expr × List (String × Value)

private theorem Recasting.site_beq (ρ : Recasting) (s t : Site) :
    (ρ.site s == ρ.site t) = (s == t) := by
  rw [Bool.eq_iff_iff, beq_iff_eq, beq_iff_eq, ρ.injective.eq_iff]

namespace Value

mutual

def recast (ρ : Recasting) : Value → Value
  | null => null
  | bool b => bool b
  | int n => int n
  | float x => float x
  | string s => string s
  | list items => list (recastItems ρ items)
  | hash entries => hash (recastEntries ρ entries)
  | lambda site params body captured =>
    let made := ρ.lambda site params body (recastEntries ρ captured)
    lambda (ρ.site site) made.1 made.2.1 made.2.2
  | native id => native id

def recastItems (ρ : Recasting) : List Value → List Value
  | [] => []
  | v :: vs => recast ρ v :: recastItems ρ vs

def recastEntries (ρ : Recasting) : List (String × Value) → List (String × Value)
  | [] => []
  | (k, v) :: es => (k, recast ρ v) :: recastEntries ρ es

end

def recastValues (ρ : Recasting) (es : List (String × Value)) : List (String × Value) :=
  es.map fun e => (e.1, recast ρ e.2)

variable {ρ : Recasting}

private theorem recastItems_eq_map (ρ : Recasting) (vs : List Value) :
    recastItems ρ vs = vs.map (recast ρ) := by
  induction vs with
  | nil => rfl
  | cons v vs ih => rw [recastItems, ih, List.map_cons]

theorem recastEntries_eq (ρ : Recasting) (es : List (String × Value)) :
    recastEntries ρ es = recastValues ρ es := by
  induction es with
  | nil => rfl
  | cons e es ih => rw [recastEntries, ih, recastValues, recastValues, List.map_cons]

/-! What does not depend on the insides of lambdas. -/

@[simp] theorem recast_literal (v : Literal) : recast ρ v.value = v.value := by
  cases v <;> rfl

@[simp] theorem truthy_recast (v : Value) : (recast ρ v).truthy = v.truthy := by
  cases v with
  | list items => cases items <;> rfl
  | hash entries => cases entries <;> rfl
  | _ => rfl

@[simp] theorem isComposite_recast (v : Value) : (recast ρ v).isComposite = v.isComposite := by
  cases v <;> rfl

@[simp] theorem isFunction_recast (v : Value) : (recast ρ v).isFunction = v.isFunction := by
  cases v <;> rfl

mutual

@[simp] theorem toJson_recast (v : Value) : (recast ρ v).toJson = v.toJson := by
  cases v with
  | list items => rw [recast, toJson, toJson, itemsToJson_recast]
  | hash entries => rw [recast, toJson, toJson, entriesToJson_recast]
  | _ => rfl

theorem itemsToJson_recast (vs : List Value) : itemsToJson (recastItems ρ vs) = itemsToJson vs := by
  cases vs with
  | nil => rfl
  | cons v vs => rw [recastItems, itemsToJson, itemsToJson, toJson_recast, itemsToJson_recast]

private theorem entriesToJson_recast (es : List (String × Value)) :
    entriesToJson (recastEntries ρ es) = entriesToJson es := by
  cases es with
  | nil => rfl
  | cons e es => rw [recastEntries, entriesToJson, entriesToJson, toJson_recast, entriesToJson_recast]

end

mutual

@[simp] theorem markup_recast (v : Value) : (recast ρ v).markup = v.markup := by
  cases v with
  | list items => rw [recast, markup, markup, markupItems_recast]
  | hash entries => rw [recast, markup, markup, entriesToJson_recast]
  | _ => rfl

private theorem markupItems_recast (vs : List Value) :
    markupItems (recastItems ρ vs) = markupItems vs := by
  cases vs with
  | nil => rfl
  | cons v vs => rw [recastItems, markupItems, markupItems, markup_recast, markupItems_recast]

end

mutual

@[simp] theorem shown_recast (v : Value) : (recast ρ v).shown = v.shown := by
  cases v with
  | list items => rw [recast, shown, shown, shownItems_recast]
  | hash entries => rw [recast, shown, shown, entriesToJson_recast]
  | _ => rfl

theorem shownItems_recast (vs : List Value) : shownItems (recastItems ρ vs) = shownItems vs := by
  cases vs with
  | nil => rfl
  | cons v vs => rw [recastItems, shownItems, shownItems, shown_recast, shownItems_recast]

end

mutual

/-- Values are equal after relocation exactly if they were before. -/
@[simp] theorem same_recast (v w : Value) : (recast ρ v).same (recast ρ w) = v.same w := by
  cases v with
  | list items =>
    cases w with
    | list items' => rw [recast, recast, same, same, sameItems_recast]
    | _ => rfl
  | hash entries =>
    cases w with
    | hash entries' => rw [recast, recast, same, same, sameEntries_recast]
    | _ => rfl
  | lambda site params body captured =>
    cases w with
    | lambda site' params' body' captured' => rw [recast, recast, same, same, ρ.site_beq]
    | _ => rfl
  | _ => cases w <;> rfl

theorem sameItems_recast (vs ws : List Value) :
    sameItems (recastItems ρ vs) (recastItems ρ ws) = sameItems vs ws := by
  cases vs with
  | nil => cases ws <;> rfl
  | cons v vs =>
    cases ws with
    | nil => rfl
    | cons w ws =>
      rw [recastItems, recastItems, sameItems, sameItems, same_recast, sameItems_recast]

theorem sameEntries_recast (vs ws : List (String × Value)) :
    sameEntries (recastEntries ρ vs) (recastEntries ρ ws) = sameEntries vs ws := by
  cases vs with
  | nil => cases ws <;> rfl
  | cons v vs =>
    cases ws with
    | nil => rfl
    | cons w ws =>
      rw [recastEntries, recastEntries, sameEntries, sameEntries, same_recast, sameEntries_recast]

end

@[simp] theorem compare?_recast (v w : Value) : (recast ρ v).compare? (recast ρ w) = v.compare? w := by
  cases v <;> cases w <;> rfl

/-! Operators. -/

@[simp] theorem recast_list (items : List Value) :
    recast ρ (list items) = list (items.map (recast ρ)) := by
  rw [recast, recastItems_eq_map]

@[simp] theorem recast_hash (entries : List (String × Value)) :
    recast ρ (hash entries) = hash (recastValues ρ entries) := by
  rw [recast, recastEntries_eq]

@[simp] theorem recast_null : recast ρ null = null := rfl

@[simp] theorem recast_bool (b : Bool) : recast ρ (bool b) = bool b := rfl

@[simp] theorem recast_int (n : Int64) : recast ρ (int n) = int n := rfl

@[simp] theorem recast_float (x : Float) : recast ρ (float x) = float x := rfl

@[simp] theorem recast_string (s : String) : recast ρ (string s) = string s := rfl

private theorem add_string (s : String) (w : Value) : (string s).add w = string (s ++ w.markup) := by
  cases w <;> rfl

private theorem add_list (items : List Value) (w : Value) :
    (list items).add w = list (items ++ [w]) := by
  cases w <;> rfl

private theorem add_recast (v w : Value) : (recast ρ v).add (recast ρ w) = recast ρ (v.add w) := by
  cases v with
  | string s => rw [recast_string, add_string, add_string, markup_recast, recast_string]
  | list items => rw [recast_list, add_list, add_list, recast_list, List.map_append]; rfl
  | _ =>
    cases w with
    | string s => first | rfl | exact congrArg (fun t => string (t ++ s)) (markup_recast _)
    | _ => rfl

theorem sub_list (items : List Value) (w : Value) :
    (list items).sub w = list (items.filter fun v => !v.same w) := by
  cases w <;> rfl

private theorem sub_recast (v w : Value) : (recast ρ v).sub (recast ρ w) = recast ρ (v.sub w) := by
  cases v with
  | list items =>
    rw [recast_list, sub_list, sub_list, recast_list, List.filter_map]
    simp only [Function.comp_def, same_recast]
  | _ => cases w <;> rfl

private theorem mul_recast (v w : Value) : (recast ρ v).mul (recast ρ w) = recast ρ (v.mul w) := by
  cases v with
  | list items =>
    cases w with
    | int n =>
      rw [recast_list, recast_int, mul, mul, recast_list, repeatList, repeatList]
      cases items with
      | nil => rfl
      | cons v items => simp [List.map_flatten]
    | _ => rfl
  | _ => cases w <;> rfl

private theorem div_recast (v w : Value) :
    (recast ρ v).div (recast ρ w) = (v.div w).map (recast ρ) := by
  cases v with
  | int a =>
    cases w with
    | int b =>
      rw [recast_int, recast_int, div]
      cases checkDivisor a b with
      | error e => rfl
      | ok _ =>
        simp only [Except.map]
        split <;> rfl
    | _ => rfl
  | _ => cases w <;> rfl

private theorem mod_recast (v w : Value) :
    (recast ρ v).mod (recast ρ w) = (v.mod w).map (recast ρ) := by
  cases v with
  | int a =>
    cases w with
    | int b =>
      rw [recast_int, recast_int, mod]
      cases checkDivisor a b <;> rfl
    | _ => rfl
  | _ => cases w <;> rfl

theorem unary_recast (op : UnaryOp) (v : Value) : unary op (recast ρ v) = recast ρ (unary op v) := by
  cases op with
  | not => exact congrArg (fun b => bool (!b)) (truthy_recast v)
  | negate => cases v <;> rfl
  | plus =>
    cases v with
    | string s =>
      have hnumber : recast ρ (number s) = number s := by
        rw [number]
        split
        · rfl
        · split <;> rfl
      exact hnumber.symm
    | _ => rfl

theorem binary_recast (op : BinaryOp) (v w : Value) :
    binary op (recast ρ v) (recast ρ w) = (binary op v w).map (recast ρ) := by
  cases op with
  | or | and =>
    simp only [binary, truthy_recast, Except.map]
    split <;> rfl
  | equal | notEqual => simp only [binary, same_recast]; rfl
  | greater | greaterEqual | less | lessEqual => simp only [binary, inOrder, compare?_recast]; rfl
  | add => exact congrArg Except.ok (add_recast v w)
  | sub => exact congrArg Except.ok (sub_recast v w)
  | mul => exact congrArg Except.ok (mul_recast v w)
  | div => exact div_recast v w
  | mod => exact mod_recast v w

/-! Members and methods. -/

theorem getD_null (o : Option Value) : (o.map (recast ρ)).getD null = recast ρ (o.getD null) := by
  cases o <;> rfl

theorem get?_recastValues (es : List (String × Value)) (key : String) :
    Dictionary.get? (recastValues ρ es) key = (Dictionary.get? es key).map (recast ρ) := by
  induction es with
  | nil => rfl
  | cons e es ih =>
    rw [recastValues, List.map_cons, Dictionary.get?_cons, ← recastValues, ih, Dictionary.get?_cons]
    split <;> rfl

private theorem insert_recastValues (key : String) (v : Value) (es : List (String × Value)) :
    Dictionary.insert key (recast ρ v) (recastValues ρ es) = recastValues ρ (Dictionary.insert key v es) := by
  induction es with
  | nil => rfl
  | cons e es ih =>
    rw [recastValues, List.map_cons, Dictionary.insert, ← recastValues, ih, Dictionary.insert]
    split
    · rfl
    · split <;> rfl

theorem ofEntries_recastValues (es : List (String × Value)) :
    Dictionary.ofEntries (recastValues ρ es) = recastValues ρ (Dictionary.ofEntries es) := by
  have step (d : List (String × Value)) : (recastValues ρ es).foldl (fun d e => Dictionary.insert e.1 e.2 d)
      (recastValues ρ d) = recastValues ρ (es.foldl (fun d e => Dictionary.insert e.1 e.2 d) d) := by
    induction es generalizing d with
    | nil => rfl
    | cons e es ih => rw [List.foldl_cons, ← ih, ← insert_recastValues]; rfl
  exact step []

private theorem element_recast (items : List Value) (i : Nat) :
    element (items.map (recast ρ)) i = recast ρ (element items i) := by
  rw [element, element, List.getElem?_map, getD_null]

theorem field?_recast (name : String) (v : Value) :
    (recast ρ v).field? name = (v.field? name).map (recast ρ) := by
  cases v with
  | list items =>
    rw [recast_list, field?, field?, Option.map_map]
    exact congrArg (Option.map · _) (funext fun i => element_recast items i)
  | hash entries => exact (recast_hash entries).symm ▸ get?_recastValues entries name
  | _ => rfl

private theorem pairs_recastValues (es : List (String × Value)) :
    pairs (recastValues ρ es) = (pairs es).map (recast ρ) := by
  simp [pairs, recastValues]

private theorem enumerate_recast (items : List Value) :
    enumerate (items.map (recast ρ)) = (enumerate items).map (recast ρ) := by
  simp [enumerate, List.zipIdx_map]

private theorem flatten_recast (items : List Value) :
    flatten (items.map (recast ρ)) = (flatten items).map (recast ρ) := by
  rw [flatten, flatten, List.flatMap_map, List.map_flatMap]
  refine congrArg (List.flatMap · items) (funext fun v => ?_)
  cases v with
  | list inner => exact recastItems_eq_map ρ inner
  | _ => rfl

private theorem separator_recast (args : List Value) :
    separator (args.map (recast ρ)) = separator args := by
  match args with
  | [] | _ :: _ :: _ => rfl
  | [v] => exact markup_recast v

private theorem functionArgument_recast (method : String) (args : List Value) :
    functionArgument method (args.map (recast ρ)) = (functionArgument method args).map (recast ρ) := by
  cases args with
  | nil => rfl
  | cons v args =>
    rw [List.map_cons, functionArgument, functionArgument, isFunction_recast]
    split <;> rfl

end Value

def Invocation.recast (ρ : Recasting) : Invocation → Invocation
  | value v => value (v.recast ρ)
  | mapping f items => mapping (f.recast ρ) (items.map (Value.recast ρ))
  | filtering f items => filtering (f.recast ρ) (items.map (Value.recast ρ))

namespace Value

variable {ρ : Recasting}

private theorem sum_recast (items : List Value) (v : Value) :
    (items.map (recast ρ)).foldl add (recast ρ v) = recast ρ (items.foldl add v) := by
  induction items generalizing v with
  | nil => rfl
  | cons w items ih => rw [List.map_cons, List.foldl_cons, add_recast, ih, List.foldl_cons]

private theorem map_recast_value (r : Except EvalError Value) :
    (r.map (recast ρ)).map Invocation.value = (r.map Invocation.value).map (Invocation.recast ρ) := by
  cases r <;> rfl

private theorem rangeList_recast (a b : Int64) : (rangeList a b).map (recast ρ) = rangeList a b := by
  simp [rangeList]

private theorem invokeInt_recast (n : Int64) (name : String) :
    (invokeInt n name).map (recast ρ) = invokeInt n name := by
  unfold invokeInt
  split <;> simp [Except.map, rangeList_recast]

private theorem invokeFloat_recast (x : Float) (name : String) :
    (invokeFloat x name).map (recast ρ) = invokeFloat x name := by
  unfold invokeFloat
  split <;> rfl

private theorem invokeString_recast (s name : String) (args : List Value) :
    invokeString s name (args.map (recast ρ)) = (invokeString s name args).map (recast ρ) := by
  unfold invokeString
  split
  case h_12 | h_13 =>
    match args with
    | [] | _ :: _ :: _ => rfl
    | [needle] =>
      exact congrArg (fun t => Except.ok (bool (Text.occursIn t.toList s.toList))) (markup_recast needle)
  case h_14 => simp [Except.map, separator_recast]
  case h_15 | h_16 => cases Decimal.readInt64? (Text.trim s.toList) <;> rfl
  all_goals rfl

private theorem joined_recast (items : List Value) :
    markupItems (items.map (recast ρ)) = markupItems items := by
  rw [← recastItems_eq_map, markupItems_recast]

private theorem any_same_recast (items : List Value) (v : Value) :
    ((items.map (recast ρ)).any fun w => w.same (recast ρ v)) = items.any fun w => w.same v := by
  simp [List.any_map, Function.comp_def]

private theorem invokeList_recast (items : List Value) (name : String) (args : List Value) :
    invokeList (items.map (recast ρ)) name (args.map (recast ρ)) =
      (invokeList items name args).map (Invocation.recast ρ) := by
  unfold invokeList
  split
  · exact congrArg (Except.ok ∘ Invocation.value) (element_recast items _)
  · split
    case h_5 | h_6 =>
      match args with
      | [] | _ :: _ :: _ => rfl
      | [v] => exact congrArg (Except.ok ∘ Invocation.value ∘ bool) (any_same_recast items v)
    case h_14 | h_15 =>
      rw [functionArgument_recast]
      cases functionArgument _ args <;> rfl
    all_goals
      simp [Except.map, Invocation.recast, enumerate_recast, flatten_recast, separator_recast,
        joined_recast, getD_null, ← sum_recast]

private theorem invokeHash_recast (es : List (String × Value)) (name : String) :
    invokeHash (recastValues ρ es) name = recast ρ (invokeHash es name) := by
  unfold invokeHash
  split
  case h_3 => rw [pairs_recastValues, recast_list]
  case h_6 => rw [get?_recastValues, getD_null]
  all_goals simp [recastValues]

theorem invoke_recast (v : Value) (name : String) (args : List Value) :
    (recast ρ v).invoke name (args.map (recast ρ)) =
      (v.invoke name args).map (Invocation.recast ρ) := by
  cases v with
  | int n => rw [recast_int, invoke, invoke, ← map_recast_value, invokeInt_recast]
  | float x => rw [recast_float, invoke, invoke, ← map_recast_value, invokeFloat_recast]
  | string s => rw [recast_string, invoke, invoke, invokeString_recast, map_recast_value]
  | list items => rw [recast_list, invoke, invoke, invokeList_recast]
  | hash es =>
    have hhash := congrArg (Except.ok (ε := EvalError) ∘ Invocation.value) (invokeHash_recast (ρ := ρ) es name)
    rw [recast_hash]
    exact hhash
  | _ => rfl

private theorem length_recast (v : Value) : (recast ρ v).length = recast ρ v.length := by
  have h := invoke_recast (ρ := ρ) v "len" []
  rw [List.map_nil] at h
  rw [length, h, length]
  cases v.invoke "len" [] with
  | error e => rfl
  | ok r => cases r <;> rfl

/-! What every scope has, and what loops run over. -/

private theorem range_recast (a b : Int64) :
    recast ρ (list (rangeList a b)) = list (rangeList a b) := by
  rw [recast_list, rangeList_recast]

theorem global?_recast (name : String) (args : List Value) :
    global? name (args.map (recast ρ)) = (global? name args).map (recast ρ) := by
  unfold global?
  split
  · match args with
    | [] => rfl
    | [v] | [v, _] | v :: _ :: _ :: _ => cases v <;> rfl
  · match args with
    | [] => rfl
    | [v] =>
      cases v with
      | int n => exact congrArg some (range_recast 0 n).symm
      | _ => rfl
    | v :: w :: more =>
      cases v with
      | int m =>
        cases w with
        | int n =>
          cases more with
          | nil => exact congrArg some (range_recast m n).symm
          | cons => rfl
        | _ => rfl
      | _ => rfl
  · match args with
    | [] | _ :: _ :: _ => rfl
    | [v] => exact congrArg some (length_recast v)
  · match args with
    | [] | _ :: _ :: _ => rfl
    | [v] => exact congrArg (fun j : Json => some (string j.text)) (toJson_recast v)
  · rfl

theorem iterate_recast (v : Value) :
    (recast ρ v).iterate = v.iterate.map (List.map (recast ρ)) := by
  cases v with
  | list items => exact congrArg Except.ok (recastItems_eq_map ρ items)
  | hash es =>
    rw [recast_hash]
    exact congrArg Except.ok (pairs_recastValues es)
  | lambda site params body captured =>
    rw [iterate, iterate, shown_recast]
    · rfl
    all_goals nofun
  | _ => rfl

end Value

/-! Bindings. -/

namespace Bindings

variable {ρ : Recasting}

theorem get?_recastValues (x : String) (bs : Bindings) :
    get? x (Value.recastValues ρ bs) = (get? x bs).map (Value.recast ρ) := by
  induction bs with
  | nil => rfl
  | cons b bs ih =>
    rw [Value.recastValues, List.map_cons, get?, ← Value.recastValues, ih, get?]
    split <;> rfl

theorem set?_recastValues (x : String) (v : Value) (bs : Bindings) :
    set? x (v.recast ρ) (Value.recastValues ρ bs) = (set? x v bs).map (Value.recastValues ρ) := by
  induction bs with
  | nil => rfl
  | cons b bs ih =>
    rw [Value.recastValues, List.map_cons, set?, ← Value.recastValues, ih, set?]
    split
    · rfl
    · cases set? x v bs <;> rfl

end Bindings

end LiveMarkup
