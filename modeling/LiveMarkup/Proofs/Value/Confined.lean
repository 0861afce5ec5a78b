import LiveMarkup.Value.Method

/-! Values whose functions are of a kind: lambdas with certain bodies and certain native functions.
Operators, members, methods and global functions make no function of another kind: they only pass on
those that they are given. -/

namespace LiveMarkup

/-- The functions in a value are lambdas whose bodies are of a kind, and native functions of a kind, and so
are those that the lambdas have captured. -/
inductive Value.Confined (p : Expr → Prop) (n : Nat → Prop) : Value → Prop where
  | null : Confined p n .null
  | bool (b : Bool) : Confined p n (.bool b)
  | int (i : Int64) : Confined p n (.int i)
  | float (x : Float) : Confined p n (.float x)
  | string (s : String) : Confined p n (.string s)
  | list {items : List Value} (h : ∀ v ∈ items, Confined p n v) : Confined p n (.list items)
  | hash {entries : List (String × Value)} (h : ∀ e ∈ entries, Confined p n e.2) :
    Confined p n (.hash entries)
  | lambda (site : Site) (params : List String) {body : Expr} {captured : List (String × Value)}
    (hb : p body) (hc : ∀ b ∈ captured, Confined p n b.2) :
    Confined p n (.lambda site params body captured)
  | native {id : Nat} (h : n id) : Confined p n (.native id)

def Value.Functionless (v : Value) : Prop := v.Confined (fun _ => False) fun _ => False

/-- What a method call comes to has functions of the kind only. -/
inductive Invocation.Confined (p : Expr → Prop) (n : Nat → Prop) : Invocation → Prop where
  | value {v : Value} (h : v.Confined p n) : Confined p n (.value v)
  | mapping {f : Value} {items : List Value} (hf : f.Confined p n) (h : ∀ v ∈ items, v.Confined p n) :
    Confined p n (.mapping f items)
  | filtering {f : Value} {items : List Value} (hf : f.Confined p n) (h : ∀ v ∈ items, v.Confined p n) :
    Confined p n (.filtering f items)

namespace Value

variable {p q : Expr → Prop} {n m : Nat → Prop} {v w : Value}

/-- A result that is made of another one. -/
private theorem map_ok {ε α β : Type} {f : α → β} {r : Except ε α} {b : β} (h : r.map f = .ok b) :
    ∃ a, r = .ok a ∧ f a = b := by
  cases r with
  | error e => cases h
  | ok a => exact ⟨a, rfl, Except.ok.inj h⟩

namespace Confined

private theorem items {items : List Value} (h : (Value.list items).Confined p n) :
    ∀ v ∈ items, v.Confined p n := by
  cases h with
  | list h => exact h

private theorem entries {entries : List (String × Value)} (h : (Value.hash entries).Confined p n) :
    ∀ e ∈ entries, e.2.Confined p n := by
  cases h with
  | hash h => exact h

theorem mono (h : v.Confined p n) (hp : ∀ e, p e → q e) (hn : ∀ id, n id → m id) : v.Confined q m := by
  induction h with
  | null => exact .null
  | bool b => exact .bool b
  | int n => exact .int n
  | float x => exact .float x
  | string s => exact .string s
  | list _ ih => exact .list ih
  | hash _ ih => exact .hash ih
  | lambda site params hb _ ih => exact .lambda site params (hp _ hb) ih
  | native h => exact .native (hn _ h)

theorem literal (l : Literal) : l.value.Confined p n := by
  cases l with
  | null => exact .null
  | bool b => exact .bool b
  | int n => exact .int n
  | float x => exact .float x
  | string s => exact .string s

private theorem getD {o : Option Value} (h : ∀ v ∈ o, v.Confined p n) :
    (o.getD .null).Confined p n := by
  cases o with
  | none => exact .null
  | some v => exact h v rfl

/-! Operators. -/

variable {items args : List Value} {entries : List (String × Value)}

private theorem add (hv : v.Confined p n) (hw : w.Confined p n) : (v.add w).Confined p n := by
  unfold Value.add
  split
  · exact .int _
  · exact .float _
  · exact .float _
  · exact .float _
  · exact .string _
  · refine .list fun u hu => ?_
    rcases List.mem_append.1 hu with hu | hu
    · exact hv.items u hu
    · exact List.mem_singleton.1 hu ▸ hw
  · exact .list (List.forall_mem_cons.2 ⟨hv, hw.items⟩)
  · exact .string _
  · exact .null

private theorem sub (hv : v.Confined p n) : (v.sub w).Confined p n := by
  unfold Value.sub
  split
  · exact .int _
  · exact .float _
  · exact .float _
  · exact .float _
  · exact .string _
  · exact .list fun u hu => hv.items u (List.mem_filter.1 hu).1
  · exact .null

private theorem mul (hv : v.Confined p n) : (v.mul w).Confined p n := by
  unfold Value.mul
  split
  · exact .int _
  · exact .float _
  · exact .float _
  · exact .float _
  · exact .string _
  · exact .string _
  · refine .list fun u hu => ?_
    unfold repeatList at hu
    split at hu
    · cases hu
    · obtain ⟨copy, hcopy, hu⟩ := List.mem_flatten.1 hu
      exact hv.items u (List.eq_of_mem_replicate hcopy ▸ hu)
  · exact .null

private theorem div {u : Value} (h : v.div w = .ok u) : u.Confined p n := by
  unfold Value.div at h
  split at h
  · obtain ⟨_, _, h⟩ := map_ok h
    subst h
    split
    · exact .int _
    · exact .float _
  all_goals cases h
  · exact .float _
  · exact .float _
  · exact .float _
  · exact .null

private theorem mod {u : Value} (h : v.mod w = .ok u) : u.Confined p n := by
  unfold Value.mod at h
  split at h
  · obtain ⟨_, _, h⟩ := map_ok h
    subst h
    exact .int _
  all_goals cases h
  · exact .float _
  · exact .float _
  · exact .float _
  · exact .null

theorem unary (op : UnaryOp) (h : v.Confined p n) : (Value.unary op v).Confined p n := by
  unfold Value.unary
  split
  · exact .bool _
  · exact .int _
  · exact .float _
  · exact .null
  · unfold number
    dsimp only
    split
    · exact .int _
    · split
      · exact .float _
      · exact .null
  · exact h

theorem binary {op : BinaryOp} {u : Value} (hv : v.Confined p n) (hw : w.Confined p n)
    (h : Value.binary op v w = .ok u) : u.Confined p n := by
  cases op with
  | or | and =>
    cases h
    split
    · assumption
    · assumption
  | equal | notEqual | greater | greaterEqual | less | lessEqual =>
    cases h
    exact .bool _
  | add =>
    cases h
    exact hv.add hw
  | sub =>
    cases h
    exact hv.sub
  | mul =>
    cases h
    exact hv.mul
  | div => exact div h
  | mod => exact mod h

/-! Members and methods. -/

theorem get? (h : ∀ e ∈ entries, e.2.Confined p n) (key : String) :
    ∀ v ∈ Dictionary.get? entries key, v.Confined p n := by
  intro v hv
  obtain ⟨e, he, rfl⟩ := Option.map_eq_some_iff.1 hv
  exact h e (List.mem_of_find?_eq_some he)

theorem ofEntries (h : ∀ e ∈ entries, e.2.Confined p n) :
    ∀ e ∈ Dictionary.ofEntries entries, e.2.Confined p n := by
  have hstep (es : List (String × Value)) (d : Dictionary Value) (hes : ∀ e ∈ es, e.2.Confined p n)
      (hd : ∀ e ∈ d, e.2.Confined p n) :
      ∀ e ∈ es.foldl (fun d e => Dictionary.insert e.1 e.2 d) d, e.2.Confined p n := by
    induction es generalizing d with
    | nil => exact hd
    | cons e es ih =>
      obtain ⟨he, hes⟩ := List.forall_mem_cons.1 hes
      refine ih _ hes fun e' he' => ?_
      rcases Dictionary.mem_insert he' with rfl | he'
      · exact he
      · exact hd e' he'
  exact hstep entries [] h fun _ he => nomatch he

private theorem element (h : ∀ v ∈ items, v.Confined p n) (i : Nat) :
    (Value.element items i).Confined p n :=
  getD fun v hv => h v (List.mem_of_getElem? hv)

theorem field? (h : v.Confined p n) (name : String) : ∀ w ∈ v.field? name, w.Confined p n := by
  intro w hw
  unfold Value.field? at hw
  split at hw
  · exact get? h.entries name w hw
  · obtain ⟨i, _, rfl⟩ := Option.map_eq_some_iff.1 hw
    exact element h.items i
  · cases hw

private theorem pairs (h : ∀ e ∈ entries, e.2.Confined p n) :
    ∀ v ∈ Value.pairs entries, v.Confined p n := by
  intro v hv
  obtain ⟨e, he, rfl⟩ := List.mem_map.1 hv
  exact .list (List.forall_mem_cons.2 ⟨.string _, List.forall_mem_singleton.2 (h e he)⟩)

private theorem enumerate (h : ∀ v ∈ items, v.Confined p n) :
    ∀ v ∈ Value.enumerate items, v.Confined p n := by
  intro v hv
  obtain ⟨e, he, rfl⟩ := List.mem_map.1 hv
  have hmem : e.1 ∈ items := List.fst_mem_of_mem_zipIdx he
  exact .list (List.forall_mem_cons.2 ⟨.int _, List.forall_mem_singleton.2 (h e.1 hmem)⟩)

private theorem flatten (h : ∀ v ∈ items, v.Confined p n) :
    ∀ v ∈ Value.flatten items, v.Confined p n := by
  intro v hv
  obtain ⟨w, hw, hv⟩ := List.mem_flatMap.1 hv
  have hc := h w hw
  split at hv
  · exact hc.items v hv
  · exact List.mem_singleton.1 hv ▸ hc

private theorem rangeList (a b : Int64) : ∀ v ∈ Value.rangeList a b, v.Confined p n := by
  intro v hv
  obtain ⟨i, _, rfl⟩ := List.mem_map.1 hv
  exact .int _

private theorem sum (h : ∀ v ∈ items, v.Confined p n) (hv : v.Confined p n) :
    (items.foldl Value.add v).Confined p n := by
  induction items generalizing v with
  | nil => exact hv
  | cons w items ih =>
    obtain ⟨hw, h⟩ := List.forall_mem_cons.1 h
    exact ih h (hv.add hw)

private theorem functionArgument {method : String} (h : ∀ v ∈ args, v.Confined p n)
    (hf : Value.functionArgument method args = .ok v) : v.Confined p n := by
  cases args with
  | nil => cases hf
  | cons w args =>
    simp only [Value.functionArgument] at hf
    split at hf
    · cases hf
      exact h _ List.mem_cons_self
    · cases hf

private theorem invokeInt {i : Int64} {name : String} (h : Value.invokeInt i name = .ok v) :
    v.Confined p n := by
  unfold Value.invokeInt at h
  split at h <;> cases h
  case h_7 => exact .list (rangeList 0 i)
  all_goals constructor

private theorem invokeFloat {x : Float} {name : String} (h : Value.invokeFloat x name = .ok v) :
    v.Confined p n := by
  unfold Value.invokeFloat at h
  split at h <;> cases h <;> constructor

private theorem invokeString {s name : String} (h : Value.invokeString s name args = .ok v) :
    v.Confined p n := by
  unfold Value.invokeString at h
  split at h
  case h_12 | h_13 => split at h <;> cases h <;> exact .bool _
  case h_14 =>
    cases h
    refine .list fun u hu => ?_
    obtain ⟨_, _, rfl⟩ := List.mem_map.1 hu
    exact .string _
  case h_15 | h_16 =>
    cases h
    refine getD fun u hu => ?_
    obtain ⟨n, _, rfl⟩ := Option.map_eq_some_iff.1 hu
    exact .int n
  all_goals cases h
  all_goals constructor

private theorem invokeList {name : String} {r : Invocation} (hi : ∀ v ∈ items, v.Confined p n)
    (ha : ∀ v ∈ args, v.Confined p n) (h : Value.invokeList items name args = .ok r) :
    r.Confined p n := by
  unfold Value.invokeList at h
  split at h
  · cases h
    exact .value (element hi _)
  · split at h
    case h_1 =>
      cases h
      exact .value (.list (enumerate hi))
    case h_2 =>
      cases h
      exact .value (.list (flatten hi))
    case h_3 | h_4 =>
      cases h
      exact .value (.list fun v hv => hi v (List.mem_reverse.1 hv))
    case h_5 | h_6 => split at h <;> cases h <;> exact .value (.bool _)
    case h_10 =>
      cases h
      exact .value (getD fun v hv => hi v (List.mem_of_mem_head? hv))
    case h_11 =>
      cases h
      exact .value (getD fun v hv => hi v (List.mem_of_getLast? hv))
    case h_13 =>
      cases h
      exact .value (sum hi (.int 0))
    case h_14 =>
      obtain ⟨f, hf, rfl⟩ := map_ok h
      exact .mapping (functionArgument ha hf) hi
    case h_15 =>
      obtain ⟨f, hf, rfl⟩ := map_ok h
      exact .filtering (functionArgument ha hf) hi
    all_goals cases h
    all_goals exact .value (by constructor)

private theorem invokeHash (h : ∀ e ∈ entries, e.2.Confined p n) (name : String) :
    (Value.invokeHash entries name).Confined p n := by
  unfold Value.invokeHash
  split
  · refine .list fun v hv => ?_
    obtain ⟨e, _, rfl⟩ := List.mem_map.1 hv
    exact .string _
  · refine .list fun v hv => ?_
    obtain ⟨e, he, rfl⟩ := List.mem_map.1 hv
    exact h e he
  · exact .list (pairs h)
  · exact .int _
  · exact .int _
  · exact getD (get? h name)

/-- A method passes on the functions that it is given. -/
theorem invoke {name : String} {r : Invocation} (hv : v.Confined p n) (ha : ∀ v ∈ args, v.Confined p n)
    (h : v.invoke name args = .ok r) : r.Confined p n := by
  cases v with
  | int i =>
    obtain ⟨u, hu, rfl⟩ := map_ok h
    exact .value (invokeInt hu)
  | float x =>
    obtain ⟨u, hu, rfl⟩ := map_ok h
    exact .value (invokeFloat hu)
  | string s =>
    obtain ⟨u, hu, rfl⟩ := map_ok h
    exact .value (invokeString hu)
  | list items => exact invokeList hv.items ha h
  | hash entries =>
    cases h
    exact .value (invokeHash hv.entries name)
  | _ => cases h

/-! What every scope has, and what loops run over. -/

private theorem length (h : v.Confined p n) : v.length.Confined p n := by
  unfold Value.length
  split
  · next n hn =>
    cases h.invoke (List.forall_mem_nil _) hn with
    | value h => exact h
  · exact .null

theorem global? {name : String} (h : ∀ v ∈ args, v.Confined p n) :
    ∀ w ∈ Value.global? name args, w.Confined p n := by
  intro w hw
  unfold Value.global? at hw
  split at hw
  · split at hw <;> cases hw
    · exact h _ (List.mem_cons_of_mem _ List.mem_cons_self)
    · exact h _ List.mem_cons_self
    · exact .null
  · split at hw <;> cases hw
    · exact .list (rangeList _ _)
    · exact .list (rangeList _ _)
    · exact .list fun _ hu => nomatch hu
  · split at hw <;> cases hw
    · exact length (h _ List.mem_cons_self)
    · exact .null
  · split at hw <;> cases hw
    · exact .string _
    · exact .null
  · cases hw

theorem iterate (h : v.Confined p n) (hi : v.iterate = .ok items) : ∀ u ∈ items, u.Confined p n := by
  unfold Value.iterate at hi
  split at hi <;> cases hi
  · exact h.items
  · exact pairs h.entries
  · exact fun _ hu => nomatch hu

end Confined

end Value

end LiveMarkup
