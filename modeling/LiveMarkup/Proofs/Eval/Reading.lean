import LiveMarkup.Proofs.Eval.Hosts

/-! Programs that only read. Templates whose expressions assign nothing and call no function but
members of a value leave the state as it is, whatever the host does about writes. -/

namespace LiveMarkup

open Run (Keeps)

/-- The expression assigns nothing, and calls nothing but methods that take no argument. -/
inductive Expr.ReadOnly : Expr → Prop where
  | literal (v) : ReadOnly (.literal v)
  | name (x : String) : ReadOnly (.name x)
  | binary (op : BinaryOp) {left right : Expr} (hl : ReadOnly left) (hr : ReadOnly right) :
    ReadOnly (.binary op left right)
  | unary (op : UnaryOp) {operand : Expr} (h : ReadOnly operand) : ReadOnly (.unary op operand)
  | list {items : List Expr} (h : ∀ e ∈ items, ReadOnly e) : ReadOnly (.list items)
  | hash {entries : List (String × Expr)} (h : ∀ p ∈ entries, ReadOnly p.2) : ReadOnly (.hash entries)
  | member {target : Expr} (name : String) (h : ReadOnly target) : ReadOnly (.member target name)
  | index {target key : Expr} (ht : ReadOnly target) (hk : ReadOnly key) : ReadOnly (.index target key)
  | cond {test yes no : Expr} (ht : ReadOnly test) (hy : ReadOnly yes) (hn : ReadOnly no) :
    ReadOnly (.cond test yes no)
  | lambda (arrow : Pos) (params : List String) (body : Expr) : ReadOnly (.lambda arrow params body)

inductive Statement.ReadOnly : Statement → Prop where
  | text (s : String) : ReadOnly (.text s)
  | value {e : Expr} (h : e.ReadOnly) : ReadOnly (.value e)
  | each {items : Expr} (item : String) (index : Option String) {body : List Statement}
    (hi : items.ReadOnly) (hb : ∀ st ∈ body, ReadOnly st) : ReadOnly (.each items item index body)
  | cond {branches : List (Expr × List Statement)} {otherwise : Option (List Statement)}
    (ht : ∀ b ∈ branches, b.1.ReadOnly) (hb : ∀ b ∈ branches, ∀ st ∈ b.2, ReadOnly st)
    (ho : ∀ body ∈ otherwise, ∀ st ∈ body, ReadOnly st) : ReadOnly (.cond branches otherwise)

variable {σ α : Type} {P : σ → Prop}

/-! Methods that take no argument. -/

/-- A method without arguments calls no function. -/
private theorem Value.invoke_nil {v : Value} {name : String} {r : Invocation}
    (h : v.invoke name [] = .ok r) : ∃ w, r = .value w := by
  have hmap {e : Except EvalError Value} (h : e.map Invocation.value = .ok r) : ∃ w, r = .value w := by
    cases e with
    | error e => cases h
    | ok w =>
      cases h
      exact ⟨w, rfl⟩
  cases v with
  | int n => exact hmap h
  | float x => exact hmap h
  | string s => exact hmap h
  | hash entries =>
    cases h
    exact ⟨_, rfl⟩
  | list items =>
    have hlist : invokeList items name [] = .ok r := h
    unfold invokeList at hlist
    split at hlist
    · cases hlist
      exact ⟨_, rfl⟩
    · split at hlist <;> cases hlist <;> exact ⟨_, rfl⟩
  | _ => cases h

/-! Local bindings. -/

namespace Env

private theorem binding_keeps (bs : Bindings) {m : Run (Env σ) α}
    (hm : Keeps (fun env => P env.outer) m) :
    Keeps (fun env => P env.outer) (binding bs m) := by
  rw [binding_eq_inside]
  exact hm.inside (fun _ h => h) fun _ _ _ h => h

theorem toplevel_keeps {m : Run (Env σ) α} (hm : Keeps (fun env => P env.outer) m) :
    Keeps P (toplevel m) := by
  rw [toplevel_eq_inside]
  exact hm.inside (fun _ h => h) fun _ _ _ h => h

end Env

namespace Eval

variable {h : Host σ} {Q : Env σ → Prop}

/-! Expressions. -/

theorem memberOf_keeps (eval : Meaning σ) (v : Value) (name : String) :
    Keeps Q (memberOf h eval v name) := by
  unfold memberOf
  split
  · exact .pure _
  · unfold invoke
    cases hr : v.invoke name [] with
    | error e => exact .throw _
    | ok r =>
      obtain ⟨w, rfl⟩ := Value.invoke_nil hr
      exact .pure _

theorem evalItems_keeps {eval : Expr → Run (Env σ) Value} {items : List Expr}
    (h : ∀ e ∈ items, Keeps Q (eval e)) : Keeps Q (evalItems eval items) := by
  induction items with
  | nil => exact .pure _
  | cons e items ih =>
    have hrest := ih fun e he => h e (List.mem_cons_of_mem _ he)
    exact .bind (h e List.mem_cons_self) fun _ => .bind hrest fun _ => .pure _

theorem evalEntries_keeps {eval : Expr → Run (Env σ) Value} {entries : List (String × Expr)}
    (h : ∀ p ∈ entries, Keeps Q (eval p.2)) : Keeps Q (evalEntries eval entries) := by
  induction entries with
  | nil => exact .pure _
  | cons p entries ih =>
    have hrest := ih fun p hp => h p (List.mem_cons_of_mem _ hp)
    exact .bind (h p List.mem_cons_self) fun _ => .bind hrest fun _ => .pure _

/-- Evaluating an expression that only reads changes nothing at all. The induction is on the depth of
references. -/
private theorem expr_keeps {e : Expr} (he : e.ReadOnly) (fuel source : Nat) :
    Keeps Q (expr h fuel source e) := by
  induction fuel generalizing e with
  | zero => exact .throw _
  | succ fuel ih =>
    have hcond {c : Value} {yes no : Run (Env σ) Value} (hy : Keeps Q yes) (hn : Keeps Q no) :
        Keeps Q (if c.truthy then yes else no) := by
      split
      · exact hy
      · exact hn
    cases he with
    | literal v => exact .pure _
    | name x =>
      refine .bind (.get_bind fun _ _ => .pure _) fun v => ?_
      split
      · exact .pure _
      · split
        · exact .pure _
        · exact .throw _
    | binary op hl hr =>
      cases op with
      | and => exact .bind (ih hl) fun _ => hcond (ih hr) (.pure _)
      | or => exact .bind (ih hl) fun _ => hcond (.pure _) (ih hr)
      | _ => exact .bind (ih hl) fun _ => .bind (ih hr) fun _ => .ofStop _
    | unary op h => exact .bind (ih h) fun _ => .pure _
    | list h => exact .bind (evalItems_keeps fun e he => ih (h e he)) fun _ => .pure _
    | hash h => exact .bind (evalEntries_keeps fun p hp => ih (h p hp)) fun _ => .pure _
    | member name h => exact .bind (ih h) fun _ => memberOf_keeps _ _ _
    | index ht hk =>
      refine .bind (ih ht) fun _ => .bind (ih hk) fun k => .bind ?_ fun _ => memberOf_keeps _ _ _
      unfold accessName
      split
      · exact .pure _
      · exact .pure _
      · exact .throw _
    | cond ht hy hn => exact .bind (ih ht) fun _ => hcond (ih hy) (ih hn)
    | lambda arrow params body => exact .get_bind fun _ _ => .pure _

/-! Statements. -/

section Statements

variable {eval : Expr → Run (Env σ) Value}

theorem repeatFor_keeps (item : String) (index : Option String) {body : Run (Env σ) (List Chunk)}
    (hb : Keeps (fun env => P env.outer) body) (i : Nat) (vs : List Value) :
    Keeps (fun env => P env.outer) (repeatFor item index body i vs) := by
  induction vs generalizing i with
  | nil => exact .pure _
  | cons v vs ih => exact .bind (Env.binding_keeps _ hb) fun _ => .bind (ih (i + 1)) fun _ => .pure _

private theorem statements_keeps {ss : List Statement} (h : ∀ st ∈ ss, Keeps Q (statement eval st)) :
    Keeps Q (statements eval ss) := by
  induction ss with
  | nil => exact .pure _
  | cons st ss ih =>
    have hrest := ih fun st hst => h st (List.mem_cons_of_mem _ hst)
    exact .bind (h st List.mem_cons_self) fun _ => .bind hrest fun _ => .pure _

private theorem branch_keeps {rest : Run (Env σ) (List Chunk)} (hr : Keeps Q rest)
    {branches : List (Expr × List Statement)} (ht : ∀ b ∈ branches, Keeps Q (eval b.1))
    (hb : ∀ b ∈ branches, Keeps Q (statements eval b.2)) : Keeps Q (branch eval rest branches) := by
  induction branches with
  | nil => exact hr
  | cons b branches ih =>
    have hrest := ih (fun b hmem => ht b (List.mem_cons_of_mem _ hmem))
      fun b hmem => hb b (List.mem_cons_of_mem _ hmem)
    refine .bind (ht b List.mem_cons_self) fun v => ?_
    split
    · exact hb b List.mem_cons_self
    · exact hrest

private theorem statement_keeps
    (he : ∀ e : Expr, e.ReadOnly → Keeps (fun env => P env.outer) (eval e)) {st : Statement}
    (h : st.ReadOnly) : Keeps (fun env => P env.outer) (statement eval st) := by
  induction h with
  | text s => exact .pure _
  | value h => exact .bind (he _ h) fun _ => .pure _
  | each item index hi hb ih =>
    exact .bind (he _ hi) fun _ => .bind (.ofExcept _) fun _ =>
      repeatFor_keeps item index (statements_keeps ih) 0 _
  | @cond branches otherwise ht hb ho ihb iho =>
    have hrest {rest : Run (Env σ) (List Chunk)} (hr : Keeps (fun env => P env.outer) rest) :=
      branch_keeps hr (fun b hmem => he _ (ht b hmem)) fun b hmem => statements_keeps (ihb b hmem)
    cases otherwise with
    | none => exact hrest (.pure _)
    | some body => exact hrest (statements_keeps (iho body rfl))

end Statements

/-- A template that only reads changes nothing. -/
theorem template_keeps {t : Template} (ht : ∀ st ∈ t.statements, st.ReadOnly) (source : Nat) :
    Keeps P (template h source t) :=
  .bind (Env.toplevel_keeps (statements_keeps fun st hst =>
    statement_keeps (fun _ he => expr_keeps he depthLimit source) (ht st hst))) fun _ => .pure _

end Eval

end LiveMarkup
