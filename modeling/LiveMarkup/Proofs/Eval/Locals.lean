import LiveMarkup.Proofs.Eval.Assigned

/-! The local bindings that an evaluation leaves. Loops and functions take back what they bind, however
they end, so that only the values of bindings that a program assigns to are new. -/

namespace LiveMarkup

open Run (Keeps)

namespace Bindings

variable {X Y : String → Prop} {bs bs' bs'' new : Bindings} {x y : String} {v : Value} {i : Nat}

/-- How many bindings stand before the innermost one of a name, if it has any. -/
def place? (x : String) (bs : Bindings) : Option Nat := (bs.map (·.1)).idxOf? x

private theorem place?_cons (x y : String) (v : Value) (bs : Bindings) :
    place? x ((y, v) :: bs) = if y = x then some 0 else (place? x bs).map (· + 1) := by
  simp [place?, List.idxOf?, List.findIdx?_cons]

private theorem getElem?_of_place? (h : bs.place? x = some i) : bs[i]?.map (·.1) = some x := by
  induction bs generalizing i with
  | nil => cases h
  | cons b bs ih =>
    obtain ⟨y, v⟩ := b
    rw [place?_cons] at h
    split at h
    · next hy =>
      cases h
      exact congrArg some hy
    · obtain ⟨j, hj, rfl⟩ := Option.map_eq_some_iff.1 h
      exact ih hj

/-- A name has the value of its innermost binding. -/
private theorem get?_eq_place? (x : String) (bs : Bindings) :
    bs.get? x = (bs.place? x).bind fun i => bs[i]?.map (·.2) := by
  induction bs with
  | nil => rfl
  | cons b bs ih =>
    obtain ⟨y, v⟩ := b
    rw [get?, place?_cons, ih]
    by_cases hy : y = x
    · rw [if_pos hy, if_pos hy]
      rfl
    · rw [if_neg hy, if_neg hy, Option.bind_map]
      rfl

/-- A name whose innermost binding stands after further ones is bound by none of these. -/
private theorem of_place?_append (h : (new ++ bs).place? x = some (new.length + i)) :
    x ∉ new.map (·.1) ∧ bs.place? x = some i := by
  induction new with
  | nil =>
    rw [List.nil_append, List.length_nil, Nat.zero_add] at h
    exact ⟨List.not_mem_nil, h⟩
  | cons b new ih =>
    obtain ⟨y, v⟩ := b
    rw [List.cons_append, place?_cons, List.length_cons, Nat.succ_add] at h
    split at h
    · cases h
    · next hy =>
      obtain ⟨j, hj, hij⟩ := Option.map_eq_some_iff.1 h
      obtain ⟨hnew, hplace⟩ := ih (hj.trans (congrArg some (Nat.succ_inj.1 hij)))
      exact ⟨List.not_mem_cons_of_ne_of_not_mem (Ne.symm hy) hnew, hplace⟩

private theorem getElem?_set? (h : bs.set? x v = some bs') (i : Nat) :
    bs'[i]? = bs[i]? ∨ bs.place? x = some i := by
  induction bs generalizing bs' i with
  | nil => cases h
  | cons b bs ih =>
    obtain ⟨y, w⟩ := b
    rw [set?] at h
    rw [place?_cons]
    split at h
    · next hy =>
      cases h
      rw [if_pos hy]
      cases i with
      | zero => exact .inr rfl
      | succ i => exact .inl rfl
    · next hy =>
      obtain ⟨bs'', hset, rfl⟩ := Option.map_eq_some_iff.1 h
      rw [if_neg hy]
      cases i with
      | zero => exact .inl rfl
      | succ i => exact (ih hset i).imp_right fun hi => Option.map_eq_some_iff.2 ⟨i, hi, rfl⟩

/-- After assignments to names of a kind: the names are the same in the same order, and so are all values but
those of the innermost bindings of names of the kind. -/
structure Reassigned (X : String → Prop) (bs bs' : Bindings) : Prop where
  names : bs'.map (·.1) = bs.map (·.1)
  values : ∀ i, bs'[i]? = bs[i]? ∨ ∃ x, X x ∧ bs.place? x = some i

namespace Reassigned

theorem refl (X : String → Prop) (bs : Bindings) : Reassigned X bs bs := ⟨rfl, fun _ => .inl rfl⟩

/-- Every name belongs to the same binding. -/
private theorem place?_eq (h : Reassigned X bs bs') (x : String) : bs'.place? x = bs.place? x := by
  rw [place?, place?, h.names]

theorem trans (h : Reassigned X bs bs') (h' : Reassigned X bs' bs'') : Reassigned X bs bs'' where
  names := h'.names.trans h.names
  values i := by
    obtain heq | ⟨x, hx, hi⟩ := h'.values i
    · rw [heq]
      exact h.values i
    · exact .inr ⟨x, hx, h.place?_eq x ▸ hi⟩

theorem mono (h : Reassigned X bs bs') (hXY : ∀ x, X x → Y x) : Reassigned Y bs bs' where
  names := h.names
  values i := (h.values i).imp_right fun ⟨x, hx, hi⟩ => ⟨x, hXY x hx, hi⟩

/-- A name that is not assigned to has the value that it had. -/
private theorem get?_eq (h : Reassigned X bs bs') (hx : ¬ X x) : bs'.get? x = bs.get? x := by
  rw [get?_eq_place?, get?_eq_place?, h.place?_eq]
  cases hplace : bs.place? x with
  | none => rfl
  | some i =>
    obtain heq | ⟨y, hy, hi⟩ := h.values i
    · rw [Option.bind_some, Option.bind_some, heq]
    · have hname := (getElem?_of_place? hplace).symm.trans (getElem?_of_place? hi)
      exact absurd (Option.some.inj hname ▸ hy) hx

private theorem of_set? (h : bs.set? x v = some bs') (hx : X x) : Reassigned X bs bs' where
  names := map_fst_set? h
  values i := (getElem?_set? h i).imp_right fun hi => ⟨x, hx, hi⟩

/-- Further bindings hide those of their names, so that assignments reach only the others of those that
remain when they are dropped. -/
private theorem drop (h : Reassigned X (new ++ bs) bs') :
    Reassigned (fun x => X x ∧ x ∉ new.map (·.1)) bs (bs'.drop new.length) where
  names := by
    rw [List.map_drop, h.names, List.map_append]
    exact List.drop_left' (List.length_map ..)
  values i := by
    rw [List.getElem?_drop]
    obtain heq | ⟨x, hx, hi⟩ := h.values (new.length + i)
    · rw [heq, List.getElem?_append_right (Nat.le_add_right ..), Nat.add_sub_cancel_left]
      exact .inl rfl
    · obtain ⟨hnew, hplace⟩ := of_place?_append hi
      exact .inr ⟨x, ⟨hx, hnew⟩, hplace⟩

end Reassigned

end Bindings

variable {σ α : Type} {h : Host σ} {eval : Eval.Meaning σ} {X Y : String → Prop} {bs new : Bindings}

namespace Env

def Reassigned (X : String → Prop) (bs : Bindings) (env : Env σ) : Prop := bs.Reassigned X env.locals

private theorem lift_reassigns (m : Run σ α) : Keeps (Reassigned X bs) (lift m) := by
  rw [lift_eq_inside]
  exact Keeps.inside (Q := fun _ => True) (fun _ _ => trivial) (fun _ _ => trivial) fun _ _ h _ => h

private theorem within_reassigns (locals : Bindings) (m : Run (Env σ) α) :
    Keeps (Reassigned X bs) (within locals m) := by
  rw [within_eq_inside]
  exact Keeps.inside (Q := fun _ => True) (fun _ _ => trivial) (fun _ _ => trivial) fun _ _ h _ => h

private theorem assign_reassigns {x : String} (hx : X x) (v : Value) :
    Keeps (Reassigned X bs) (assign h x v) := by
  refine .get_bind fun env henv => ?_
  cases hset : env.locals.set? x v with
  | none => exact .bind (lift_reassigns _) fun _ => .pure _
  | some locals => exact fun _ _ => henv.trans (.of_set? hset hx)

/-- What is run with further bindings may assign to their names as well. -/
private theorem binding_reassigns {m : Run (Env σ) α} (hm : ∀ bs, Keeps (Reassigned Y bs) m)
    (hXY : ∀ x, Y x → x ∉ new.map (·.1) → X x) : Keeps (Reassigned X bs) (binding new m) := by
  intro env henv
  rw [binding_eq_inside, Run.left_inside]
  have hleft : (new ++ env.locals).Reassigned Y (Run.left m ⟨new ++ env.locals, env.outer⟩).locals :=
    hm _ _ (.refl Y _)
  exact henv.trans (hleft.drop.mono fun x hx => hXY x hx.1 hx.2)

end Env

namespace Eval

open Env (Reassigned)

/-- A call reassigns nothing: a function has local bindings of its own. -/
private theorem call_reassigns (f : Value) (args : List Value) :
    Keeps (Reassigned X bs) (call h eval f args) := by
  unfold call
  split
  · exact Env.within_reassigns _ _
  · exact Env.lift_reassigns _
  · exact .throw _

/-- The runs of an expression assign to the names that it says only. -/
def AssignsAsSaid (eval : Expr → Run (Env σ) Value) : Prop :=
  ∀ (X : String → Prop) (bs : Bindings) (e : Expr), e.AssignsTo X → Keeps (Reassigned X bs) (eval e)

/-- The induction is on how deep expressions may refer to one another. -/
private theorem expr_assigns (h : Host σ) (fuel source : Nat) :
    AssignsAsSaid (expr h fuel source) := by
  intro X bs e he
  induction fuel generalizing e with
  | zero => exact .throw _
  | succ fuel ih => exact step_keeps call_reassigns (fun _ v hx => Env.assign_reassigns hx v) ih he

/-- The bindings of one turn of a loop are taken back before the next one. -/
private theorem repeatFor_reassigns (item : String) (index : Option String)
    {body : Run (Env σ) (List Chunk)} (hbody : ∀ bs, Keeps (Reassigned Y bs) body)
    (hXY : ∀ x, Y x → x ≠ item → x ∉ index → X x) (i : Nat) (vs : List Value) :
    Keeps (Reassigned X bs) (repeatFor item index body i vs) := by
  induction vs generalizing i with
  | nil => exact .pure _
  | cons v vs ih =>
    refine .bind (Env.binding_reassigns hbody fun x hx hnew => hXY x hx ?_ ?_) fun _ =>
      .bind (ih (i + 1)) fun _ => .pure _
    · rintro rfl
      simp at hnew
    · intro hindex
      obtain rfl := Option.mem_def.1 hindex
      simp at hnew

mutual

theorem statement_reassigns {eval : Expr → Run (Env σ) Value} (heval : AssignsAsSaid eval)
    (X : String → Prop) (bs : Bindings) (s : Statement) (hs : ∀ x ∈ s.assigned, X x) :
    Keeps (Reassigned X bs) (statement eval s) := by
  cases s with
  | text s => exact .pure _
  | value e => exact .bind (heval X bs e hs) fun _ => .pure _
  | each items item index body =>
    obtain ⟨hitems, hbody⟩ := List.forall_mem_append.1 hs
    have hturn (bs : Bindings) : Keeps (Reassigned (· ∈ Statement.assignedByBody body) bs)
        (statements eval body) := statements_reassign heval _ bs body fun _ hx => hx
    have hout (x : String) (hx : x ∈ Statement.assignedByBody body) (hitem : x ≠ item)
        (hindex : x ∉ index) : X x :=
      hbody x (List.mem_filter.2 ⟨hx, by simpa using ⟨hitem, hindex⟩⟩)
    exact .bind (heval X bs items hitems) fun _ => .bind (.ofExcept _) fun vs =>
      repeatFor_reassigns item index hturn hout 0 vs
  | cond branches otherwise =>
    have hboth := List.forall_mem_append.1 hs
    cases otherwise with
    | none => exact branch_reassigns heval X bs (.pure _) branches hboth.1
    | some body =>
      exact branch_reassigns heval X bs (statements_reassign heval X bs body hboth.2) branches hboth.1

private theorem statements_reassign {eval : Expr → Run (Env σ) Value} (heval : AssignsAsSaid eval)
    (X : String → Prop) (bs : Bindings) (ss : List Statement)
    (hs : ∀ x ∈ Statement.assignedByBody ss, X x) : Keeps (Reassigned X bs) (statements eval ss) := by
  cases ss with
  | nil => exact .pure _
  | cons s ss =>
    obtain ⟨hfirst, hrest⟩ := List.forall_mem_append.1 hs
    exact .bind (statement_reassigns heval X bs s hfirst) fun _ =>
      .bind (statements_reassign heval X bs ss hrest) fun _ => .pure _

theorem branch_reassigns {eval : Expr → Run (Env σ) Value} (heval : AssignsAsSaid eval)
    (X : String → Prop) (bs : Bindings) {rest : Run (Env σ) (List Chunk)}
    (hrest : Keeps (Reassigned X bs) rest) (branches : List (Expr × List Statement))
    (hs : ∀ x ∈ Statement.assignedByBranches branches, X x) :
    Keeps (Reassigned X bs) (branch eval rest branches) := by
  cases branches with
  | nil => exact hrest
  | cons b branches =>
    obtain ⟨hfirst, hmore⟩ := List.forall_mem_append.1 hs
    obtain ⟨htest, hbody⟩ := List.forall_mem_append.1 hfirst
    refine .bind (heval X bs b.1 htest) fun v => ?_
    split
    · exact statements_reassign heval X bs b.2 hbody
    · exact branch_reassigns heval X bs hrest branches hmore

end

/-- Bindings never leak. However an evaluation of statements ends, it leaves as many local bindings as there
were, with the same names in the same order, and every name belongs to the same one of them or to the scope.
Only the innermost binding of a name that the statements assign to, outside lambdas and other than to a name
that a loop around the assignment binds, can have another value. -/
theorem locals_kept (h : Host σ) (fuel source : Nat) (ss : List Statement) (env : Env σ) :
    (Run.left (statements (expr h fuel source) ss) env).locals.map (·.1) = env.locals.map (·.1) ∧
      (∀ x, (Run.left (statements (expr h fuel source) ss) env).locals.place? x = env.locals.place? x) ∧
      (∀ x, x ∉ Statement.assignedByBody ss →
        (Run.left (statements (expr h fuel source) ss) env).locals.get? x = env.locals.get? x) ∧
      ∀ i, (Run.left (statements (expr h fuel source) ss) env).locals[i]? = env.locals[i]? ∨
        ∃ x ∈ Statement.assignedByBody ss, env.locals.place? x = some i := by
  have hleft : env.locals.Reassigned (· ∈ Statement.assignedByBody ss)
      (Run.left (statements (expr h fuel source) ss) env).locals :=
    statements_reassign (expr_assigns h fuel source) _ _ ss (fun _ hx => hx) env (.refl _ _)
  exact ⟨hleft.names, hleft.place?_eq, fun x hx => hleft.get?_eq hx, hleft.values⟩

end Eval

end LiveMarkup
