import LiveMarkup.Proofs.Eval.Programs

/-! Values whose lambdas are written in the programs of a library, and the values that these programs give: what
they show and return, what they leave in the scope, what the functions among these return when they are called,
and the elements of such values. A lambda is known by the place of its arrow: its parameters and its body are
those that are written there. -/

namespace LiveMarkup

/-- The programs that have been compiled, by the numbers of their sources. -/
structure Library where
  program : Nat → Program
  compiled : ∀ n, ∃ source, (program n).CompiledFrom source

namespace Library

variable {lib : Library} {l : Lambda} {n : Nat} {site : Site}

/-- The lambda whose arrow is at a site. One that does nothing stands for it if there is none. -/
def lambdaAt (lib : Library) (site : Site) : Lambda :=
  ((lib.program site.source).lambdas.find? fun l => l.arrow = site.arrow).getD
    ⟨site.arrow, [], .literal .null⟩

/-- The lambdas in an expression are those that the library has at their arrows. -/
def Writes (lib : Library) (source : Nat) (e : Expr) : Prop :=
  ∀ l ∈ e.lambdas, lib.lambdaAt ⟨source, l.arrow⟩ = l

/-- At the arrow of a lambda there is no other. -/
private theorem lambdaAt_of_mem (h : l ∈ (lib.program n).lambdas) :
    lib.lambdaAt ⟨n, l.arrow⟩ = l := by
  obtain ⟨source, hcompiled⟩ := lib.compiled n
  have hinjective := List.inj_on_of_nodup_map hcompiled.nodup_arrows
  rw [lambdaAt]
  cases hfind : (lib.program n).lambdas.find? fun l' => l'.arrow = l.arrow with
  | none =>
    have habsent := List.find?_eq_none.1 hfind l h
    exact absurd (decide_eq_true rfl) habsent
  | some l' =>
    obtain ⟨hplace, -⟩ := List.find?_eq_some_iff_append.1 hfind
    exact hinjective (List.mem_of_find?_eq_some hfind) h (of_decide_eq_true hplace)

private theorem writes_of_mem {e : Expr} (h : e ∈ (lib.program n).exprs) : lib.Writes n e :=
  fun _ hl => lambdaAt_of_mem (List.mem_flatMap_of_mem h hl)

/-- So are those in the bodies of lambdas. -/
private theorem writes_body (lib : Library) (site : Site) :
    lib.Writes site.source (lib.lambdaAt site).body := by
  rw [lambdaAt]
  cases hfind : (lib.program site.source).lambdas.find? fun l => l.arrow = site.arrow with
  | none => exact fun _ hl => nomatch hl
  | some l =>
    intro l' hl'
    obtain ⟨e, he, hl⟩ := List.mem_flatMap.1 (List.mem_of_find?_eq_some hfind)
    exact writes_of_mem he l' (Expr.mem_lambdas_of_body e hl hl')

def recoding (lib : Library) : Recasting where
  site s := s
  injective := Function.injective_id
  lambda site _ _ captured := ((lib.lambdaAt site).params, (lib.lambdaAt site).body, captured)

/-- All lambdas in the value are written in the library. -/
def Written (lib : Library) (v : Value) : Prop := v.recast lib.recoding = v

/-- One and the same value, whose lambdas are written in the library. -/
abbrev Both (lib : Library) (v w : Value) : Prop := v = w ∧ lib.Written w

private theorem recast_refl (v : Value) : v.recast Relocation.refl.recasting = v := by
  rw [← Value.relocate_eq, Value.relocate_refl]

/-- The language writes no lambdas. -/
private theorem both_respected (lib : Library) : Value.Respected lib.Both := by
  have hboth := (Value.recast_respected lib.recoding Relocation.refl.recasting).twice
  have heq : (fun v w => v = w ∧ v.recast lib.recoding = w.recast Relocation.refl.recasting) = lib.Both := by
    funext v w
    refine propext (and_congr_right fun hvw => ?_)
    rw [recast_refl, hvw, Written]
  exact heq ▸ hboth

variable {params : List String} {body : Expr} {items : List Value} {entries : List (String × Value)}

theorem written_list_iff : lib.Written (.list items) ↔ ∀ v ∈ items, lib.Written v := by
  rw [Written, Value.recast_list, Value.list.injEq]
  constructor
  · intro h v hv
    exact List.map_inj_left.1 (h.trans (List.map_id items).symm) v hv
  · intro h
    exact (List.map_congr_left h).trans (List.map_id items)

private theorem recastValues_eq_self_iff :
    Value.recastValues lib.recoding entries = entries ↔ ∀ e ∈ entries, lib.Written e.2 := by
  constructor
  · intro h e he
    exact congrArg Prod.snd (List.map_inj_left.1 (h.trans (List.map_id entries).symm) e he)
  · intro h
    exact (List.map_congr_left fun e he => congrArg (Prod.mk e.1) (h e he)).trans (List.map_id entries)

private theorem written_hash_iff : lib.Written (.hash entries) ↔ ∀ e ∈ entries, lib.Written e.2 := by
  rw [Written, Value.recast_hash, Value.hash.injEq, recastValues_eq_self_iff]

theorem written_lambda_iff : lib.Written (.lambda site params body entries) ↔
    (lib.lambdaAt site).params = params ∧ (lib.lambdaAt site).body = body ∧
      ∀ e ∈ entries, lib.Written e.2 := by
  rw [Written, Value.recast, Value.recastEntries_eq, Value.lambda.injEq, ← recastValues_eq_self_iff]
  exact ⟨fun h => h.2, fun h => ⟨rfl, h⟩⟩

/-- The lambdas that an expression makes are written where it is. -/
private theorem aligned_admits (lib : Library) (source : Nat) :
    (Pairing.aligned lib.Both).Admits (fun _ => True) source (lib.Writes source) where
  parts h hpart l hl := h l (Expr.mem_lambdas_of_part hpart hl)
  ownName _ _ := ⟨trivial, trivial⟩
  lambda {arrow params body bs cs} h hrelated := by
    obtain ⟨rfl, hcaptured⟩ := Value.along_kind_iff.1 hrelated
    have hhere : lib.lambdaAt ⟨source, arrow⟩ = ⟨arrow, params, body⟩ := h _ List.mem_cons_self
    refine ⟨rfl, written_lambda_iff.2 ?_⟩
    rw [hhere]
    exact ⟨rfl, rfl, hcaptured⟩

private theorem both_callable (lib : Library) : Value.Callable lib.Both fun _ => True where
  lambda {site params body captured g} h := by
    obtain ⟨rfl, hwritten⟩ := h
    obtain ⟨-, rfl, hcaptured⟩ := written_lambda_iff.1 hwritten
    refine ⟨captured, rfl, .aligned lib.Both, _, lib.aligned_admits _, lib.writes_body site, fun hvs => ?_⟩
    exact List.rel_append (Eval.bindParams_along ⟨rfl, rfl⟩ params hvs)
      (Value.along_kind_iff.2 ⟨rfl, hcaptured⟩)
  native h := h.1.symm

end Library

open Run (RelatedUpTo)

variable {σ : Type}

/-- There is no lambda in the value. There may be native functions. -/
def Value.Lambdaless (v : Value) : Prop := v.Confined (fun _ => False) fun _ => True

private theorem Value.Lambdaless.written {lib : Library} {v : Value} (hv : v.Lambdaless) :
    lib.Written v := by
  induction hv with
  | list _ ih => exact Library.written_list_iff.2 ih
  | hash _ ih => exact Library.written_hash_iff.2 ih
  | lambda _ _ hb _ _ => exact hb.elim
  | _ => rfl

/-- What can be done with the programs of a library and with values that there are already. Each gives further
values, or none. -/
inductive Act (h : Host σ) (lib : Library) (vs : List Value) : Run σ (List Value) → Prop where
  | template {n : Nat} {t : Template} (ht : lib.program n = .template t) :
    Act h lib vs (do return (← Eval.template h n t).values)
  | script {n : Nat} {c : Script} (hc : lib.program n = .script c) :
    Act h lib vs (do Eval.script h n c; return [])
  | tag {n : Nat} {e : Expr} (he : lib.program n = .tag e) : Act h lib vs (do return [← Eval.value h n e])
  | call {f : Value} {args : List Value} (hf : f ∈ vs) (ha : ∀ v ∈ args, v ∈ vs) :
    Act h lib vs (do return [← Eval.callFunction h f args])
  | read (x : String) : Act h lib vs (do return ((h.scope (← get)).get? x).toList)
  | write (x : String) {v : Value} (hv : v ∈ vs) : Act h lib vs (do let _ ← h.set x v; return [])
  | publish (x : String) {v : Value} (hv : v ∈ vs) : Act h lib vs (do let _ ← h.setPublic x v; return [])

/-- The values that there are, and the state, after acts one after the other. Values without lambdas are
always there. -/
inductive Obtained (h : Host σ) (lib : Library) (s₀ : σ) : σ → List Value → Prop where
  | start : Obtained h lib s₀ s₀ []
  | act {s t : σ} {vs ws : List Value} {m : Run σ (List Value)} (ho : Obtained h lib s₀ s vs)
    (hm : Act h lib vs m) (hr : m s = .ok ws t) : Obtained h lib s₀ t (ws ++ vs)
  | stopped {s t : σ} {vs : List Value} {m : Run σ (List Value)} {e : Stop} (ho : Obtained h lib s₀ s vs)
    (hm : Act h lib vs m) (hr : m s = .error e t) : Obtained h lib s₀ t vs
  | given {s : σ} {vs : List Value} {v : Value} (ho : Obtained h lib s₀ s vs) (hv : v.Lambdaless) :
    Obtained h lib s₀ s (v :: vs)
  | item {s : σ} {vs items : List Value} {v : Value} (ho : Obtained h lib s₀ s vs) (hi : .list items ∈ vs)
    (hv : v ∈ items) : Obtained h lib s₀ s (v :: vs)
  | entry {s : σ} {vs : List Value} {entries : List (String × Value)} {e : String × Value}
    (ho : Obtained h lib s₀ s vs) (hi : .hash entries ∈ vs) (he : e ∈ entries) :
    Obtained h lib s₀ s (e.2 :: vs)

variable {h : Host σ} {lib : Library} {s s₀ : σ} {vs : List Value} {m : Run σ (List Value)}
  {R : (Value → Value → Prop) → σ → σ → Prop}

namespace Act

/-- An act writes no lambdas that are not in the library. -/
private theorem keeps (hm : Act h lib vs m) (hh : h.Uniform R) (hvs : ∀ v ∈ vs, lib.Written v) :
    RelatedUpTo (List.Forall₂ lib.Both) (R lib.Both) m m := by
  have hA := lib.both_respected
  have hc := lib.both_callable
  have hr := hh.respects hA
  cases hm with
  | @template n t ht =>
    have hwrites (e : Expr) (he : e ∈ t.exprs) : lib.Writes n e := Library.writes_of_mem (by rwa [ht])
    refine (Eval.template_lockstep hA hc hr (lib.aligned_admits n) hwrites).bind fun _ _ hrendered => .pure ?_
    exact List.forall₂_map_left_iff.2 (List.forall₂_map_right_iff.2 (hrendered.slots.imp fun _ _ h => h.2))
  | @script n c hscript =>
    have hwrites (e : Expr) (he : e ∈ c.exprs) : lib.Writes n e := Library.writes_of_mem (by rwa [hscript])
    exact (Eval.script_lockstep hA hc hr (lib.aligned_admits n) hwrites).bind fun _ _ _ => .pure .nil
  | @tag n e htag =>
    have hwrites : lib.Writes n e := Library.writes_of_mem (by rw [htag]; exact List.mem_cons_self)
    exact (Eval.value_lockstep hA hc hr (lib.aligned_admits n) hwrites).bind fun _ _ hv => .pure (.cons hv .nil)
  | @call f args hf ha =>
    have hargs : List.Forall₂ lib.Both args args :=
      Value.forall₂_kind_iff.2 ⟨rfl, fun v hv => hvs v (ha v hv)⟩
    exact (Eval.callFunction_lockstep hA hc hr ⟨rfl, hvs _ hf⟩ hargs).bind fun _ _ hv => .pure (.cons hv .nil)
  | read x =>
    refine .get_bind fun s t hst => .pure ?_
    have hvalue := (hh.scope hst).get? x
    generalize (h.scope s).get? x = a at hvalue ⊢
    generalize (h.scope t).get? x = b at hvalue ⊢
    cases hvalue with
    | some hvw => exact .cons hvw .nil
    | none => exact .nil
  | write x hv => exact (hh.set hA x ⟨rfl, hvs _ hv⟩).bind fun _ _ _ => .pure .nil
  | publish x hv => exact (hh.setPublic hA x ⟨rfl, hvs _ hv⟩).bind fun _ _ _ => .pure .nil

end Act

namespace Obtained

theorem script {t : σ} {n : Nat} {c : Script} (ho : Obtained h lib s₀ s vs) (hc : lib.program n = .script c)
    (hr : Eval.script h n c s = .ok () t) : Obtained h lib s₀ t vs :=
  .act ho (.script hc) (Run.bind_of_ok hr)

theorem call {t : σ} {f v : Value} {args : List Value} (ho : Obtained h lib s₀ s vs) (hf : f ∈ vs)
    (ha : ∀ v ∈ args, v ∈ vs) (hr : Eval.callFunction h f args s = .ok v t) : Obtained h lib s₀ t (v :: vs) :=
  .act ho (.call hf ha) (Run.bind_of_ok hr)

theorem read {x : String} {v : Value} (ho : Obtained h lib s₀ s vs) (hx : (h.scope s).get? x = some v) :
    Obtained h lib s₀ s (v :: vs) := by
  have hr : (do return ((h.scope (← get)).get? x).toList : Run σ (List Value)) s = .ok [v] s :=
    congrArg (fun o : Option Value => EStateM.Result.ok o.toList s) hx
  exact .act ho (.read x) hr

/-- All lambdas that can be got hold of are written in the library, if there are none to begin with. -/
theorem written (ho : Obtained h lib s₀ s vs) (hh : h.Uniform R)
    (hstart : R (fun v w => v = w ∧ v.Lambdaless) s₀ s₀) :
    R lib.Both s s ∧ ∀ v ∈ vs, lib.Written v := by
  induction ho with
  | start =>
    refine ⟨hh.mono ?_ hstart, List.forall_mem_nil _⟩
    rintro v w ⟨rfl, hv⟩
    exact ⟨rfl, hv.written⟩
  | @act s vs m ws t _ hm hr ih =>
    have hends := hm.keeps hh ih.2 s s ih.1
    rw [hr] at hends
    cases hends with
    | ok hws ht =>
      exact ⟨ht, List.forall_mem_append.2 ⟨(Value.forall₂_kind_iff.1 hws).2, ih.2⟩⟩
  | @stopped s vs m t e _ hm hr ih =>
    have hends := hm.keeps hh ih.2 s s ih.1
    rw [hr] at hends
    cases hends with
    | error _ ht => exact ⟨ht, ih.2⟩
  | given _ hv ih => exact ⟨ih.1, List.forall_mem_cons.2 ⟨hv.written, ih.2⟩⟩
  | item _ hi hv ih =>
    exact ⟨ih.1, List.forall_mem_cons.2 ⟨Library.written_list_iff.1 (ih.2 _ hi) _ hv, ih.2⟩⟩
  | entry _ hi he ih =>
    exact ⟨ih.1, List.forall_mem_cons.2 ⟨Library.written_hash_iff.1 (ih.2 _ hi) _ he, ih.2⟩⟩

end Obtained

end LiveMarkup
