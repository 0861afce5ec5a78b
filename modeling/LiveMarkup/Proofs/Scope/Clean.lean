import LiveMarkup.Proofs.Eval.Scopes
import LiveMarkup.Proofs.Scope.Activity
import LiveMarkup.Proofs.Value.Disguise
import LiveMarkup.Proofs.View.Quiet

/-! Writes that are not dirty. They store a value that is there already, so that nothing that is
evaluated afterwards differs from what it was before, unless the value is a number in another guise,
which a template can show. Two scopes between which neither reading nor writing tells are the same to
every expression, template and script, among listeners and native functions that do not tell them
apart either. -/

namespace LiveMarkup

section Blind

open Run (Related)

variable {μ : Type} {E : Scope → Scope → Prop}

/-- A relation of scopes that look-up respects and every writing preserves, be it of a property that
becomes public. -/
structure Scope.Likeness (E : Scope → Scope → Prop) : Prop extends Scope.Congruence E where
  putPublic : ∀ {a b}, E a b → ∀ x v, E (a.putPublic x v) (b.putPublic x v)

private theorem Scope.Likeness.eq : Scope.Likeness Eq where
  toCongruence := .eq
  putPublic h _ _ := by rw [h]

private theorem Scope.agrees_likeness : Scope.Likeness Scope.Agrees where
  toCongruence := Scope.agrees_congruence
  putPublic h x v y := by rw [Scope.get?_putPublic, Scope.get?_putPublic, h y]

/-- Nothing is ever made to depend on which of two related scopes it is that is looked at. -/
def Activity.BlindTo (E : Scope → Scope → Prop) : Activity μ → Prop
  | .done _ => True
  | .fail _ => True
  | .look next => ∀ s memory, (next s memory).BlindTo E ∧ ∀ t, E s t → next s memory = next t memory
  | .note _ next => next.BlindTo E
  | .subscribe listener next => (∀ x, (listener x).BlindTo E) ∧ next.BlindTo E
  | .act _ next => ∀ a, (next a).BlindTo E

/-- Nobody tells a scope from itself. -/
private theorem Activity.blindTo_eq (a : Activity μ) : a.BlindTo Eq := by
  induction a with
  | done | fail => trivial
  | look next ih => exact fun s memory => ⟨ih s memory, fun t h => h ▸ rfl⟩
  | note memory next ih => exact ih
  | subscribe listener next hl ih => exact ⟨hl, ih⟩
  | act deed next ih => exact ih

namespace World

/-- Two scopes that are related, with the same listeners, who do not tell them apart. Their pasts may
differ. -/
structure Alike (E : Scope → Scope → Prop) (w w' : World μ) : Prop where
  scope : E w.scope w'.scope
  listeners : w'.listeners = w.listeners
  memory : w'.memory = w.memory
  blind : ∀ l ∈ w.listeners, ∀ x, (l x).BlindTo E

variable {h : Host (World μ)} {natives : Nat → List Value → Activity μ}

/-- Each deed makes the same of both. -/
private theorem deed_related (hE : Scope.Likeness E) (a : Host.Agree E (Alike E) h h) (d : Deed) :
    Related (Alike E) (d.run h) (d.run h) := by
  cases d with
  | set x v => exact .bind (a.set x v) fun _ => .pure _
  | setPublic x v =>
    refine .bind (.modify fun _ _ hw => ⟨hw.scope, hw.listeners, hw.memory, hw.blind⟩) fun _ => ?_
    exact .bind (a.write hE.putPublic x v) fun _ => .pure _
  | declare x v => exact .bind (a.declare x v) fun _ => .pure _
  | update x change => exact .bind (a.update x change) fun _ => .pure _
  | evaluate source e => exact .bind (Eval.value_related a source e) fun _ => .pure _
  | script source t => exact .bind (Eval.script_related a source t) fun _ => .pure _
  | template source t => exact .bind (Eval.template_related a source t) fun _ => .pure _
  | call f args => exact .bind (Eval.callFunction_related a f args) fun _ => .pure _

/-- Whoever is blind to the difference does the same in both. -/
private theorem activity_related (hE : Scope.Likeness E) (ha : Host.Agree E (Alike E) h h)
    {a : Activity μ} (hb : a.BlindTo E) : Related (Alike E) (a.run h) (a.run h) := by
  induction a with
  | done v => exact .pure v
  | fail e => exact .fail e
  | look next ih =>
    intro w w' hw
    have hnext : next w.scope w.memory = next w'.scope w'.memory := by
      rw [hw.memory]
      exact (hb w.scope w.memory).2 _ hw.scope
    have hrun := ih _ _ (hb w.scope w.memory).1 w w' hw
    simp only [Activity.run]
    rwa [← hnext]
  | note memory next ih => exact fun w w' hw => ih hb _ _ ⟨hw.scope, hw.listeners, rfl, hw.blind⟩
  | subscribe listener next _ ih =>
    refine fun w w' hw => ih hb.2 _ _ ⟨hw.scope, ?_, hw.memory, fun l hl => ?_⟩
    · exact congrArg (· ++ [listener]) hw.listeners
    · rcases List.mem_append.1 hl with hl | hl
      · exact hw.blind l hl
      · exact List.mem_singleton.1 hl ▸ hb.1
  | act deed next ih =>
    intro w w' hw
    have hd := deed_related hE ha deed w w' hw
    simp only [Activity.run]
    generalize deed.run h w = r at hd ⊢
    generalize deed.run h w' = r' at hd ⊢
    cases hd with
    | ok a hr => exact ih (.ok a) (hb _) _ _ hr
    | error e hr => exact ih (.error e) (hb _) _ _ hr

/-- Listeners and native functions that are blind to the difference make none, however deep they are
nested. -/
private theorem host_agree (hE : Scope.Likeness E) (hn : ∀ id args, (natives id args).BlindTo E)
    (depth : Nat) : Host.Agree E (Alike E) (host natives depth) (host natives depth) := by
  have hstore {w w' : World μ} {a b : Scope} (hw : Alike E w w') (hab : E a b) :
      Alike E (w.store a) (w'.store b) := ⟨hab, hw.listeners, hw.memory, hw.blind⟩
  induction depth with
  | zero => exact ⟨hE.toCongruence, (·.scope), hstore, fun _ => .throw _, fun _ _ => .throw _⟩
  | succ depth ih =>
    refine ⟨hE.toCongruence, (·.scope), hstore, fun x => ?_,
      fun id args => activity_related hE ih (hn id args)⟩
    refine .bind (.modify fun _ _ hw => ⟨hw.scope, hw.listeners, hw.memory, hw.blind⟩) fun _ => ?_
    refine .get_bind fun w w' hw => ?_
    rw [hw.listeners]
    exact .forM_of_mem fun l hl => .bind (activity_related hE ih (hw.blind l hl x)) fun _ => .pure _

end World

end Blind

variable {x : String} {u v : Value}

private theorem Bindings.set?_of_get? {bs : Bindings} (h : get? x bs = some v) :
    set? x v bs = some bs := by
  induction bs with
  | nil => cases h
  | cons b bs ih =>
    obtain ⟨y, w⟩ := b
    by_cases hy : y = x
    · rw [get?, if_pos hy, Option.some.injEq] at h
      rw [set?, if_pos hy, h]
    · rw [get?, if_neg hy] at h
      rw [set?, if_neg hy, ih h, Option.map_some]

namespace Scope

variable {s : Scope}

/-- Writing the value that a property has changes nothing. -/
theorem put_of_get? (h : s.get? x = some v) : s.put x v = s := by
  unfold put
  cases hshown : s.shown.get? x with
  | some w =>
    rw [get?, hshown, Option.orElse_some, Option.some.injEq] at h
    rw [Bindings.set?_of_get? (h ▸ hshown)]
  | none =>
    rw [get?, hshown, Option.orElse_none] at h
    have hnone : s.shown.set? x v = none := by
      rw [← Option.not_isSome_iff_eq_none, Bindings.set?_isSome, hshown]
      exact Bool.false_ne_true
    rw [hnone, Bindings.set?_of_get? h]

/-- Nor does it if it makes a property public that is. -/
private theorem putPublic_of_get? (h : s.get? x = some v) (hx : s.isPublic x = true) :
    s.putPublic x v = s := by
  obtain ⟨w, hshown⟩ := Option.isSome_iff_exists.1 hx
  rw [get?, hshown, Option.orElse_some, Option.some.injEq] at h
  rw [putPublic, Bindings.set?_of_get? (h ▸ hshown)]

/-- Otherwise no name gets another value. -/
private theorem putPublic_agrees_of_get? (h : s.get? x = some v) : s.Agrees (s.putPublic x v) := by
  intro y
  rw [get?_putPublic]
  split
  · next hxy => rw [← hxy, h]
  · rfl

/-- A write can only be clean where there is a value. -/
theorem exists_of_clean (h : isDirty (s.get? x) v = false) : ∃ u, s.get? x = some u := by
  cases hg : s.get? x with
  | none =>
    rw [hg] at h
    cases h
  | some u => exact ⟨u, rfl⟩

end Scope

/-! Templates that show the guise of a number. -/

namespace Eval

variable {σ : Type} {h : Host σ} {s : σ}

/-- A template of a single value ends as the value does. -/
private theorem ending_value (h : Host σ) (source : Nat) (e : Expr) (s : σ) :
    (template h source ⟨[.value e]⟩).ending s =
      ((value h source e).ending s).map fun v => ⟨[("", v)], ""⟩ := by
  cases hv : expr h depthLimit source e ⟨[], s⟩ with
  | ok v env =>
    have he : value h source e s = .ok v env.outer := by rw [value, Env.toplevel, hv]
    have hs : statement (expr h depthLimit source) (.value e) ⟨[], s⟩ = .ok [.value v] env :=
      (Run.bind_of_ok hv).trans rfl
    have hss : statements (expr h depthLimit source) [.value e] ⟨[], s⟩ = .ok [.value v] env :=
      (Run.bind_of_ok hs).trans rfl
    have htop : Env.toplevel (statements (expr h depthLimit source) [.value e]) s =
        .ok [.value v] env.outer := by rw [Env.toplevel, hss]
    have ht : template h source ⟨[.value e]⟩ s = .ok ⟨[("", v)], ""⟩ env.outer :=
      (Run.bind_of_ok htop).trans rfl
    rw [Run.ending_of_ok ht, Run.ending_of_ok he]
    rfl
  | error e' env =>
    have he : value h source e s = .error e' env.outer := by rw [value, Env.toplevel, hv]
    have hs : statement (expr h depthLimit source) (.value e) ⟨[], s⟩ = .error e' env :=
      Run.bind_of_error hv
    have hss : statements (expr h depthLimit source) [.value e] ⟨[], s⟩ = .error e' env :=
      Run.bind_of_error hs
    have htop : Env.toplevel (statements (expr h depthLimit source) [.value e]) s =
        .error e' env.outer := by rw [Env.toplevel, hss]
    have ht : template h source ⟨[.value e]⟩ s = .error e' env.outer := Run.bind_of_error htop
    rw [Run.ending_of_error ht, Run.ending_of_error he]
    rfl

theorem expr_name (hx : (h.scope s).get? x = some v) (fuel source : Nat) :
    expr h (fuel + 1) source (.name x) ⟨[], s⟩ = .ok v ⟨[], s⟩ := by
  have hget : Env.get? h x ⟨[], s⟩ = .ok (some v) ⟨[], s⟩ := congrArg (EStateM.Result.ok · _) hx
  rw [expr, step, Run.bind_of_ok hget]
  rfl

/-- What a template makes of a property. -/
private theorem ending_name (hx : (h.scope s).get? x = some v) (source : Nat) :
    (template h source ⟨[.value (.name x)]⟩).ending s = .ok ⟨[("", v)], ""⟩ := by
  have hv : value h source (.name x) s = .ok v s := by
    rw [value, Env.toplevel, depthLimit, expr_name hx 99999 source]
  rw [ending_value, Run.ending_of_ok hv]
  rfl

theorem invoke_of_value {eval : Meaning σ} {name : String} {args : List Value}
    {r : Except EvalError Value} (hr : v.invoke name args = r.map .value) :
    invoke h eval v name args = Run.ofExcept r := by
  rw [invoke, hr]
  cases r <;> rfl

/-- What it makes of a method of one. -/
private theorem ending_member {name : String} {r : Except EvalError Value}
    (hx : (h.scope s).get? x = some v) (hf : v.field? name = none)
    (hr : v.invoke name [] = r.map .value) (source : Nat) :
    (template h source ⟨[.value (.member (.name x) name)]⟩).ending s =
      (r.mapError Stop.error).map fun w => ⟨[("", w)], ""⟩ := by
  have hv : value h source (.member (.name x) name) s = Run.ofExcept r s := by
    have hname := expr_name hx 99998 source
    rw [value, Env.toplevel, depthLimit, expr, step, Run.bind_of_ok hname, memberOf, hf]
    dsimp only
    rw [invoke_of_value hr]
    cases r <;> rfl
  rw [ending_value, Run.ending, hv]
  cases r <;> rfl

/-- A number in another guise shows: an integer knows nothing of rounding, and a zero shows its
sign. -/
private theorem exists_template_of_disguised (x : String) (hd : u.Disguised v) :
    ∃ t : Template, ∀ (h : Host σ) (s s' : σ) (source : Nat), (h.scope s).get? x = some u →
      (h.scope s').get? x = some v →
      ((template h source t).ending s').map Rendered.markup ≠
        ((template h source t).ending s).map Rendered.markup := by
  have hint (n : Int64) : (Value.int n).invoke "ceil" [] =
      (Except.error (.unknownMethod "ceil" "integer")).map Invocation.value := rfl
  have hfloat (y : Float) : (Value.float y).invoke "ceil" [] =
      (Except.ok (.float y.ceil)).map Invocation.value := rfl
  cases hd with
  | @asFloat n y =>
    refine ⟨⟨[.value (.member (.name x) "ceil")]⟩, fun h s s' source hu hv => ?_⟩
    rw [ending_member hu rfl (hint n), ending_member hv rfl (hfloat y)]
    exact nofun
  | @asInt y n =>
    refine ⟨⟨[.value (.member (.name x) "ceil")]⟩, fun h s s' source hu hv => ?_⟩
    rw [ending_member hu rfl (hfloat y), ending_member hv rfl (hint n)]
    exact nofun
  | negated | unsigned =>
    refine ⟨⟨[.value (.name x)]⟩, fun h s s' source hu hv => ?_⟩
    rw [ending_name hu, ending_name hv]
    decide

end Eval

namespace World

variable {μ : Type} {natives : Nat → List Value → Activity μ} {depth : Nat} {w w' : World μ}
  {write : Deed}

/-- Nobody, be it a native function or a listener, looks at more of the scope than the values of
names: not at which of them are public. -/
def Incurious (natives : Nat → List Value → Activity μ) (w : World μ) : Prop :=
  (∀ id args, (natives id args).BlindTo Scope.Agrees) ∧
    ∀ l ∈ w.listeners, ∀ x, (l x).BlindTo Scope.Agrees

/-- A write that was not dirty has stored its value and done nothing else. -/
private theorem eq_of_clean_answer {h : Host (World μ)} {dirty : Bool} {stored : World μ}
    (hr : settleWrite h x dirty stored = .ok (.dirty false) w') : dirty = false ∧ w' = stored := by
  cases dirty with
  | false =>
    cases hr
    exact ⟨rfl, rfl⟩
  | true =>
    obtain ⟨_, _, -, hr⟩ := Run.bind_eq_ok.1 hr
    cases hr

/-- What a clean write was, and what it leaves. -/
private theorem of_clean (hwrite : write = .set x v ∨ write = .setPublic x v)
    (hclean : write.run (host natives depth) w = .ok (.dirty false) w') :
    Scope.isDirty (w.scope.get? x) v = false ∧
      (w' = w.store (w.scope.put x v) ∨
        write = .setPublic x v ∧ w' = (w.publish x).store (w.scope.putPublic x v)) := by
  rcases hwrite with rfl | rfl
  · have hanswer := write_answer (host natives depth) Scope.put x v w
    rw [host_scope, host_withScope] at hanswer
    obtain ⟨hd, hw'⟩ := eq_of_clean_answer (hanswer.symm.trans hclean)
    exact ⟨hd, .inl hw'⟩
  · have hanswer := write_answer (host natives depth) Scope.putPublic x v (w.publish x)
    rw [host_scope, host_withScope] at hanswer
    obtain ⟨hd, hw'⟩ := eq_of_clean_answer (hanswer.symm.trans hclean)
    exact ⟨hd, .inr ⟨rfl, hw'⟩⟩

/-- A clean write of the value that is there leaves a scope that nobody tells from the one before. -/
private theorem alike_of_clean (hwrite : write = .set x v ∨ write = .setPublic x v)
    (hclean : write.run (host natives depth) w = .ok (.dirty false) w')
    (hseen : write = .setPublic x v → w.scope.isPublic x = true ∨ Incurious natives w)
    (hsame : w.scope.get? x = some v) :
    ∃ E, Scope.Likeness E ∧ (∀ id args, (natives id args).BlindTo E) ∧ Alike E w w' := by
  have heq (id : Nat) (args : List Value) : (natives id args).BlindTo Eq := Activity.blindTo_eq _
  obtain ⟨-, rfl | ⟨rfl, rfl⟩⟩ := of_clean hwrite hclean
  · have hput := Scope.put_of_get? hsame
    exact ⟨Eq, .eq, heq, hput.symm, rfl, rfl, fun l _ y => (l y).blindTo_eq⟩
  · rcases hseen rfl with hx | ⟨hn, hl⟩
    · have hput := Scope.putPublic_of_get? hsame hx
      exact ⟨Eq, .eq, heq, hput.symm, rfl, rfl, fun l _ y => (l y).blindTo_eq⟩
    · have hput := Scope.putPublic_agrees_of_get? hsame
      exact ⟨Scope.Agrees, Scope.agrees_likeness, hn, hput, rfl, rfl, hl⟩

/-- A write that is not dirty replaces a value by the same one or by a number in another guise. In the
first case every template makes afterwards of the scope what it made of it before, the same output
or the same error, whatever listeners and native functions do meanwhile; only that a write that
makes an internal property public must not be seen by those that look at what is public. In the
second case some template tells. -/
theorem clean_write_unseen (hwrite : write = .set x v ∨ write = .setPublic x v)
    (hclean : write.run (host natives depth) w = .ok (.dirty false) w')
    (hseen : write = .setPublic x v → w.scope.isPublic x = true ∨ Incurious natives w) :
    ∃ u, w.scope.get? x = some u ∧
      (¬ u.Disguised v → ∀ depth source t,
        (Eval.template (host natives depth) source t).ending w' =
          (Eval.template (host natives depth) source t).ending w) ∧
      (u.Disguised v → ∃ t, ∀ depth source,
        ((Eval.template (host natives depth) source t).ending w').map Rendered.markup ≠
          ((Eval.template (host natives depth) source t).ending w).map Rendered.markup) := by
  obtain ⟨hd, hw'⟩ := of_clean hwrite hclean
  obtain ⟨u, hu⟩ := Scope.exists_of_clean hd
  rw [hu] at hd
  refine ⟨u, hu, fun hguise depth source t => ?_, fun hguise => ?_⟩
  · rcases Scope.eq_or_disguised_of_clean hd with rfl | hguise'
    · obtain ⟨E, hE, hn, halike⟩ := alike_of_clean hwrite hclean hseen hu
      exact ((Eval.template_related (host_agree hE hn depth) source t).ending halike).symm
    · exact absurd hguise' hguise
  · obtain ⟨t, ht⟩ := Eval.exists_template_of_disguised x hguise
    refine ⟨t, fun depth source => ht _ _ _ source ?_ ?_⟩
    · rwa [host_scope]
    · rw [host_scope]
      rcases hw' with rfl | ⟨-, rfl⟩
      · exact (Scope.get?_put ..).trans (if_pos rfl)
      · exact (Scope.get?_putPublic ..).trans (if_pos rfl)

def greeter : Nat → List Value → Activity Unit := fun _ _ =>
  .look fun s _ => .done ((s.get? "greeting").getD .null)

def discreet : World Unit :=
  { ofProps [] () with
    now := ⟨⟨[], [("greeting", .string "hi"), ("greet", .native 0)]⟩, []⟩ }

theorem greeting_clean_write_unseen :
    let published := (discreet.publish "greeting").store
      (discreet.scope.putPublic "greeting" (.string "hi"))
    (Deed.setPublic "greeting" (.string "hi")).run (host greeter 1) discreet =
      .ok (.dirty false) published ∧
    ∀ depth source t, (Eval.template (host greeter depth) source t).ending published =
      (Eval.template (host greeter depth) source t).ending discreet := by
  intro published
  have hclean : (Deed.setPublic "greeting" (.string "hi")).run (host greeter 1) discreet =
      .ok (.dirty false) published := rfl
  have hblind (id : Nat) (args : List Value) : (greeter id args).BlindTo Scope.Agrees :=
    fun s _ => ⟨trivial, fun t h =>
      congrArg (fun o : Option Value => Activity.done (o.getD .null)) (h "greeting")⟩
  obtain ⟨u, hu, hsame, -⟩ := clean_write_unseen (.inr rfl) hclean fun _ => .inr ⟨hblind, nofun⟩
  cases hu
  exact ⟨hclean, hsame nofun⟩

def census : Nat → List Value → Activity Unit := fun _ _ =>
  .look fun s _ => .done (.int (Int64.ofNat s.keys.length))

/-- Zero is written over zero, and a null over itself, without being dirty. But the zero has another
sign, which a template shows; and the null becomes public, which a template shows that calls a
function that counts the public names. -/
theorem clean_writes_show :
    (let zero : World Unit := ofProps [("x", .float 0.0)] ()
      let t : Template := ⟨[.value (.name "x")]⟩
      ∃ w, (Deed.set "x" (.float (-0.0))).run (host census 1) zero = .ok (.dirty false) w ∧
        ((Eval.template (host census 1) 0 t).ending zero).map Rendered.markup = .ok "0" ∧
        ((Eval.template (host census 1) 0 t).ending w).map Rendered.markup = .ok "-0") ∧
    let hidden : World Unit :=
      { ofProps [] () with now := ⟨⟨[], [("x", .null), ("count", .native 0)]⟩, []⟩ }
    let t : Template := ⟨[.value (.call (.name "count") [])]⟩
    ∃ w, (Deed.setPublic "x" .null).run (host census 1) hidden = .ok (.dirty false) w ∧
      ((Eval.template (host census 1) 0 t).ending hidden).map Rendered.markup = .ok "0" ∧
      ((Eval.template (host census 1) 0 t).ending w).map Rendered.markup = .ok "1" := by
  refine ⟨⟨_, rfl, ?_, ?_⟩, ⟨_, rfl, ?_, ?_⟩⟩
  · rfl
  · rfl
  · rfl
  · rfl

end World

namespace Session

variable {s : Session} {i : InstanceId} {inst : Instance}

/-- An instance that is not rendered after a clean write shows what its program makes of its
properties all the same. -/
theorem treesOf_clean_write (hi : s.instances[i]? = some inst) (hu : inst.scope.get? x = some u)
    (hclean : Scope.isDirty (some u) v = false) (hguise : ¬ u.Disguised v) :
    treesOf i (Run.left (setPublic i x v) s) = treesOf i s := by
  obtain rfl := (Scope.eq_or_disguised_of_clean hclean).resolve_right hguise
  have hleft : Run.left (setPublic i x u) s = _ := left_write (.set x u) s
  rw [Write.apply, Write.dirty, scopeOf_eq hi, hu, hclean] at hleft
  rw [hleft]
  exact treesOf_congr hi (getElem?_modifyInstance_self hi _) ⟨rfl, rfl⟩ rfl
    (Scope.putPublic_agrees_of_get? hu)

end Session

end LiveMarkup
