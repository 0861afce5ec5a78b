import LiveMarkup.Proofs.Eval.Writes
import LiveMarkup.Proofs.Scope.Visibility
import LiveMarkup.View.Handle

/-! Scopes among listeners and native functions that may do anything with them. What is visible of a
scope, and in which order, follows from the properties that it began with and the calls that make
a name public, whoever makes them and however deep they are nested. -/

namespace LiveMarkup

inductive Deed where
  | set (x : String) (v : Value)
  | setPublic (x : String) (v : Value)
  | declare (x : String) (v : Value)
  | update (x : String) (change : Value → Value)
  | evaluate (source : Nat) (e : Expr)
  | script (source : Nat) (s : Script)
  | template (source : Nat) (t : Template)
  | call (f : Value) (args : List Value)

inductive Answer where
  | done
  | dirty (d : Bool)
  | value (v : Value)
  | output (r : Rendered)

/-- What a listener, a native function or the owner of a scope does. Each may look at the scope at any
time, keep something in mind for later, and go on in whatever way a deed ends, failure included. -/
inductive Activity (μ : Type) where
  | done (v : Value)
  | fail (e : EvalError)
  | look (next : Scope → μ → Activity μ)
  | note (memory : μ) (next : Activity μ)
  | subscribe (listener : String → Activity μ) (next : Activity μ)
  | act (deed : Deed) (next : Except Stop Answer → Activity μ)

/-- A scope as a write left it, and the names for which it had been asked by then to make them
public, in the order of the calls. -/
structure Scope.Stage where
  scope : Scope
  published : List String

/-- A scope with all its earlier stages, latest first, and those who listen to it. -/
structure World (μ : Type) where
  now : Scope.Stage
  past : List Scope.Stage
  published : List String
  listeners : List (String → Activity μ)
  /-- The properties that listeners have been told of, latest first. -/
  told : List String
  memory : μ

namespace World

variable {μ : Type}

def ofProps (props : Bindings) (memory : μ) : World μ :=
  ⟨⟨Scope.ofProps props, []⟩, [], [], [], [], memory⟩

def scope (w : World μ) : Scope := w.now.scope

def stages (w : World μ) : List Scope.Stage := w.now :: w.past

def store (scope : Scope) (w : World μ) : World μ :=
  { w with now := ⟨scope, w.published⟩, past := w.stages }

def publish (x : String) (w : World μ) : World μ := { w with published := w.published ++ [x] }

def tell (x : String) (w : World μ) : World μ := { w with told := x :: w.told }

end World

variable {μ : Type}

def Deed.run (h : Host (World μ)) : Deed → Run (World μ) Answer
  | .set x v => return .dirty (← h.set x v)
  | .setPublic x v => do
    modify (World.publish x)
    return .dirty (← h.setPublic x v)
  | .declare x v => do
    h.declare x v
    return .done
  | .update x change => do
    h.update x change
    return .done
  | .evaluate source e => return .value (← Eval.value h source e)
  | .script source s => do
    Eval.script h source s
    return .done
  | .template source t => return .output (← Eval.template h source t)
  | .call f args => return .value (← Eval.callFunction h f args)

def Activity.run (h : Host (World μ)) : Activity μ → Run (World μ) Value
  | .done v => pure v
  | .fail e => Run.fail e
  | .look next => fun w => (next w.scope w.memory).run h w
  | .note memory next => fun w => next.run h { w with memory }
  | .subscribe listener next => fun w =>
    next.run h { w with listeners := w.listeners ++ [listener] }
  | .act deed next => fun w =>
    match deed.run h w with
    | .ok a w' => (next (.ok a)).run h w'
    | .error e w' => (next (.error e)).run h w'

namespace World

/-- A scope whose listeners and native functions do what they like with it, one within another at
most `depth` deep. Listeners are told in the order in which they were subscribed, until one fails. -/
def host (natives : Nat → List Value → Activity μ) : Nat → Host (World μ)
  | 0 =>
    { scope := scope, withScope := store
      notify := fun _ => throw (.fault .outOfFuel), native := fun _ _ => throw (.fault .outOfFuel) }
  | depth + 1 =>
    { scope := scope, withScope := store
      notify := fun x => do
        modify (tell x)
        (← get).listeners.forM fun l => do let _ ← (l x).run (host natives depth)
      native := fun id args => (natives id args).run (host natives depth) }

theorem host_scope (natives : Nat → List Value → Activity μ) (depth : Nat) :
    (host natives depth).scope = scope := by
  cases depth <;> rfl

theorem host_withScope (natives : Nat → List Value → Activity μ) (depth : Nat) :
    (host natives depth).withScope = store := by
  cases depth <;> rfl

end World

/-! What everybody's deeds keep. -/

/-- Nothing but such deeds is ever done, whatever is seen and answered, nor by listeners that are
subscribed on the way. -/
def Activity.Allows (ok : Deed → Prop) : Activity μ → Prop
  | .done _ => True
  | .fail _ => True
  | .look next => ∀ scope memory, (next scope memory).Allows ok
  | .note _ next => next.Allows ok
  | .subscribe listener next => (∀ x, (listener x).Allows ok) ∧ next.Allows ok
  | .act deed next => ok deed ∧ ∀ a, (next a).Allows ok

/-- All that can be done but to make a name public. -/
def Deed.Discreet : Deed → Prop
  | .setPublic .. => False
  | _ => True

private theorem Activity.allows_all (a : Activity μ) : a.Allows fun _ => True := by
  induction a with
  | done | fail => trivial
  | look next ih => exact ih
  | note memory next ih => exact ih
  | subscribe listener next hl ih => exact ⟨hl, ih⟩
  | act deed next ih => exact ⟨trivial, ih⟩

namespace World

/-- Nobody listens who would do other deeds. -/
def Heeds (ok : Deed → Prop) (w : World μ) : Prop := ∀ l ∈ w.listeners, ∀ x, (l x).Allows ok

/-- A property that no single step of such deeds takes away. -/
structure Preserved (ok : Deed → Prop) (P : World μ → Prop) : Prop where
  put : ∀ w x v, P w → P (w.store (w.scope.put x v))
  putPublic : ∀ w x v, ok (.setPublic x v) → P w → P ((w.publish x).store (w.scope.putPublic x v))
  tell : ∀ w x, P w → P (w.tell x)
  note : ∀ w m, P w → P { w with memory := m }
  subscribe : ∀ w l, P w → P { w with listeners := w.listeners ++ [l] }

variable {ok : Deed → Prop} {P : World μ → Prop} {h : Host (World μ)}
  {natives : Nat → List Value → Activity μ}

/-- The property, and nobody listens who could take it away. -/
abbrev Guarded (ok : Deed → Prop) (P : World μ → Prop) (w : World μ) : Prop := P w ∧ w.Heeds ok

/-- What a host for such deeds has to keep. -/
structure Serves (ok : Deed → Prop) (P : World μ → Prop) (h : Host (World μ)) : Prop where
  scope : h.scope = scope
  withScope : h.withScope = store
  upholds : h.Upholds (Guarded ok P)

private theorem Preserved.deed_run (hp : Preserved ok P) (s : Serves ok P h) {d : Deed} (hd : ok d) :
    Run.Keeps (Guarded ok P) (d.run h) := by
  have u := s.upholds
  cases d with
  | set x v => exact (u.set x v).bind fun _ => .pure _
  | setPublic x v =>
    intro w hw
    show Guarded ok P (Run.left (h.setPublic x v >>= fun d => pure (Answer.dirty d)) (w.publish x))
    rw [Run.left_bind_pure]
    refine Host.left_write ?_ (u.notify x)
    rw [s.scope, s.withScope]
    exact ⟨hp.putPublic w x v hd hw.1, hw.2⟩
  | declare x v => exact (u.declare x v).bind fun _ => .pure _
  | update x change => exact (u.update x change).bind fun _ => .pure _
  | evaluate source e => exact (u.value source e).bind fun _ => .pure _
  | script source t => exact (u.script source t).bind fun _ => .pure _
  | template source t => exact (u.template source t).bind fun _ => .pure _
  | call f args => exact (u.callFunction f args).bind fun _ => .pure _

private theorem Preserved.activity_run (hp : Preserved ok P) (s : Serves ok P h) {a : Activity μ}
    (ha : a.Allows ok) : Run.Keeps (Guarded ok P) (a.run h) := by
  induction a with
  | done v => exact .pure v
  | fail e => exact .throw _
  | look next ih => exact fun w hw => ih w.scope w.memory (ha _ _) w hw
  | note memory next ih => exact fun w hw => ih ha _ ⟨hp.note w memory hw.1, hw.2⟩
  | subscribe listener next _ ih =>
    rintro w ⟨hw, hl⟩
    refine ih ha.2 _ ⟨hp.subscribe w listener hw, fun l hmem => ?_⟩
    rcases List.mem_append.1 hmem with hmem | hmem
    · exact hl l hmem
    · exact List.mem_singleton.1 hmem ▸ ha.1
  | act deed next ih =>
    intro w hw
    have hd := hp.deed_run s ha.1 w hw
    cases hr : deed.run h w with
    | ok a w' =>
      have hstep : (Activity.act deed next).run h w = (next (.ok a)).run h w' := by
        simp only [Activity.run, hr]
      rw [Run.left_congr hstep]
      exact ih (.ok a) (ha.2 _) w' (Run.left_of_ok hr ▸ hd)
    | error e w' =>
      have hstep : (Activity.act deed next).run h w = (next (.error e)).run h w' := by
        simp only [Activity.run, hr]
      rw [Run.left_congr hstep]
      exact ih (.error e) (ha.2 _) w' (Run.left_of_error hr ▸ hd)

/-- Whatever listeners and native functions do, how deep they may be nested, keeps what each of their
deeds keeps. -/
private theorem Preserved.host_serves (hp : Preserved ok P)
    (hn : ∀ id args, (natives id args).Allows ok) (depth : Nat) :
    Serves ok P (host natives depth) := by
  have hput (w : World μ) (x : String) (v : Value) (hw : Guarded ok P w) :
      Guarded ok P (w.store (w.scope.put x v)) := ⟨hp.put w x v hw.1, hw.2⟩
  induction depth with
  | zero => exact ⟨rfl, rfl, hput, fun _ => .throw _, fun _ _ => .throw _⟩
  | succ depth ih =>
    refine ⟨rfl, rfl, hput, fun x => ?_, fun id args => hp.activity_run ih (hn id args)⟩
    refine .bind (.modify fun w hw => ⟨hp.tell w x hw.1, hw.2⟩) fun _ => .get_bind fun w hw => ?_
    refine .forM_of_mem fun l hl => ?_
    exact (hp.activity_run ih (hw.2 l hl x)).bind fun _ => .pure _

/-! What holds of a scope all the time. -/

/-- All stages of a scope are sane, their public names are those given, each where it first stands,
and each stage has what the earlier ones have. -/
structure Recorded (names : List String) (w : World μ) : Prop where
  sane : ∀ m ∈ w.stages, m.scope.Sane
  keys : ∀ m ∈ w.stages, m.scope.keys = (names ++ m.published).eraseDups
  older : w.stages.Pairwise fun later earlier => Scope.Older earlier.scope later.scope
  published : w.now.published = w.published

variable {names : List String} {w : World μ}

private theorem recorded_ofProps (props : Bindings) (memory : μ) :
    (ofProps props memory).Recorded (props.map (·.1)) where
  sane m hm := List.mem_singleton.1 hm ▸ Scope.sane_ofProps props
  keys m hm := by
    rw [List.mem_singleton.1 hm]
    exact (Scope.keys_ofProps props).trans (by rw [ofProps, List.append_nil])
  older := List.pairwise_singleton _ _
  published := rfl

/-- A next stage with what it has to have. -/
private theorem Recorded.store (r : w.Recorded names) {scope : Scope} {published : List String}
    (hs : scope.Sane) (hk : scope.keys = (names ++ published).eraseDups)
    (ho : Scope.Older w.scope scope) :
    ({ w with published }.store scope).Recorded names where
  sane m hm := by
    rcases List.mem_cons.1 hm with rfl | hm
    · exact hs
    · exact r.sane m hm
  keys m hm := by
    rcases List.mem_cons.1 hm with rfl | hm
    · exact hk
    · exact r.keys m hm
  older := by
    refine List.pairwise_cons.2 ⟨fun m hm => ?_, r.older⟩
    rcases List.mem_cons.1 hm with rfl | hm
    · exact ho
    · exact ((List.pairwise_cons.1 r.older).1 m hm).trans ho
  published := rfl

private theorem recorded_preserved (names : List String) :
    Preserved (fun _ => True) (Recorded (μ := μ) names) where
  put w x v r := by
    have hs := r.sane w.now List.mem_cons_self
    have hk := r.keys w.now List.mem_cons_self
    rw [r.published] at hk
    exact r.store (hs.put x v) ((Scope.keys_put x v w.scope).trans hk) (Scope.older_put x v w.scope)
  putPublic w x v _ r := by
    have hs := r.sane w.now List.mem_cons_self
    have hk := r.keys w.now List.mem_cons_self
    rw [r.published] at hk
    have hk' := Scope.keys_putPublic_of_eq hk x v
    rw [List.append_assoc] at hk'
    exact r.store (hs.putPublic x v) hk' (Scope.older_putPublic x v w.scope)
  tell _ _ r := ⟨r.sane, r.keys, r.older, r.published⟩
  note _ _ r := ⟨r.sane, r.keys, r.older, r.published⟩
  subscribe _ _ r := ⟨r.sane, r.keys, r.older, r.published⟩

/-- Stages are never taken back. -/
private theorem stages_preserved (stages : List Scope.Stage) :
    Preserved (fun _ => True) fun w : World μ => stages <:+ w.stages where
  put _ _ _ h := h.trans (List.suffix_cons _ _)
  putPublic _ _ _ _ h := h.trans (List.suffix_cons _ _)
  tell _ _ h := h
  note _ _ h := h
  subscribe _ _ h := h

private theorem keys_preserved (keys : List String) :
    Preserved Deed.Discreet fun w : World μ => w.scope.keys = keys where
  put w x v h := (Scope.keys_put x v w.scope).trans h
  putPublic _ _ _ hd _ := hd.elim
  tell _ _ h := h
  note _ _ h := h
  subscribe _ _ h := h

private theorem host_serves_all {P : World μ → Prop} (hp : Preserved (fun _ => True) P)
    (natives : Nat → List Value → Activity μ) (depth : Nat) :
    Serves (fun _ => True) P (host natives depth) :=
  hp.host_serves (fun _ _ => Activity.allows_all _) depth

private theorem guarded_of (h : P w) : Guarded (fun _ => True) P w :=
  ⟨h, fun _ _ _ => Activity.allows_all _⟩

private theorem recorded_run (natives : Nat → List Value → Activity μ) (depth : Nat)
    (props : Bindings) (memory : μ) (a : Activity μ) :
    ((a.run (host natives depth)).left (ofProps props memory)).Recorded (props.map (·.1)) := by
  have hp := recorded_preserved (μ := μ) (props.map (·.1))
  have hk := hp.activity_run (host_serves_all hp natives depth) a.allows_all
  exact (hk _ (guarded_of (recorded_ofProps props memory))).1

private theorem stages_notify (natives : Nat → List Value → Activity μ) (depth : Nat) (x : String)
    (w : World μ) : w.stages <:+ (((host natives depth).notify x).left w).stages := by
  have hp := stages_preserved (μ := μ) w.stages
  have hk := (host_serves_all hp natives depth).upholds.notify x
  exact (hk w (guarded_of List.suffix_rfl)).1

private theorem keys_of_discreet (hn : ∀ id args, (natives id args).Allows Deed.Discreet)
    (hl : w.Heeds Deed.Discreet) (depth : Nat) {d : Deed} (hd : d.Discreet) :
    ((d.run (host natives depth)).left w).scope.keys = w.scope.keys := by
  have hp := keys_preserved (μ := μ) w.scope.keys
  have hk := hp.deed_run (hp.host_serves hn depth) hd
  exact (hk w ⟨rfl, hl⟩).1

/-! How deeds go on from what they store. -/

def settleWrite (h : Host (World μ)) (x : String) (dirty : Bool) : Run (World μ) Answer :=
  if dirty then h.notify x >>= fun _ => pure (.dirty true) else pure (.dirty false)

theorem write_answer (h : Host (World μ)) (put : String → Value → Scope → Scope) (x : String)
    (v : Value) (w : World μ) :
    (h.write put x v >>= fun d => pure (Answer.dirty d)) w =
      settleWrite h x (Scope.isDirty ((h.scope w).get? x) v)
        (h.withScope (put x v (h.scope w)) w) := by
  rw [Run.bind_of_eq (h.write_eq put x v w), settleWrite]
  split <;> simp only [bind_assoc, pure_bind]

/-- Whatever is done with a scope, by whomever and in whatever depth, its public names are those that
it began with and then those made public since, in the order of the first call for each; nothing
that is there is taken away, nothing public is hidden. A write has stored its value before the first
listener is told, and whatever the listeners do then, that stage stays. Without a call that makes
a name public no name becomes public. The user's handle shows the public properties and no others. -/
theorem visibility (natives : Nat → List Value → Activity μ) (depth : Nat) (props : Bindings)
    (memory : μ) (a : Activity μ) :
    let h := host natives depth
    let w := (a.run h).left (ofProps props memory)
    (∀ m ∈ w.stages, m.scope.keys.Nodup ∧ (∀ x, x ∈ m.scope.keys ↔ m.scope.isPublic x = true) ∧
      m.scope.keys = (props.map (·.1) ++ m.published).eraseDups) ∧
    w.now.published = w.published ∧
    (w.stages.Pairwise fun later earlier => earlier.scope.keys <+: later.scope.keys ∧ ∀ x,
      (earlier.scope.contains x = true → later.scope.contains x = true) ∧
      (earlier.scope.isPublic x = true → later.scope.isPublic x = true)) ∧
    (∀ x v,
      (w.scope.put x v).register = w.scope.register.write false x v ∧
      (w.scope.putPublic x v).register = w.scope.register.write true x v ∧
      (w.scope.put x v).get? x = some v ∧ (w.scope.putPublic x v).get? x = some v ∧
      (w.scope.putPublic x v).isPublic x = true ∧
      let dirty := Scope.isDirty (w.scope.get? x) v
      (Deed.set x v).run h w = settleWrite h x dirty (w.store (w.scope.put x v)) ∧
      (Deed.setPublic x v).run h w =
        settleWrite h x dirty ((w.publish x).store (w.scope.putPublic x v)) ∧
      (Deed.declare x v).run h w = .ok .done (w.store (w.scope.put x v))) ∧
    (∀ x change, (Deed.update x change).run h w = match w.scope.get? x with
      | none => .error (.error (.undefinedVariable x)) w
      | some v => (h.notify x >>= fun _ => pure .done) (w.store (w.scope.put x (change v)))) ∧
    (∀ x stored, stored.stages <:+ ((h.notify x).left stored).stages) ∧
    ((∀ id args, (natives id args).Allows Deed.Discreet) → w.Heeds Deed.Discreet →
      ∀ d : Deed, d.Discreet → ((d.run h).left w).scope.keys = w.scope.keys) ∧
    ∀ s i, Session.scopeOf i s = w.scope →
      (∀ x, s.getPublic? i x = if w.scope.isPublic x then w.scope.get? x else none) ∧
      (∃ entries : Dictionary Json, s.propsJson i = .object entries ∧ entries.Sorted ∧
        ∀ x, entries.get? x = (s.getPublic? i x).map Value.toJson) ∧
      ∀ x c, Session.updatePublic i x c s =
        if w.scope.isPublic x then (Session.host i).update x c.apply s
        else .error (.error (.undefinedVariable x)) s := by
  intro h w
  have r : w.Recorded _ := recorded_run natives depth props memory a
  have hscope : h.scope = scope := host_scope natives depth
  have hstore : h.withScope = store := host_withScope natives depth
  refine ⟨fun m hm => ⟨(r.sane m hm).shown, fun x => Scope.mem_keys_iff, r.keys m hm⟩, r.published,
    r.older.imp fun o => ⟨o.keys, fun x => ⟨o.contains x, o.isPublic⟩⟩, fun x v => ?_,
    fun x change => ?_, stages_notify natives depth,
    fun hn hl d hd => keys_of_discreet hn hl depth hd, fun s i hs => ⟨fun x => ?_, ?_, fun x c => ?_⟩⟩
  · refine ⟨Scope.register_put x v _, Scope.register_putPublic x v _, ?_, ?_, ?_, ?_, ?_, ?_⟩
    · rw [Scope.get?_put, if_pos rfl]
    · rw [Scope.get?_putPublic, if_pos rfl]
    · rw [Scope.isPublic_putPublic, beq_self_eq_true, Bool.true_or]
    · have hw := write_answer h Scope.put x v w
      rwa [hscope, hstore] at hw
    · have hw := write_answer h Scope.putPublic x v (w.publish x)
      rwa [hscope, hstore] at hw
    · show EStateM.Result.ok Answer.done (h.withScope ((h.scope w).put x v) w) = _
      rw [hscope, hstore]
  · have hu := h.update_eq x change w
    rw [hscope, hstore] at hu
    cases hg : w.scope.get? x with
    | none =>
      rw [hg] at hu
      exact Run.bind_of_error hu
    | some v =>
      rw [hg] at hu
      exact Run.bind_of_eq hu
  · rw [Session.getPublic?, hs]
    exact Scope.getPublic?_eq x w.scope
  · rw [Session.propsJson, hs]
    obtain ⟨entries, he, hsorted, hentries⟩ := (r.sane w.now List.mem_cons_self).toJson
    exact ⟨entries, he, hsorted, fun x => by rw [Session.getPublic?, hs]; exact hentries x⟩
  · show (if (Session.scopeOf i s).isPublic x = true then (Session.host i).update x c.apply
      else Run.fail (.undefinedVariable x) : Run Session Unit) s = _
    rw [hs]
    split <;> rfl

/-- Somebody who subscribes a listener, which makes a property public and fails when it is told of
another one, then writes that one and makes it public in turn. -/
def chatty : Activity Unit :=
  let listener (x : String) : Activity Unit :=
    if x = "b" then .act (.setPublic "c" .null) fun _ => .fail .divisionByZero else .done .null
  .subscribe listener
    (.act (.set "b" (.bool true)) fun _ => .act (.setPublic "b" .null) fun _ => .done .null)

example : ((chatty.run (host (fun _ _ => .done .null) 3)).left
    (ofProps [("a", .null)] ())).scope.keys = ["a", "c", "b"] := by decide +kernel

end World

end LiveMarkup
