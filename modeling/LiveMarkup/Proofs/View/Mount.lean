import LiveMarkup.Proofs.View.Calm

/-! Making an instance: it is given a number, its script is run, it is rendered, and its output is put
into the document. -/

namespace LiveMarkup.Session

open Run (Keeps Related)

variable {s t : Session} {i j : InstanceId} {r : Recipe} {props : Bindings} {isPublic : Bool}
  {natives : List (String × (List Value → Procedure))} {target : NodeId}

def unborn (r : Recipe) (props : Bindings) : Instance :=
  { definition := r.definition, scope := .ofProps props, discipline := r.discipline
    escaped := r.escaped, output := none, renders := 0, pending := false, phase := .idle
    alive := false }

def joined (inst : Instance) (s : Session) : Session :=
  { s with instances := s.instances.push inst }

theorem getElem?_joined (inst : Instance) (s : Session) :
    (joined inst s).instances[s.instances.size]? = some inst := by
  rw [joined, Array.getElem?_push, if_pos rfl]

def setAlive (i : InstanceId) (alive : Bool) : Run Session Unit :=
  modify fun s => s.modifyInstance i fun inst => { inst with alive }

def firstUpdate (i : InstanceId) : Run Session (InstanceId × NodeId) :=
  tryCatch
    (do match ← update i with
      | some fragment => return (i, fragment)
      | none => Run.fail .alreadyRendered)
    fun e => do
      setAlive i false
      modify settle
      throw e

/-- What precedes the life of an instance: it gets its native functions, and its script is run. -/
def prepare (r : Recipe) (isPublic : Bool) (natives : List (String × (List Value → Procedure)))
    (i : InstanceId) : Run Session Unit := do
  install (scriptHost i) isPublic natives
  Eval.script (scriptHost i) r.definition.scriptSource r.definition.script

def bring (r : Recipe) (isPublic : Bool) (natives : List (String × (List Value → Procedure)))
    (i : InstanceId) : Run Session (InstanceId × NodeId) := do
  prepare r isPublic natives i
  setAlive i true
  firstUpdate i

theorem instantiate_eq (r : Recipe) (props : Bindings) (isPublic : Bool)
    (natives : List (String × (List Value → Procedure))) (s : Session) :
    instantiate r props isPublic natives s =
      bring r isPublic natives s.instances.size (joined (unborn r props) s) := by
  have hread : instantiate r props isPublic natives s = (do
      install (scriptHost s.instances.size) isPublic natives
      Eval.script (scriptHost s.instances.size) r.definition.scriptSource r.definition.script
      setAlive s.instances.size true
      firstUpdate s.instances.size) (joined (unborn r props) s) := rfl
  rw [hread, bring, prepare, bind_assoc]

theorem mount_eq (r : Recipe) (props : Bindings) (isPublic : Bool)
    (natives : List (String × (List Value → Procedure))) (target : NodeId) (s : Session) :
    mount r props isPublic natives target s =
      (bring r isPublic natives s.instances.size >>= fun p => do
        edit fun f => f.append target p.2
        return p) (joined (unborn r props) s) := by
  have hread : mount r props isPublic natives target s =
      (instantiate r props isPublic natives >>= fun p => do
        edit fun f => f.append target p.2
        return p) s := rfl
  have hmade := instantiate_eq r props isPublic natives s
  rw [hread]
  cases h : bring r isPublic natives s.instances.size (joined (unborn r props) s) with
  | ok p t => rw [Run.bind_of_ok (hmade.trans h), Run.bind_of_ok h]
  | error e t => rw [Run.bind_of_error (hmade.trans h), Run.bind_of_error h]

/-- Native functions are put into scopes alike. -/
theorem install_related {R : Session → Session → Prop} {h : Host Session}
    (a : Host.Agree Eq R h h) (hn : ∀ {s t}, R s t → t.natives = s.natives)
    (hput : ∀ {s t} natives, R s t → R { s with natives } { t with natives }) (isPublic : Bool)
    (natives : List (String × (List Value → Procedure))) :
    Related R (install h isPublic natives) (install h isPublic natives) := by
  induction natives with
  | nil => exact .pure _
  | cons p natives ih =>
    refine .get_bind fun s t hst => ?_
    rw [hn hst]
    refine .bind (.modify fun s t hst => ?_) fun _ => ?_
    · rw [hn hst]
      exact hput _ hst
    · split
      · exact .bind (a.write (fun he _ _ => by rw [he]) _ _) fun _ => ih
      · exact .bind (a.declare _ _) fun _ => ih

private theorem install_keeps {P : Session → Prop} {h : Host Session} (hh : h.Keeps P)
    (hn : ∀ s natives, P s → P { s with natives }) (isPublic : Bool)
    (natives : List (String × (List Value → Procedure))) :
    Keeps P (install h isPublic natives) := by
  refine Run.keeps_iff_related.2 (install_related hh.agree ?_ ?_ isPublic natives)
  · rintro s _ ⟨rfl, -⟩
    rfl
  · rintro s _ natives ⟨rfl, hs⟩
    exact ⟨rfl, hn s natives hs⟩

theorem prepare_keeps {P : Session → Prop} (hscope : ∀ scope s, P s → P (withScopeOf i scope s))
    (htell : ∀ e (s : Session), P s → P { s with events := e :: s.events })
    (hn : ∀ s natives, P s → P { s with natives }) : Keeps P (prepare r isPublic natives i) := by
  have hh : (scriptHost i).Keeps P := hostWith_keeps hscope htell fun _ => .pure _
  exact .bind (install_keeps hh hn isPublic natives) fun _ => hh.script _ _

/-- What the parts of making an instance keep, all of it keeps. -/
theorem bring_keeps {P : Session → Prop} (hscope : ∀ scope s, P s → P (withScopeOf i scope s))
    (htell : ∀ e (s : Session), P s → P { s with events := e :: s.events })
    (hn : ∀ s natives, P s → P { s with natives }) (ha : ∀ alive, Keeps P (setAlive i alive))
    (hu : Keeps P (update i)) (hs : ∀ s, P s → P (settle s)) :
    Keeps P (bring r isPublic natives i) := by
  refine .bind (prepare_keeps hscope htell hn) fun _ => ?_
  refine .bind (ha true) fun _ => .tryCatch (.bind hu fun fragment => ?_) fun e => ?_
  · split
    · exact .pure _
    · exact .throw _
  · exact .bind (ha false) fun _ => .bind (.modify hs) fun _ => .throw _

theorem edit_eq (change : Forest Handler → Except DocumentError (Forest Handler)) (s : Session) :
    edit change s =
      match change s.document.forest with
      | .error e => .error (.error (.document e)) s
      | .ok forest => .ok () (settle { s with document := { s.document with forest } }) := by
  have hread : edit change s = _ := Run.bind_of_ok (rfl : (get : Run Session Session) s = .ok s s)
  rw [hread]
  cases change s.document.forest <;> rfl

theorem edit_keeps {P : Session → Prop}
    {change : Forest Handler → Except DocumentError (Forest Handler)}
    (h : ∀ s forest, P s → P (settle { s with document := { s.document with forest } })) :
    Keeps P (edit change) := by
  refine .get_bind fun s hs => ?_
  split
  · exact .throw _
  · exact fun _ _ => h s _ hs

/-- The session `t` is `s` with one more instance, which no job waits for. -/
structure Newborn (r : Recipe) (s t : Session) : Prop where
  frame : t.frame = s.frame
  size : t.instances.size = s.instances.size + 1
  others : ∀ j < s.instances.size, t.instances[j]? = s.instances[j]?
  self : ∃ inst, t.instances[s.instances.size]? = some inst ∧ inst.pending = false ∧
    inst.discipline = r.discipline ∧ inst.phase = .idle

private theorem joined_newborn (r : Recipe) (props : Bindings) (s : Session) :
    Newborn r s (joined (unborn r props) s) where
  frame := rfl
  size := Array.size_push ..
  others j hj := by
    rw [joined, Array.getElem?_push, if_neg (Nat.ne_of_lt hj)]
  self := ⟨unborn r props, getElem?_joined .., rfl, rfl, rfl⟩

private theorem Newborn.modifyInstance (h : Newborn r s t) {change : Instance → Instance}
    (hc : ∀ inst, (change inst).pending = inst.pending ∧
      (change inst).discipline = inst.discipline ∧ (change inst).phase = inst.phase) :
    Newborn r s (t.modifyInstance s.instances.size change) where
  frame := h.frame
  size := by rw [Session.modifyInstance, Array.size_modify, h.size]
  others j hj := by rw [getElem?_modifyInstance_of_ne (Nat.ne_of_lt hj), h.others j hj]
  self := by
    obtain ⟨inst, hi, hp, hd, hf⟩ := h.self
    obtain ⟨hp', hd', hf'⟩ := hc inst
    exact ⟨_, getElem?_modifyInstance_self hi _, hp'.trans hp, hd'.trans hd, hf'.trans hf⟩

private theorem Newborn.update (h : Newborn r s t) :
    Newborn r s (Run.left (update s.instances.size) t) := by
  have hc := update_calm.left (i := s.instances.size) t
  refine ⟨(calm_frame hc).trans h.frame, (calm_size hc).trans h.size, fun j hj => ?_, ?_⟩
  · rw [calm_getElem?_of_ne hc (Nat.ne_of_lt hj), h.others j hj]
  · obtain ⟨inst, hi, hp, hd, -⟩ := h.self
    obtain ⟨inst', hi', hd', hp', -⟩ := calm_getElem? hc.symm hi
    exact ⟨inst', hi', hp'.symm.trans hp, hd'.symm.trans hd, phase_of_update hi'⟩

/-- Mounting adds an instance that is idle and that no job waits for, whether it succeeds or not. -/
theorem mount_newborn (r : Recipe) (props : Bindings) (isPublic : Bool)
    (natives : List (String × (List Value → Procedure))) (target : NodeId) (s : Session) :
    Newborn r s (Run.left (mount r props isPublic natives target) s) := by
  have hbring : Keeps (Newborn r s) (bring r isPublic natives s.instances.size) := by
    refine bring_keeps (fun scope t h => h.modifyInstance fun _ => ⟨rfl, rfl, rfl⟩)
      (fun _ _ h => ?_) (fun _ _ h => ?_) (fun alive => ?_) (fun t h => h.update) fun _ h => ?_
    · exact ⟨h.frame, h.size, h.others, h.self⟩
    · exact ⟨h.frame, h.size, h.others, h.self⟩
    · exact .modify fun t h => h.modifyInstance fun _ => ⟨rfl, rfl, rfl⟩
    · exact ⟨h.frame, h.size, h.others, h.self⟩
  have hmount : Keeps (Newborn r s)
      (bring r isPublic natives s.instances.size >>= fun p => do
        edit fun f => f.append target p.2
        return p) := by
    refine .bind hbring fun p => .bind (edit_keeps fun t _ h => ?_) fun _ => .pure _
    exact ⟨h.frame, h.size, h.others, h.self⟩
  rw [Run.left_congr (mount_eq r props isPublic natives target s)]
  exact hmount _ (joined_newborn r props s)

end LiveMarkup.Session
