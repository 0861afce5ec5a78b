import LiveMarkup.Proofs.Eval.Scopes
import LiveMarkup.Proofs.View.Pass
import LiveMarkup.View.Handle

/-! Writes of a user: a write changes the scope as the scope alone has it, and sets off a dirty write
exactly if it is one. What a job renders is the instance as it is then. -/

namespace LiveMarkup

/-- What a user writes to a public property: a value, or a change of the value in place. -/
inductive Write where
  | set (x : String) (v : Value)
  | change (x : String) (c : Change)

namespace Write

def apply : Write → Scope → Scope
  | set x v, s => s.putPublic x v
  | change x c, s =>
    match s.getPublic? x with
    | some v => s.put x (c.apply v)
    | none => s

/-- Whether the write leaves a view out of date. A change in place always does. -/
def dirty : Write → Scope → Bool
  | set x v, s => Scope.isDirty (s.get? x) v
  | change x _, s => s.isPublic x

def run (i : InstanceId) : Write → Run Session Unit
  | set x v => Session.setPublic i x v
  | change x c => Session.updatePublic i x c

/-- A write that is not dirty changes nothing that a program can read. -/
theorem apply_agrees {w : Write} {s : Scope} (hs : s.Floatless) (ht : (w.apply s).Floatless)
    (h : w.dirty s = false) : s.Agrees (w.apply s) := by
  cases w with
  | set x v => exact fun y => (Scope.putPublic_agrees hs ht h y).symm
  | change x c =>
    have hnone : s.getPublic? x = none := by
      rw [← Option.not_isSome_iff_eq_none]
      exact Bool.eq_false_iff.1 h
    rw [apply, hnone]
    exact fun _ => rfl

end Write

namespace Session

variable {s t : Session} {i : InstanceId} {inst : Instance}

theorem instance?_eq_some : s.instance? i = some inst ↔ s.instances[i]? = some inst ∧ inst.alive := by
  rw [instance?, Option.filter_eq_some_iff]

theorem left_changed_of_dead (h : s.instance? i = none) : Run.left (changed i) s = s := by
  have hread : changed i s = _ :=
    Run.bind_of_ok (rfl : (get : Run Session Session) s = .ok s s)
  rw [h] at hread
  exact Run.left_of_ok hread

/-- What a dirty write sets off at an instance that is idle. -/
theorem changed_eq (h : t.instances[i]? = some inst) (ha : inst.alive) (hp : inst.phase = .idle) :
    changed i t =
      match inst.discipline with
      | .sync => (do let _ ← update i) t
      | .batched =>
        if inst.pending then .ok () t
        else frameHost.request (.act (.render i) .done)
          (t.modifyInstance i fun inst => { inst with pending := true }) := by
  have hread : changed i t = _ :=
    Run.bind_of_ok (rfl : (get : Run Session Session) t = .ok t t)
  rw [hread, instance?, h, Option.filter_some, if_pos ha]
  dsimp only
  rw [if_neg (not_not_intro hp)]
  cases inst.discipline with
  | sync => rfl
  | batched => cases inst.pending <;> rfl

theorem left_changed (h : t.instances[i]? = some inst) (ha : inst.alive) (hp : inst.phase = .idle) :
    Run.left (changed i) t =
      match inst.discipline with
      | .sync => Run.left (update i) t
      | .batched =>
        if inst.pending then t
        else Run.left (frameHost.request (.act (.render i) .done))
          (t.modifyInstance i fun inst => { inst with pending := true }) := by
  have hc := changed_eq h ha hp
  cases hd : inst.discipline with
  | sync =>
    rw [hd] at hc
    exact (Run.left_congr hc).trans (Run.left_bind_pure ..)
  | batched =>
    rw [hd] at hc
    dsimp only at hc ⊢
    cases hw : inst.pending with
    | true =>
      rw [hw] at hc
      exact Run.left_of_ok hc
    | false =>
      rw [hw] at hc
      exact Run.left_congr hc

theorem withScopeOf_scopeOf : withScopeOf i (scopeOf i s) s = s := by
  have hmod : (s.instances.modify i fun inst => { inst with scope := scopeOf i s }) = s.instances := by
    refine Array.ext_getElem? fun k => ?_
    rw [Array.getElem?_modify]
    split
    · next hk =>
      subst hk
      rw [scopeOf]
      cases s.instances[i]? <;> rfl
    · rfl
  simp only [withScopeOf, modifyInstance, hmod]

private theorem left_host_write (put : String → Value → Scope → Scope) (x : String) (v : Value)
    (s : Session) :
    Run.left ((host i).write put x v) s =
      let stored := withScopeOf i (put x v (scopeOf i s)) s
      if Scope.isDirty ((scopeOf i s).get? x) v then Run.left (changed i) stored else stored := by
  have hread : (host i).write put x v s =
      (if Scope.isDirty ((scopeOf i s).get? x) v then (do
        changed i
        return Scope.isDirty ((scopeOf i s).get? x) v)
      else return Scope.isDirty ((scopeOf i s).get? x) v : Run Session Bool)
        (withScopeOf i (put x v (scopeOf i s)) s) := rfl
  rw [Run.left_congr hread]
  cases Scope.isDirty ((scopeOf i s).get? x) v with
  | true => exact Run.left_bind_pure ..
  | false => rfl

/-- A write stores what it writes. Then the instance takes notice of it if it is dirty. -/
theorem left_write (w : Write) (s : Session) :
    Run.left (w.run i) s =
      let stored := withScopeOf i (w.apply (scopeOf i s)) s
      if w.dirty (scopeOf i s) then Run.left (changed i) stored else stored := by
  cases w with
  | set x v =>
    exact (Run.left_bind_pure ((host i).setPublic x v) (fun _ => ()) s).trans (left_host_write ..)
  | change x c =>
    have hread : (Write.change x c).run i s =
        (if (scopeOf i s).isPublic x then (host i).update x c.apply
        else Run.fail (.undefinedVariable x) : Run Session Unit) s := rfl
    have hshown : ((scopeOf i s).shown.get? x).isSome = (scopeOf i s).isPublic x := rfl
    simp only [Write.apply, Write.dirty, Scope.getPublic?, ← hshown]
    rw [← hshown] at hread
    cases hg : (scopeOf i s).shown.get? x with
    | none =>
      rw [hg] at hread
      exact (Run.left_of_error hread).trans withScopeOf_scopeOf.symm
    | some v =>
      have hget : (scopeOf i s).get? x = some v := by rw [Scope.get?, hg, Option.orElse_some]
      have hupdate : (host i).update x c.apply s =
          changed i (withScopeOf i ((scopeOf i s).put x (c.apply v)) s) := by
        have hread : (get : Run Session Session) s = .ok s s := rfl
        have hscope : (host i).scope s = scopeOf i s := rfl
        rw [Host.update, Run.bind_of_ok hread]
        simp only [hscope, hget]
        rfl
      rw [hg, Option.isSome_some, if_pos rfl, hupdate] at hread
      exact Run.left_congr hread

/-! What a job that renders an instance does. -/

theorem left_perform_render (hi : s.instance? i = some inst) :
    Run.left (perform (.render i)) s =
      Run.left (update i) (s.modifyInstance i fun inst => { inst with pending := false }) := by
  have hread : perform (.render i) s =
      (if (s.instance? i).isSome then (do
        modify fun s => s.modifyInstance i fun inst => { inst with pending := false }
        let _ ← update i)
      else pure () : Run Session Unit) s := rfl
  rw [hi, Option.isSome_some, if_pos rfl] at hread
  rw [Run.left_congr hread]
  exact Run.left_bind_pure (update i) (fun _ => ()) _

theorem left_perform_dead (hi : s.instance? i = none) : Run.left (perform (.render i)) s = s := by
  have hread : perform (.render i) s =
      (if (s.instance? i).isSome then (do
        modify fun s => s.modifyInstance i fun inst => { inst with pending := false }
        let _ ← update i)
      else pure () : Run Session Unit) s := rfl
  rw [hi] at hread
  exact Run.left_of_ok hread

end Session

end LiveMarkup
