import LiveMarkup.Proofs.Schedule.Moments
import LiveMarkup.Proofs.View.Mount
import LiveMarkup.Proofs.View.Write

/-! The turns of a session: what users and jobs do, one after the other. Ledgers keep what has happened
to every instance since its last update. -/

namespace LiveMarkup.Session

variable {s t : Session} {i j : InstanceId} {inst : Instance} {w : Write}

/-! What requests, writes and jobs do to the frame and to the instances. -/

theorem left_request (job : Job Action) (s : Session) :
    ∃ events, Run.left (frameHost.request job) s = { s with frame := s.frame.add job, events } := by
  have hread : frameHost.request job s =
      (if !s.frame.requested then tell .frameRequested else pure ())
        { s with frame := s.frame.add job } := rfl
  rw [Run.left_congr hread]
  split
  · exact ⟨_, rfl⟩
  · exact ⟨_, rfl⟩

def wakes (w : Write) (inst : Instance) : Bool :=
  inst.alive && inst.discipline == .batched && w.dirty inst.scope

/-- The session `t` is `s` after a write to an instance, as far as jobs are concerned. -/
structure Written (i : InstanceId) (w : Write) (s t : Session) : Prop where
  size : t.instances.size = s.instances.size
  others : ∀ j ≠ i, t.instances[j]? = s.instances[j]?
  self : ∀ inst, s.instances[i]? = some inst → ∃ inst', t.instances[i]? = some inst' ∧
    inst'.alive = inst.alive ∧ inst'.discipline = inst.discipline ∧ inst'.phase = .idle ∧
    inst'.pending = (inst.pending || wakes w inst) ∧
    (inst.discipline = .batched → inst'.scope = w.apply inst.scope)
  jobs : t.frame.jobs = s.frame.jobs ++
    if s.instances[i]?.any fun inst => wakes w inst && !inst.pending then
      [.act (.render i) .done] else []

/-- A write that wakes nobody. -/
private theorem stored_written (hidle : ∀ inst, s.instances[i]? = some inst → inst.phase = .idle)
    (h : ∀ inst, s.instances[i]? = some inst → wakes w inst → inst.pending) :
    Written i w s (withScopeOf i (w.apply (scopeOf i s)) s) where
  size := Array.size_modify
  others j hj := getElem?_modifyInstance_of_ne hj _
  self inst hi := by
    refine ⟨_, getElem?_modifyInstance_self hi _, rfl, rfl, hidle inst hi, ?_, fun _ => ?_⟩
    · cases hw : wakes w inst with
      | false => exact (Bool.or_false _).symm
      | true => exact (h inst hi hw).trans (Bool.or_true _).symm
    · rw [scopeOf_eq hi]
  jobs := by
    rw [if_neg, List.append_nil]
    · rfl
    · cases hi : s.instances[i]? with
      | none => simp
      | some inst => simpa using h inst hi

theorem left_write_written (hidle : ∀ inst, s.instances[i]? = some inst → inst.phase = .idle) :
    Written i w s (Run.left (w.run i) s) := by
  rw [left_write]
  dsimp only
  generalize hstored : withScopeOf i (w.apply (scopeOf i s)) s = stored
  cases hi : s.instance? i with
  | none =>
    have hdead : stored.instance? i = none := by
      rw [instance?, Option.filter_eq_none_iff] at hi ⊢
      intro inst hinst
      rw [← hstored, withScopeOf, getElem?_modifyInstance, if_pos rfl, Option.map_eq_some_iff] at hinst
      obtain ⟨inst', hi', rfl⟩ := hinst
      exact hi inst' hi'
    rw [left_changed_of_dead hdead, ite_self, ← hstored]
    refine stored_written hidle fun inst hi' hw => ?_
    have ha : inst.alive := by simp only [wakes, Bool.and_eq_true] at hw; exact hw.1.1
    cases hi.symm.trans (instance?_eq_some.2 ⟨hi', ha⟩)
  | some inst =>
    obtain ⟨hi, ha⟩ := instance?_eq_some.1 hi
    have hscope : scopeOf i s = inst.scope := scopeOf_eq hi
    have hi₁ : stored.instances[i]? = some { inst with scope := w.apply inst.scope } := by
      rw [← hstored, hscope]
      exact getElem?_modifyInstance_self hi _
    have hquiet (h : wakes w inst → inst.pending) : Written i w s stored := by
      rw [← hstored]
      refine stored_written hidle fun inst' hi' => ?_
      cases hi.symm.trans hi'
      exact h
    cases hd : w.dirty (scopeOf i s) with
    | false => exact hquiet fun h => by simp [wakes, ← hscope, hd] at h
    | true =>
      rw [if_pos rfl, left_changed hi₁ ha (hidle inst hi)]
      dsimp only
      cases hdisc : inst.discipline with
      | sync =>
        have hw : wakes w inst = false := by simp [wakes, hdisc]
        have hs := hquiet fun h => by simp [hw] at h
        have hc := update_calm.left (i := i) stored
        refine ⟨(calm_size hc).trans hs.size, fun j hj => ?_, fun inst' hi' => ?_, ?_⟩
        · rw [calm_getElem?_of_ne hc hj, hs.others j hj]
        · cases hi.symm.trans hi'
          obtain ⟨inst', hi', hd', hp', ha'⟩ := calm_getElem? hc.symm hi₁
          refine ⟨inst', hi', ha'.symm, hd'.symm, phase_of_update hi', ?_, fun h => ?_⟩
          · rw [hw, Bool.or_false, ← hp']
          · cases hdisc.symm.trans h
        · rw [calm_frame hc, hs.jobs]
      | batched =>
        have hw : wakes w inst = true := by simp [wakes, hdisc, ha, ← hscope, hd]
        cases hp : inst.pending with
        | true => exact hquiet fun _ => hp
        | false =>
          obtain ⟨events, hr⟩ := left_request (.act (.render i) .done)
            (stored.modifyInstance i fun inst => { inst with pending := true })
          dsimp only
          rw [if_neg Bool.false_ne_true, hr]
          have hs : Array.size stored.instances = s.instances.size := by
            rw [← hstored]
            exact Array.size_modify
          refine ⟨Array.size_modify.trans hs, fun j hj => ?_, fun inst' hi' => ?_, ?_⟩
          · refine (getElem?_modifyInstance_of_ne hj _).trans ?_
            rw [← hstored]
            exact getElem?_modifyInstance_of_ne hj _
          · cases hi.symm.trans hi'
            refine ⟨_, getElem?_modifyInstance_self hi₁ _, rfl, rfl, hidle inst hi, ?_, fun _ => rfl⟩
            rw [hw, Bool.or_true]
          · rw [hi, Option.any_some, hw, hp, ← hstored]
            rfl

/-! Turns. -/

def rendersOnly (i : InstanceId) : Job Action → Bool
  | .act (.render j) .done => j == i
  | _ => false

/-- The job is one that does not come from an instance: it writes, requests jobs, flushes and fails,
but renders nothing itself. -/
def foreign : Job Action → Bool
  | .done => true
  | .fail _ => true
  | .act (.render _) _ => false
  | .act (.write _ _ _) next => foreign next
  | .request job next => foreign job && foreign next
  | .flush next => foreign next

/-- What can happen next: something that a user does, or the next part of a flush in progress. -/
inductive Turn where
  | mount (r : Recipe) (props : Bindings) (isPublic : Bool)
    (natives : List (String × (List Value → Procedure))) (target : NodeId)
  | write (i : InstanceId) (w : Write)
  | drop (i : InstanceId)
  | edit (change : Forest Handler → Except DocumentError (Forest Handler))
  | request (job : Job Action)
  | flush
  | proceed

/-- The moment after a turn, which may end in a failure. No turn is possible that requests a render
job, or that goes on where nothing comes next. -/
def after (m : Moment Session Action) : Turn → Option (Moment Session Action)
  | .mount r props isPublic natives target =>
    some ⟨Run.left (mount r props isPublic natives target) m.state, m.flushes⟩
  | .write i w => some ⟨Run.left (w.run i) m.state, m.flushes⟩
  | .drop i => some ⟨Run.left (drop i) m.state, m.flushes⟩
  | .edit change => some ⟨Run.left (edit change) m.state, m.flushes⟩
  | .request job =>
    if foreign job then some ⟨Run.left (frameHost.request job) m.state, m.flushes⟩ else none
  | .flush => some (scheduler.start m)
  | .proceed => scheduler.proceed m

/-- What a turn does to an instance: it writes to it, starts the job that renders it, or makes it. -/
inductive Deed where
  | written (i : InstanceId) (w : Write)
  | started (i : InstanceId)
  | made (i : InstanceId)
  | other

def deedOf (s : Session) : List (Flushing Action) → Deed
  | ⟨.act (.render i) _, _, _⟩ :: _ => if (s.instance? i).isSome then .started i else .other
  | ⟨.act (.write i x v) _, _, _⟩ :: _ => .written i (.set x v)
  | _ => .other

def deed (m : Moment Session Action) : Turn → Deed
  | .mount .. => .made m.state.instances.size
  | .write i w => .written i w
  | .proceed => deedOf m.state m.flushes
  | _ => .other

/-- What has happened to an instance: the scope that its last update left, the writes since then
whether one of them was dirty, how many of its jobs have been started, and how often a dirty write
has come first since one was. -/
structure Ledger where
  base : Scope
  writes : List Write
  dirty : Bool
  updates : Nat
  batches : Nat

namespace Ledger

def fresh (scope : Scope) : Ledger := ⟨scope, [], false, 0, 0⟩

def scope (l : Ledger) : Scope := l.writes.foldl (fun s w => w.apply s) l.base

def add (w : Write) (l : Ledger) : Ledger :=
  let d := w.dirty l.scope
  { l with
    writes := l.writes ++ [w], dirty := l.dirty || d
    batches := if d && !l.dirty then l.batches + 1 else l.batches }

def start (scope : Scope) (l : Ledger) : Ledger :=
  { l with base := scope, writes := [], dirty := false, updates := l.updates + 1 }

end Ledger

def enter (s' : Session) (d : Deed) (ledgers : InstanceId → Ledger) (i : InstanceId) : Ledger :=
  match d with
  | .written j w => if j = i then (ledgers i).add w else ledgers i
  | .started j => if j = i then (ledgers i).start (scopeOf i s') else ledgers i
  | .made j => if j = i then .fresh (scopeOf i s') else ledgers i
  | .other => ledgers i

/-- Turns lead from a moment to a later one; the ledgers tell what they do. -/
inductive Course (m : Moment Session Action) (ledgers : InstanceId → Ledger) :
    Moment Session Action → (InstanceId → Ledger) → Prop where
  | refl : Course m ledgers m ledgers
  | turn {m' ledgers' m''} (t : Turn) (h : Course m ledgers m' ledgers') (ht : after m' t = some m'') :
    Course m ledgers m'' (enter m''.state (deed m' t) ledgers')

def Reached (m : Moment Session Action) (ledgers : InstanceId → Ledger) : Prop :=
  Course ⟨.empty, []⟩ (fun _ => .fresh .empty) m ledgers

def heldJobs (fs : List (Flushing Action)) : List (Job Action) :=
  fs.flatMap fun f => f.current :: f.waiting

/-- All jobs that have not been done: those that wait for the frame and those that flushes hold. -/
def jobs (m : Moment Session Action) : List (Job Action) :=
  m.state.frame.jobs ++ heldJobs m.flushes

def renderJobs (i : InstanceId) (m : Moment Session Action) : Nat := (jobs m).countP (rendersOnly i)

/-! What the next part of a flush does. -/

/-- What comes next in a session with flushes in progress. -/
inductive Next (s : Session) : List (Flushing Action) → Session → List (Flushing Action) → Prop where
  | finish {n outer} (events : List Event) :
    Next s (⟨.done, [], n⟩ :: outer) { s with events } outer
  | begin {job waiting n outer} :
    Next s (⟨.done, job :: waiting, n⟩ :: outer) s (⟨job, waiting, n⟩ :: outer)
  | fail {reason waiting n outer} (events : List Event) :
    Next s (⟨.fail reason, waiting, n⟩ :: outer) { s with events } (⟨.done, waiting, n⟩ :: outer)
  | act {a next rest waiting n outer} (events : List Event) (h : rest = next ∨ rest = .done) :
    Next s (⟨.act a next, waiting, n⟩ :: outer) { Run.left (perform a) s with events }
      (⟨rest, waiting, n⟩ :: outer)
  | request {job next waiting n outer} :
    Next s (⟨.request job next, waiting, n⟩ :: outer) (Run.left (frameHost.request job) s)
      (⟨next, waiting, n⟩ :: outer)
  | flush {next waiting n outer} :
    Next s (⟨.flush next, waiting, n⟩ :: outer) { s with frame := .empty }
      (⟨.done, s.frame.jobs, s.frame.jobs.length⟩ :: ⟨next, waiting, n⟩ :: outer)

theorem proceed_next {m m' : Moment Session Action} (h : scheduler.proceed m = some m') :
    Next m.state m.flushes m'.state m'.flushes := by
  obtain ⟨s, fs⟩ := m
  match fs with
  | [] => cases h
  | ⟨.done, [], n⟩ :: [] =>
    cases h
    exact .finish s.events
  | ⟨.done, [], n⟩ :: f :: outer =>
    cases h
    exact .finish _
  | ⟨.done, job :: waiting, n⟩ :: outer =>
    cases h
    exact .begin
  | ⟨.fail reason, waiting, n⟩ :: outer =>
    cases h
    exact .fail _
  | ⟨.act a next, waiting, n⟩ :: outer =>
    have hperform : scheduler.perform a s = perform a s := rfl
    rw [Scheduler.proceed] at h
    dsimp only at h
    rw [hperform] at h
    cases hr : perform a s with
    | ok _ t =>
      rw [hr] at h
      cases h
      have hnext : Next s (⟨.act a next, waiting, n⟩ :: outer) _ (⟨next, waiting, n⟩ :: outer) :=
        .act t.events (.inl rfl)
      rw [Run.left_of_ok hr] at hnext
      exact hnext
    | error e t =>
      rw [hr] at h
      cases e with
      | error e =>
        cases h
        have hnext : Next s (⟨.act a next, waiting, n⟩ :: outer) _ (⟨.done, waiting, n⟩ :: outer) :=
          .act (.reported e :: t.events) (.inr rfl)
        rw [Run.left_of_error hr] at hnext
        exact hnext
      | fault f => cases h
  | ⟨.request job next, waiting, n⟩ :: outer =>
    cases h
    exact .request
  | ⟨.flush next, waiting, n⟩ :: outer =>
    cases h
    exact .flush

end LiveMarkup.Session
