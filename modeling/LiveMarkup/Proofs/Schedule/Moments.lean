import LiveMarkup.Proofs.Run
import LiveMarkup.Schedule.Basic

/-! Flushes step by step. A moment shows what is left of every flush in progress; the moments of a
flush lead from its beginning to the state that the flush leaves. -/

namespace LiveMarkup

/-- A flush in progress: what is left of the job that runs, the jobs that have not had their turn, and
how many there were in the beginning. -/
structure Flushing (α : Type) where
  current : Job α
  waiting : List (Job α)
  count : Nat

/-- A state and the flushes in progress, innermost first. -/
structure Moment (σ α : Type) where
  state : σ
  flushes : List (Flushing α)

namespace Scheduler

variable {σ α : Type} {s : Scheduler σ α}

def told (s : Scheduler σ α) (e : Event) (st : σ) : σ := Run.left (s.tell e) st

/-- A flush begins: it takes the jobs that wait for the frame. -/
def start (s : Scheduler σ α) (m : Moment σ α) : Moment σ α :=
  let jobs := (s.frame m.state).jobs
  ⟨s.withFrame .empty m.state, ⟨.done, jobs, jobs.length⟩ :: m.flushes⟩

/-- What comes next: the next part of the job that runs, the next job, or the end of the innermost
flush. Nothing comes after a fault. -/
def proceed (s : Scheduler σ α) (m : Moment σ α) : Option (Moment σ α) :=
  match m.flushes with
  | [] => none
  | ⟨.done, [], _⟩ :: [] => some ⟨m.state, []⟩
  | ⟨.done, [], n⟩ :: f :: outer => some ⟨s.told (.flushed n) m.state, f :: outer⟩
  | ⟨.done, job :: jobs, n⟩ :: outer => some ⟨m.state, ⟨job, jobs, n⟩ :: outer⟩
  | ⟨.fail reason, jobs, n⟩ :: outer =>
    some ⟨s.told (.reported (.failed reason)) m.state, ⟨.done, jobs, n⟩ :: outer⟩
  | ⟨.act a next, jobs, n⟩ :: outer =>
    match s.perform a m.state with
    | .ok _ st => some ⟨st, ⟨next, jobs, n⟩ :: outer⟩
    | .error (.error e) st => some ⟨s.told (.reported e) st, ⟨.done, jobs, n⟩ :: outer⟩
    | .error (.fault _) _ => none
  | ⟨.request job next, jobs, n⟩ :: outer =>
    some ⟨Run.left (s.request job) m.state, ⟨next, jobs, n⟩ :: outer⟩
  | ⟨.flush next, jobs, n⟩ :: outer => some (s.start ⟨m.state, ⟨next, jobs, n⟩ :: outer⟩)

inductive Leads (s : Scheduler σ α) : Moment σ α → Moment σ α → Prop where
  | refl (m) : Leads s m m
  | step {m m' m''} (h : s.proceed m = some m') (hs : Leads s m' m'') : Leads s m m''

theorem Leads.trans {m m' m'' : Moment σ α} (h : Leads s m m') (h' : Leads s m' m'') :
    Leads s m m'' := by
  induction h with
  | refl m => exact h'
  | step hp _ ih => exact .step hp (ih h')

def Tells (s : Scheduler σ α) : Prop := ∀ e st, ∃ st', s.tell e st = .ok () st'

private theorem Tells.tell_eq (ht : s.Tells) (e : Event) (st : σ) :
    s.tell e st = .ok () (s.told e st) := by
  obtain ⟨st', h⟩ := ht e st
  rw [told, Run.left_of_ok h, h]

theorem Tells.request_eq (ht : s.Tells) (job : Job α) (st : σ) :
    s.request job st = .ok () (Run.left (s.request job) st) := by
  have hok : ∃ st', s.request job st = .ok () st' := by
    have hread : s.request job st =
        (if !(s.frame st).requested then s.tell .frameRequested else pure ())
          (s.withFrame ((s.frame st).add job) st) := rfl
    rw [hread]
    split
    · exact ht _ _
    · exact ⟨_, rfl⟩
  obtain ⟨st', h⟩ := hok
  rw [Run.left_of_ok h, h]

/-- A flush that leads to where it ends, whatever flushes it is part of, and that does not fail but
by a fault. -/
structure Sound (s : Scheduler σ α) (flush : Run σ Nat) : Prop where
  leads : ∀ {st n st'}, flush st = .ok n st' → ∀ outer,
    Leads s (s.start ⟨st, outer⟩) ⟨st', ⟨.done, [], n⟩ :: outer⟩
  fault : ∀ {st e st'}, flush st ≠ .error (.error e) st'

section Jobs

variable {flush : Run σ Nat} {st st' : σ} {jobs : List (Job α)} {n : Nat}
  {outer : List (Flushing α)}

/-- A job leads to its end, or to where it fails and the host is told. -/
private theorem runJob_leads (ht : s.Tells) (hf : s.Sound flush) (job : Job α) (st : σ) :
    (∀ {st'}, s.runJob flush job st = .ok () st' →
      Leads s ⟨st, ⟨job, jobs, n⟩ :: outer⟩ ⟨st', ⟨.done, jobs, n⟩ :: outer⟩) ∧
    ∀ {e st'}, s.runJob flush job st = .error (.error e) st' →
      Leads s ⟨st, ⟨job, jobs, n⟩ :: outer⟩ ⟨s.told (.reported e) st', ⟨.done, jobs, n⟩ :: outer⟩ := by
  induction job generalizing st with
  | done =>
    constructor
    · intro st' h
      cases h
      exact .refl _
    · intro e st' h
      cases h
  | fail reason =>
    constructor
    · intro st' h
      cases h
    · intro e st' h
      cases h
      exact .step rfl (.refl _)
  | act a next ih =>
    constructor
    · intro st' h
      obtain ⟨⟨⟩, t, hp, hr⟩ := Run.bind_eq_ok.1 h
      exact .step (by simp only [proceed, hp]) ((ih t).1 hr)
    · intro e st' h
      rcases Run.bind_eq_error.1 h with hp | ⟨⟨⟩, t, hp, hr⟩
      · exact .step (by simp only [proceed, hp]) (.refl _)
      · exact .step (by simp only [proceed, hp]) ((ih t).2 hr)
  | request job next _ ih =>
    constructor
    · intro st' h
      obtain ⟨⟨⟩, t, hp, hr⟩ := Run.bind_eq_ok.1 h
      rw [ht.request_eq] at hp
      cases hp
      exact .step rfl ((ih _).1 hr)
    · intro e st' h
      rcases Run.bind_eq_error.1 h with hp | ⟨⟨⟩, t, hp, hr⟩
      · rw [ht.request_eq] at hp
        cases hp
      · rw [ht.request_eq] at hp
        cases hp
        exact .step rfl ((ih _).2 hr)
  | flush next ih =>
    have hend {n' t} : Leads s ⟨t, ⟨.done, [], n'⟩ :: ⟨next, jobs, n⟩ :: outer⟩
        ⟨s.told (.flushed n') t, ⟨next, jobs, n⟩ :: outer⟩ := .step rfl (.refl _)
    constructor
    · intro st' h
      obtain ⟨n', t, hp, hr⟩ := Run.bind_eq_ok.1 h
      obtain ⟨⟨⟩, u, hu, hr⟩ := Run.bind_eq_ok.1 hr
      rw [ht.tell_eq] at hu
      cases hu
      exact .step rfl ((hf.leads hp _).trans (hend.trans ((ih _).1 hr)))
    · intro e st' h
      rcases Run.bind_eq_error.1 h with hp | ⟨n', t, hp, hr⟩
      · exact absurd hp hf.fault
      · rcases Run.bind_eq_error.1 hr with hu | ⟨⟨⟩, u, hu, hr⟩
        · rw [ht.tell_eq] at hu
          cases hu
        · rw [ht.tell_eq] at hu
          cases hu
          exact .step rfl ((hf.leads hp _).trans (hend.trans ((ih _).2 hr)))

private theorem attempt_leads (ht : s.Tells) (hf : s.Sound flush) {job : Job α}
    (h : s.attempt flush job st = .ok () st') :
    Leads s ⟨st, ⟨job, jobs, n⟩ :: outer⟩ ⟨st', ⟨.done, jobs, n⟩ :: outer⟩ := by
  rw [attempt] at h
  cases hr : s.runJob flush job st with
  | ok a t =>
    rw [Run.tryCatch_of_ok hr] at h
    cases h
    exact (runJob_leads ht hf job st).1 hr
  | error e t =>
    rw [Run.tryCatch_of_error hr] at h
    cases e with
    | error e =>
      cases (ht.tell_eq _ _).symm.trans h
      exact (runJob_leads ht hf job st).2 hr
    | fault f => cases h

private theorem attempt_fault (ht : s.Tells) {job : Job α} {e : EvalError} :
    s.attempt flush job st ≠ .error (.error e) st' := by
  intro h
  rw [attempt] at h
  cases hr : s.runJob flush job st with
  | ok a t =>
    rw [Run.tryCatch_of_ok hr] at h
    cases h
  | error e t =>
    rw [Run.tryCatch_of_error hr] at h
    cases e with
    | error e => cases (ht.tell_eq _ _).symm.trans h
    | fault f => cases h

/-- Jobs lead to the end of the last one. -/
private theorem forM_leads (ht : s.Tells) (hf : s.Sound flush)
    (h : jobs.forM (s.attempt flush) st = .ok () st') :
    Leads s ⟨st, ⟨.done, jobs, n⟩ :: outer⟩ ⟨st', ⟨.done, [], n⟩ :: outer⟩ := by
  induction jobs generalizing st with
  | nil =>
    cases h
    exact .refl _
  | cons job jobs ih =>
    obtain ⟨⟨⟩, t, hj, hr⟩ := Run.bind_eq_ok.1 h
    exact .step rfl ((attempt_leads ht hf hj).trans (ih hr))

private theorem forM_fault (ht : s.Tells) {e : EvalError} :
    jobs.forM (s.attempt flush) st ≠ .error (.error e) st' := by
  induction jobs generalizing st with
  | nil =>
    intro h
    cases h
  | cons job jobs ih =>
    intro h
    rcases Run.bind_eq_error.1 h with h | ⟨⟨⟩, t, -, h⟩
    · exact attempt_fault ht h
    · exact ih h

end Jobs

/-- Flushes nested however deep lead to where they end. -/
theorem flushTo_sound (ht : s.Tells) (depth : Nat) : s.Sound (s.flushTo depth) := by
  induction depth with
  | zero =>
    constructor
    · intro st n st' h
      cases h
    · intro st e st' h
      cases h
  | succ depth ih =>
    have hflush (st : σ) : s.flushTo (depth + 1) st =
        (do (s.frame st).jobs.forM (s.attempt (s.flushTo depth)); return (s.frame st).jobs.length)
          (s.withFrame .empty st) := rfl
    constructor
    · intro st n st' h outer
      rw [hflush] at h
      obtain ⟨⟨⟩, t, hj, hr⟩ := Run.bind_eq_ok.1 h
      cases hr
      exact forM_leads ht ih hj
    · intro st e st' h
      rw [hflush] at h
      rcases Run.bind_eq_error.1 h with h | ⟨⟨⟩, t, -, h⟩
      · exact forM_fault ht h
      · cases h

/-- The moments of a flush lead from its beginning to its end. -/
theorem flush_leads (ht : s.Tells) {st st' : σ} {n : Nat} (h : s.flush st = .ok n st') :
    Leads s (s.start ⟨st, []⟩) ⟨st', []⟩ := by
  have hflush : s.flush st = s.flushTo ((s.frame st).rank + 2) st := rfl
  rw [hflush] at h
  exact ((flushTo_sound ht _).leads h []).trans (.step rfl (.refl _))

/-! What a flush keeps. -/

section Keeps

open Run (Keeps)

variable {P : σ → Prop} (hf : ∀ f st, P st → P (s.withFrame f st)) (ht : ∀ e, Keeps P (s.tell e))

include hf ht in
theorem request_keeps (job : Job α) : Keeps P (s.request job) := by
  refine .get_bind fun st _ => .bind (.modify fun st => hf _ st) fun _ => ?_
  split
  · exact ht _
  · exact .pure _

variable (ha : ∀ a, Keeps P (s.perform a))

include hf ht ha in
private theorem runJob_keeps {flush : Run σ Nat} (hflush : Keeps P flush) (job : Job α) :
    Keeps P (s.runJob flush job) := by
  induction job with
  | done => exact .pure _
  | fail reason => exact .throw _
  | act a next ih => exact .bind (ha a) fun _ => ih
  | request job next _ ih => exact .bind (request_keeps hf ht job) fun _ => ih
  | flush next ih => exact .bind hflush fun n => .bind (ht _) fun _ => ih

include hf ht ha in
private theorem flushTo_keeps (depth : Nat) : Keeps P (s.flushTo depth) := by
  induction depth with
  | zero => exact .throw _
  | succ depth ih =>
    refine .get_bind fun st _ => .bind (.modify (hf _)) fun _ => .bind (.forM (fun job => ?_) _) fun _ =>
      .pure _
    refine .tryCatch (runJob_keeps hf ht ha ih job) fun e => ?_
    cases e with
    | error e => exact ht _
    | fault f => exact .throw _

include hf ht ha in
/-- A flush keeps what requests, events and actions keep. -/
theorem flush_keeps : Keeps P s.flush := .get_bind fun _ _ => flushTo_keeps hf ht ha _

end Keeps

end Scheduler

end LiveMarkup
