import LiveMarkup.Proofs.Schedule.Moments
import LiveMarkup.Proofs.Schedule.Roster

/-! Flushes beside the books on their tasks. Whatever is requested and flushed at whatever moment, what
waits is what the books say, and the host has been told of every failure and of every first task. -/

namespace LiveMarkup

def Event.asksFrame : Event → Bool
  | .frameRequested => true
  | _ => false

def Event.reported? : Event → Option EvalError
  | .reported e => some e
  | _ => none

def Roster.follow (r : Roster) : List (Flushing String) → Roster
  | [] => r
  | ⟨.done, [], _⟩ :: _ => r.close
  | ⟨.done, _ :: _, _⟩ :: _ => r.advance
  | ⟨.fail reason, _, _⟩ :: _ => r.blame reason
  | ⟨.act _ _, _, _⟩ :: _ => r
  | ⟨.request job _, _, _⟩ :: _ => r.ask job
  | ⟨.flush _, _, _⟩ :: _ => r.begin

namespace Agenda

open Scheduler (Tells)

/-- What has happened since nothing was requested: requests and flushes at any moment, also while
flushes are in progress, and what comes next in these. -/
inductive Watched : Moment Agenda String → Roster → Prop where
  | empty : Watched ⟨.empty, []⟩ .empty
  | request {m r} (h : Watched m r) (job : Job String) :
    Watched ⟨Run.left (scheduler.request job) m.state, m.flushes⟩ (r.ask job)
  | flush {m r} (h : Watched m r) : Watched (scheduler.start m) r.begin
  | proceed {m m' r} (h : Watched m r) (hp : scheduler.proceed m = some m') :
    Watched m' (r.follow m.flushes)

theorem tells : Tells scheduler := fun e a => ⟨a.tell e, rfl⟩

theorem left_request (job : Job String) (a : Agenda) : Run.left (scheduler.request job) a =
    { a with
      frame := a.frame.add job
      events := if a.frame.requested then a.events else .frameRequested :: a.events } := by
  have hread : scheduler.request job a =
      (if !a.frame.requested then scheduler.tell .frameRequested else pure ())
        { a with frame := a.frame.add job } := rfl
  rw [Run.left, hread]
  cases a.frame.requested <;> rfl

/-- A flush and its round: the task that has its turn either goes on to its own end or has failed with
that. -/
structure Runs (failed : List (Task × String)) (f : Flushing String) (round : Round) : Prop where
  waiting : f.waiting = round.left.map Task.job
  count : f.count = round.taken.length
  idle : round.begun = [] → f.current = .done
  current : ∀ t, round.begun.getLast? = some t →
    (t ∉ failed.map (·.1) ∧ t.job.verdict = f.current.verdict) ∨
      (f.current = .done ∧ ∃ reason, (t, reason) ∈ failed ∧ t.job.verdict = some reason)

/-- The books are right. -/
structure Tally (m : Moment Agenda String) (r : Roster) : Prop where
  fair : r.Fair
  queue : m.state.frame.jobs = r.queued.map Task.job
  flag : m.state.frame.requested = !r.queued.isEmpty
  flushes : List.Forall₂ (Runs r.failed) m.flushes r.rounds
  ended : ∀ t ∈ r.started, (∀ round ∈ r.rounds, round.begun.getLast? ≠ some t) →
    ∀ reason, (t, reason) ∈ r.failed ↔ t.job.verdict = some reason
  wakes : m.state.events.countP Event.asksFrame = r.wakes
  reports : m.state.reports = true
  reported : m.state.events.filterMap Event.reported? =
    (r.failed.map fun p => EvalError.failed p.2).reverse

namespace Runs

variable {failed : List (Task × String)} {f : Flushing String} {round : Round}

/-- The task goes on. -/
theorem step {job next : Job String} {jobs : List (Job String)} {n : Nat}
    (h : Runs failed ⟨job, jobs, n⟩ round) (hj : job ≠ .done) (hv : next.verdict = job.verdict) :
    Runs failed ⟨next, jobs, n⟩ round where
  waiting := h.waiting
  count := h.count
  idle hb := absurd (h.idle hb) hj
  current t ht := by
    rcases h.current t ht with ⟨hf, hc⟩ | ⟨hd, -⟩
    · exact .inl ⟨hf, hc.trans hv.symm⟩
    · exact absurd hd hj

/-- The task has come to its end: it has failed if its end is a failure. -/
private theorem ended (h : Runs failed f round) (hd : f.current = .done)
    (hn : (failed.map (·.1)).Nodup) {t : Task} (ht : round.begun.getLast? = some t)
    (reason : String) :
    (t, reason) ∈ failed ↔ t.job.verdict = some reason := by
  rcases h.current t ht with ⟨hf, hc⟩ | ⟨-, reason', hmem, hv⟩
  · rw [hd] at hc
    constructor
    · exact fun hm => absurd (List.mem_map_of_mem hm) hf
    · intro hv
      rw [hc] at hv
      cases hv
  · rw [hv, Option.some.injEq]
    constructor
    · intro hm
      have heq := List.inj_on_of_nodup_map hn hmem hm rfl
      exact congrArg Prod.snd heq
    · rintro rfl
      exact hmem

/-- Another task has failed. -/
theorem blame (h : Runs failed f round) {t : Task} (reason : String)
    (hne : round.begun.getLast? ≠ some t) : Runs (failed ++ [(t, reason)]) f round where
  waiting := h.waiting
  count := h.count
  idle := h.idle
  current t' ht' := by
    rcases h.current t' ht' with ⟨hf, hc⟩ | ⟨hd, reason', hmem, hv⟩
    · refine .inl ⟨?_, hc⟩
      rw [List.map_append, List.mem_append, not_or]
      refine ⟨hf, fun hm => hne ?_⟩
      rw [ht', List.mem_singleton.1 hm]
    · exact .inr ⟨hd, reason', List.mem_append_left _ hmem, hv⟩

private theorem blame_all {fs : List (Flushing String)} {rounds : List Round} {t : Task}
    (reason : String) (h : List.Forall₂ (Runs failed) fs rounds)
    (hne : ∀ round ∈ rounds, round.begun.getLast? ≠ some t) :
    List.Forall₂ (Runs (failed ++ [(t, reason)])) fs rounds := by
  induction h with
  | nil => exact .nil
  | cons h _ ih =>
    obtain ⟨hround, hrounds⟩ := List.forall_mem_cons.1 hne
    exact .cons (h.blame reason hround) (ih hrounds)

end Runs

namespace Tally

variable {st st' : Agenda} {fs : List (Flushing String)} {r : Roster}

private theorem empty : Tally ⟨.empty, []⟩ .empty where
  fair := Roster.empty_fair
  queue := rfl
  flag := rfl
  flushes := .nil
  ended t ht := by cases ht
  wakes := rfl
  reports := rfl
  reported := rfl

/-- The host is told of something else. -/
private theorem note (t : Tally ⟨st, fs⟩ r) {e : Event} (he : e.asksFrame = false)
    (hr : e.reported? = none) :
    Tally ⟨st.tell e, fs⟩ r := by
  have htell : st.tell e = { st with events := e :: st.events } := by
    cases e with
    | reported => cases hr
    | _ => rfl
  rw [htell]
  refine ⟨t.fair, t.queue, t.flag, t.flushes, t.ended, ?_, t.reports, ?_⟩
  · rw [List.countP_cons_of_neg (by simp [he])]
    exact t.wakes
  · rw [List.filterMap_cons_none hr]
    exact t.reported

private theorem ask (t : Tally ⟨st, fs⟩ r) (job : Job String) :
    Tally ⟨Run.left (scheduler.request job) st, fs⟩ (r.ask job) := by
  have hflag : st.frame.requested = !r.queued.isEmpty := t.flag
  rw [left_request]
  refine ⟨t.fair.ask job, ?_, ?_, t.flushes, t.ended, ?_, t.reports, ?_⟩
  · show st.frame.jobs ++ [job] = (r.queued ++ [_]).map Task.job
    rw [List.map_append, ← t.queue]
    rfl
  · show true = !(r.queued ++ [_]).isEmpty
    simp
  · show List.countP Event.asksFrame (if st.frame.requested then _ else _) =
      if r.queued.isEmpty then r.wakes + 1 else r.wakes
    rw [hflag]
    cases r.queued.isEmpty with
    | true => exact (List.countP_cons_of_pos rfl).trans (congrArg (· + 1) t.wakes)
    | false => exact t.wakes
  · show List.filterMap Event.reported? (if st.frame.requested then _ else _) = _
    split
    · exact t.reported
    · exact t.reported

private theorem begin {m : Moment Agenda String} (t : Tally m r) :
    Tally (scheduler.start m) r.begin where
  fair := t.fair.begin
  queue := rfl
  flag := rfl
  flushes := by
    refine .cons ⟨t.queue, ?_, fun _ => rfl, fun u hu => by cases hu⟩ t.flushes
    show m.state.frame.jobs.length = r.queued.length
    rw [t.queue, List.length_map]
  ended u hu hr := t.ended u hu fun round hm => hr round (List.mem_cons_of_mem _ hm)
  wakes := t.wakes
  reports := t.reports
  reported := t.reported

variable {jobs : List (Job String)} {job next : Job String} {n : Nat}

/-- The task that has its turn goes on. -/
theorem step (t : Tally ⟨st, ⟨job, jobs, n⟩ :: fs⟩ r) (hj : job ≠ .done)
    (hv : next.verdict = job.verdict) : Tally ⟨st, ⟨next, jobs, n⟩ :: fs⟩ r := by
  refine ⟨t.fair, t.queue, t.flag, ?_, t.ended, t.wakes, t.reports, t.reported⟩
  obtain ⟨round, outer, hrun, hruns, hr⟩ := List.forall₂_cons_left_iff.1 t.flushes
  rw [hr]
  exact .cons (hrun.step hj hv) hruns

/-- Whoever has had a turn and has none now is through. -/
private theorem over_of_done {f : Flushing String} (t : Tally ⟨st, f :: fs⟩ r)
    (hd : f.current = .done) {u : Task} (hu : u ∈ r.started)
    (hr : ∀ round ∈ r.rounds.tail, round.begun.getLast? ≠ some u) (reason : String) :
    (u, reason) ∈ r.failed ↔ u.job.verdict = some reason := by
  obtain ⟨round, outer, hrun, hruns, hrounds⟩ := List.forall₂_cons_left_iff.1 t.flushes
  rw [hrounds, List.tail_cons] at hr
  by_cases hlast : round.begun.getLast? = some u
  · exact hrun.ended hd t.fair.once hlast reason
  · refine t.ended u hu (fun round' hm => ?_) reason
    rw [hrounds] at hm
    rcases List.mem_cons.1 hm with rfl | hm
    · exact hlast
    · exact hr round' hm

private theorem advance (t : Tally ⟨st, ⟨.done, job :: jobs, n⟩ :: fs⟩ r) :
    Tally ⟨st, ⟨job, jobs, n⟩ :: fs⟩ r.advance := by
  obtain ⟨⟨taken, begun, left⟩, outer, hrun, hruns, hrounds⟩ :=
    List.forall₂_cons_left_iff.1 t.flushes
  obtain ⟨task, left, rfl, hjob, hleft⟩ : ∃ task left', left = task :: left' ∧ job = task.job ∧
      jobs = left'.map Task.job := by
    cases left with
    | nil => cases hrun.waiting
    | cons task left' => exact ⟨task, left', rfl, List.cons.inj hrun.waiting⟩
  have hnew : task ∉ r.started := t.fair.not_started (by simp [Roster.held, hrounds])
  have hadvance : r.advance =
      { r with rounds := ⟨taken, begun ++ [task], left⟩ :: outer, started := r.started ++ [task] } := by
    rw [Roster.advance, hrounds]
  have hfair := t.fair.advance hrounds
  rw [hadvance] at hfair ⊢
  refine ⟨hfair, t.queue, t.flag, .cons ⟨hleft, hrun.count, fun h => ?_, fun u hu => ?_⟩ hruns,
    fun u hu hr => ?_, t.wakes, t.reports, t.reported⟩
  · simp at h
  · have htask : u = task := by simpa using hu.symm
    rw [htask, hjob]
    refine .inl ⟨fun hm => ?_, rfl⟩
    obtain ⟨p, hp, rfl⟩ := List.mem_map.1 hm
    exact hnew (t.fair.blamed p hp)
  · have hne : u ≠ task := by
      rintro rfl
      exact hr _ List.mem_cons_self (by simp)
    have hstarted : u ∈ r.started := by simpa [hne] using hu
    refine t.over_of_done rfl hstarted fun round hm => hr round ?_
    rw [hrounds, List.tail_cons] at hm
    exact List.mem_cons_of_mem _ hm

private theorem close (t : Tally ⟨st, ⟨.done, [], n⟩ :: fs⟩ r) : Tally ⟨st, fs⟩ r.close := by
  obtain ⟨round, outer, hrun, hruns, hrounds⟩ := List.forall₂_cons_left_iff.1 t.flushes
  have hleft : round.left = [] := List.map_eq_nil_iff.1 hrun.waiting.symm
  have hclose : r.close = { r with rounds := outer } := by rw [Roster.close, hrounds, List.tail_cons]
  have hfair := t.fair.close hrounds hleft
  rw [hclose] at hfair ⊢
  refine ⟨hfair, t.queue, t.flag, hruns, fun u hu hr => ?_, t.wakes, t.reports, t.reported⟩
  refine t.over_of_done rfl hu fun round' hm => hr round' ?_
  rwa [hrounds, List.tail_cons] at hm

theorem blame {reason : String} (t : Tally ⟨st, ⟨.fail reason, jobs, n⟩ :: fs⟩ r) :
    Tally ⟨st.tell (.reported (.failed reason)), ⟨.done, jobs, n⟩ :: fs⟩ (r.blame reason) := by
  obtain ⟨round, outer, hrun, hruns, hrounds⟩ := List.forall₂_cons_left_iff.1 t.flushes
  obtain ⟨task, htask⟩ : ∃ task, round.begun.getLast? = some task := by
    cases hb : round.begun.getLast? with
    | none => cases hrun.idle (List.getLast?_eq_none_iff.1 hb)
    | some task => exact ⟨task, rfl⟩
  obtain ⟨hnot, hverdict⟩ : task ∉ r.failed.map (·.1) ∧ task.job.verdict = some reason := by
    rcases hrun.current task htask with h | ⟨hd, -⟩
    · exact h
    · cases hd
  have hcurrent : r.current? = some task := by rw [Roster.current?, hrounds]; exact htask
  have hother : ∀ round' ∈ outer, round'.begun.getLast? ≠ some task := by
    intro round' hm hlast
    have happart := t.fair.apart
    rw [hrounds, List.flatMap_cons] at happart
    exact (List.nodup_append.1 happart).2.2 task (List.mem_of_getLast? htask) task
      (List.mem_flatMap.2 ⟨round', hm, List.mem_of_getLast? hlast⟩) rfl
  have hruns' := Runs.blame_all reason hruns hother
  have hblame : r.blame reason = { r with failed := r.failed ++ [(task, reason)] } := by
    rw [Roster.blame, hcurrent]
    rfl
  have hfair := t.fair.blame reason hcurrent hnot
  have htell : st.tell (.reported (.failed reason)) =
      { st with events := .reported (.failed reason) :: st.events } := if_pos t.reports
  rw [hblame] at hfair ⊢
  rw [htell]
  refine ⟨hfair, t.queue, t.flag, ?_, fun u hu hr reason' => ?_, t.wakes, t.reports, ?_⟩
  · rw [hrounds]
    refine .cons ⟨hrun.waiting, hrun.count, fun _ => rfl, fun u hu => ?_⟩ hruns'
    cases htask.symm.trans hu
    exact .inr ⟨rfl, reason, by simp, hverdict⟩
  · have hne : u ≠ task := by
      rintro rfl
      exact hr round (hrounds ▸ List.mem_cons_self) htask
    rw [← t.ended u hu hr reason']
    simp [hne]
  · show EvalError.failed reason :: st.events.filterMap Event.reported? = _
    rw [show st.events.filterMap Event.reported? = _ from t.reported, List.map_append,
      List.reverse_append]
    rfl

/-- The books follow what comes next. -/
private theorem proceed {m m' : Moment Agenda String} (t : Tally m r)
    (h : scheduler.proceed m = some m') :
    Tally m' (r.follow m.flushes) := by
  obtain ⟨st, fs⟩ := m
  match fs with
  | [] => cases h
  | ⟨.done, [], n⟩ :: [] =>
    cases h
    exact t.close
  | ⟨.done, [], n⟩ :: f :: outer =>
    cases h
    exact t.close.note (e := .flushed n) rfl rfl
  | ⟨.done, job :: jobs, n⟩ :: outer =>
    cases h
    exact t.advance
  | ⟨.fail reason, jobs, n⟩ :: outer =>
    cases h
    exact t.blame
  | ⟨.act a next, jobs, n⟩ :: outer =>
    have hnext : Tally ⟨st, ⟨next, jobs, n⟩ :: outer⟩ r := t.step (by simp) rfl
    cases h
    exact hnext.note (e := .noted a) rfl rfl
  | ⟨.request job next, jobs, n⟩ :: outer =>
    have hnext : Tally ⟨st, ⟨next, jobs, n⟩ :: outer⟩ r := t.step (by simp) rfl
    cases h
    exact hnext.ask job
  | ⟨.flush next, jobs, n⟩ :: outer =>
    have hnext : Tally ⟨st, ⟨next, jobs, n⟩ :: outer⟩ r := t.step (by simp) rfl
    cases h
    exact hnext.begin

end Tally

/-- The books are right at every moment. -/
theorem Watched.tally {m : Moment Agenda String} {r : Roster} (h : Watched m r) : Tally m r := by
  induction h with
  | empty => exact .empty
  | request _ job ih => exact ih.ask job
  | flush _ ih => exact ih.begin
  | proceed _ hp ih => exact ih.proceed hp

end Agenda

end LiveMarkup
