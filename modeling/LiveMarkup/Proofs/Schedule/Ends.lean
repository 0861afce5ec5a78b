import LiveMarkup.Proofs.Schedule.Tally

/-! Flushes end. What a job requests nests less far than the job itself, so that flushes within flushes
come to an end, and each runs every task that waited when it began. -/

namespace LiveMarkup.Agenda

open Scheduler (Leads)

/-- All jobs that wait have requests that nest less than so far. -/
def Below (bound : Nat) (a : Agenda) : Prop := ∀ job ∈ a.frame.jobs, job.rank < bound

theorem Below.mono {bound bound' : Nat} {a : Agenda} (h : a.Below bound) (hb : bound ≤ bound') :
    a.Below bound' := fun job hj => Nat.lt_of_lt_of_le (h job hj) hb

private theorem below_rank (a : Agenda) : a.Below (a.frame.rank + 1) := by
  have hmax (ns : List Nat) (k : Nat) : k ≤ ns.foldl max k ∧ ∀ n ∈ ns, n ≤ ns.foldl max k := by
    induction ns generalizing k with
    | nil => simp
    | cons m ms ih =>
      obtain ⟨hk, hms⟩ := ih (max k m)
      refine ⟨Nat.le_trans (Nat.le_max_left k m) hk, fun n hn => ?_⟩
      rcases List.mem_cons.1 hn with rfl | hn
      · exact Nat.le_trans (Nat.le_max_right k n) hk
      · exact hms n hn
  intro job hj
  exact Nat.lt_succ_of_le ((hmax _ 0).2 _ (List.mem_map_of_mem hj))

section Total

variable {bound : Nat} {flush : Run Agenda Nat}

/-- A job comes to an end, in one way or another. -/
private theorem runJob_total (hf : ∀ a : Agenda, a.Below bound → ∃ n a', flush a = .ok n a' ∧ a'.Below bound)
    {job : Job String} (hj : job.rank ≤ bound) {a : Agenda} (ha : a.Below bound) :
    (∃ a', scheduler.runJob flush job a = .ok () a' ∧ a'.Below bound) ∨
      ∃ e a', scheduler.runJob flush job a = .error (.error e) a' ∧ a'.Below bound := by
  induction job generalizing a with
  | done => exact .inl ⟨a, rfl, ha⟩
  | fail reason => exact .inr ⟨_, a, rfl, ha⟩
  | act s next ih => exact ih hj (a := a.tell (.noted s)) ha
  | request t next _ ih =>
    obtain ⟨ht, hnext⟩ : t.rank + 1 ≤ bound ∧ next.rank ≤ bound := Nat.max_le.1 hj
    have hreq := tells.request_eq t a
    have hbelow : (Run.left (scheduler.request t) a).Below bound := by
      rw [left_request]
      intro job hjob
      rcases List.mem_append.1 hjob with hjob | hjob
      · exact ha job hjob
      · exact List.mem_singleton.1 hjob ▸ ht
    have hrest := ih hnext hbelow
    rw [← Run.bind_of_ok (f := fun _ => scheduler.runJob flush next) hreq] at hrest
    exact hrest
  | flush next ih =>
    obtain ⟨n, a', hn, ha'⟩ := hf a ha
    have hrest := ih hj (a := a'.tell (.flushed n)) ha'
    have hstep : scheduler.runJob flush (.flush next) a =
        scheduler.runJob flush next (a'.tell (.flushed n)) :=
      (Run.bind_of_ok hn).trans rfl
    rw [hstep]
    exact hrest

private theorem attempt_total
    (hf : ∀ a : Agenda, a.Below bound → ∃ n a', flush a = .ok n a' ∧ a'.Below bound)
    {job : Job String} (hj : job.rank ≤ bound) {a : Agenda} (ha : a.Below bound) :
    ∃ a', scheduler.attempt flush job a = .ok () a' ∧ a'.Below bound := by
  rcases runJob_total hf hj ha with ⟨a', hr, ha'⟩ | ⟨e, a', hr, ha'⟩
  · exact ⟨a', Run.tryCatch_of_ok hr, ha'⟩
  · refine ⟨a'.tell (.reported e), (Run.tryCatch_of_error hr).trans rfl, ?_⟩
    have hframe : (a'.tell (.reported e)).frame = a'.frame := by
      unfold tell
      dsimp only
      split <;> rfl
    rwa [Below, hframe]

private theorem forM_total
    (hf : ∀ a : Agenda, a.Below bound → ∃ n a', flush a = .ok n a' ∧ a'.Below bound)
    {jobs : List (Job String)} (hj : ∀ job ∈ jobs, job.rank ≤ bound) {a : Agenda}
    (ha : a.Below bound) :
    ∃ a', jobs.forM (scheduler.attempt flush) a = .ok () a' ∧ a'.Below bound := by
  induction jobs generalizing a with
  | nil => exact ⟨a, rfl, ha⟩
  | cons job jobs ih =>
    obtain ⟨hjob, hjobs⟩ := List.forall_mem_cons.1 hj
    obtain ⟨b, hb, hbelow⟩ := attempt_total hf hjob ha
    obtain ⟨c, hc, hcbelow⟩ := ih hjobs hbelow
    exact ⟨c, (Run.bind_of_ok hb).trans hc, hcbelow⟩

end Total

/-- A flush that may nest deep enough ends, and counts the jobs that waited. -/
private theorem flushTo_total (depth : Nat) {bound : Nat} (hb : bound < depth) {a : Agenda}
    (ha : a.Below bound) :
    ∃ a', scheduler.flushTo depth a = .ok a.frame.jobs.length a' ∧ a'.Below bound := by
  induction depth generalizing bound a with
  | zero => exact absurd hb (Nat.not_lt_zero _)
  | succ depth ih =>
    have hflush : scheduler.flushTo (depth + 1) a =
        (do a.frame.jobs.forM (scheduler.attempt (scheduler.flushTo depth)); return a.frame.jobs.length)
          { a with frame := .empty } := rfl
    have hempty (k : Nat) : ({ a with frame := .empty } : Agenda).Below k := fun job hj => by cases hj
    cases bound with
    | zero =>
      have hjobs : a.frame.jobs = [] := List.eq_nil_iff_forall_not_mem.2 fun job hj =>
        Nat.not_lt_zero _ (ha job hj)
      rw [hflush, hjobs]
      exact ⟨_, rfl, hempty 0⟩
    | succ bound =>
      have hdeeper (b : Agenda) (h : b.Below bound) := ih (Nat.lt_of_succ_lt_succ hb) h
      obtain ⟨b, hrun, hbelow⟩ := forM_total (fun b h => ⟨_, hdeeper b h⟩)
        (fun job hj => Nat.le_of_lt_succ (ha job hj)) (hempty bound)
      exact ⟨b, hflush.trans ((Run.bind_of_ok hrun).trans rfl), hbelow.mono (Nat.le_succ _)⟩

private theorem flush_total (a : Agenda) : ∃ a', scheduler.flush a = .ok a.frame.jobs.length a' := by
  obtain ⟨a', h, -⟩ := flushTo_total (a.frame.rank + 2) (Nat.lt_succ_self _) a.below_rank
  exact ⟨a', h⟩

/-! From the beginning of a flush to its end. -/

private theorem started_follow (r : Roster) (fs : List (Flushing String)) :
    r.started <+: (r.follow fs).started := by
  unfold Roster.follow
  split
  case h_3 =>
    unfold Roster.advance
    split
    · exact List.prefix_append _ _
    · exact List.prefix_rfl
  all_goals exact List.prefix_rfl

section Within

variable {st st' : Agenda} {fs fs' : List (Flushing String)} {r : Roster}
  {rounds around : List Round}

/-- What comes next in a flush is the same whatever flushes it is part of, up to its end. -/
private theorem proceed_append (h : scheduler.proceed ⟨st, fs⟩ = some ⟨st', fs'⟩) (hne : fs' ≠ [])
    (outer : List (Flushing String)) :
    scheduler.proceed ⟨st, fs ++ outer⟩ = some ⟨st', fs' ++ outer⟩ := by
  match fs with
  | [] => cases h
  | ⟨.done, [], n⟩ :: [] =>
    cases h
    exact absurd rfl hne
  | ⟨.done, [], n⟩ :: f :: fs => cases h; rfl
  | ⟨.done, job :: jobs, n⟩ :: fs => cases h; rfl
  | ⟨.fail reason, jobs, n⟩ :: fs => cases h; rfl
  | ⟨.act a next, jobs, n⟩ :: fs => cases h; rfl
  | ⟨.request job next, jobs, n⟩ :: fs => cases h; rfl
  | ⟨.flush next, jobs, n⟩ :: fs => cases h; rfl

/-- It leaves the rounds around alone, and what the round itself took. -/
private theorem follow_append (hfs : fs ≠ []) (hrounds : rounds ≠ [])
    (hr : r.rounds = rounds ++ around) (outer : List (Flushing String)) :
    ∃ rounds', (r.follow (fs ++ outer)).rounds = rounds' ++ around ∧
      (rounds' ≠ [] → rounds'.getLast?.map (·.taken) = rounds.getLast?.map (·.taken)) := by
  obtain ⟨f, fs, rfl⟩ := List.exists_cons_of_ne_nil hfs
  obtain ⟨⟨taken, begun, left⟩, rounds, rfl⟩ := List.exists_cons_of_ne_nil hrounds
  rw [List.cons_append]
  unfold Roster.follow
  split
  case h_1 heq => cases heq
  case h_2 =>
    refine ⟨rounds, by rw [Roster.close, hr, List.cons_append, List.tail_cons], fun hne => ?_⟩
    rw [List.getLast?_cons_of_ne_nil hne]
  case h_3 =>
    cases left with
    | nil => exact ⟨_, by rw [Roster.advance, hr]; exact hr, fun _ => rfl⟩
    | cons task left =>
      refine ⟨⟨taken, begun ++ [task], left⟩ :: rounds, by rw [Roster.advance, hr]; rfl, fun _ => ?_⟩
      cases rounds with
      | nil => rfl
      | cons => rw [List.getLast?_cons_cons, List.getLast?_cons_cons]
  case h_7 =>
    refine ⟨_ :: ⟨taken, begun, left⟩ :: rounds, by rw [Roster.begin, hr]; rfl, fun _ => ?_⟩
    rw [List.getLast?_cons_cons]
  all_goals exact ⟨_, hr, fun _ => rfl⟩

private theorem Watched.length_eq {m : Moment Agenda String} (h : Watched m r) :
    m.flushes.length = r.rounds.length := h.tally.flushes.length_eq

/-- The books follow a flush up to its end. -/
private theorem Watched.leads {m m' : Moment Agenda String} (hl : Leads scheduler m m')
    (outer : List (Flushing String)) (hne : m'.flushes ≠ []) (h : Watched ⟨m.state, m.flushes ++ outer⟩ r)
    (hr : r.rounds = rounds ++ around) (hlength : m.flushes.length = rounds.length) :
    ∃ r' rounds', Watched ⟨m'.state, m'.flushes ++ outer⟩ r' ∧ r'.rounds = rounds' ++ around ∧
      m'.flushes.length = rounds'.length ∧ r.started <+: r'.started ∧
      rounds'.getLast?.map (·.taken) = rounds.getLast?.map (·.taken) := by
  induction hl generalizing r rounds with
  | refl m => exact ⟨r, rounds, h, hr, hlength, List.prefix_rfl, rfl⟩
  | @step m m₁ m₂ hp hs ih =>
    have hfs : m.flushes ≠ [] := by
      intro hnil
      simp [Scheduler.proceed, hnil] at hp
    have hfs₁ : m₁.flushes ≠ [] := by
      intro hnil
      cases hs with
      | refl => exact hne hnil
      | step hp' _ => simp [Scheduler.proceed, hnil] at hp'
    have hrounds : rounds ≠ [] := by
      rintro rfl
      exact hfs (List.length_eq_zero_iff.1 hlength)
    have h₁ := h.proceed (proceed_append hp hfs₁ outer)
    obtain ⟨rounds₁, hr₁, htaken₁⟩ := follow_append hfs hrounds hr outer
    have hlength₁ : m₁.flushes.length = rounds₁.length := by
      have hall := h.length_eq
      have hall₁ := h₁.length_eq
      simp only [List.length_append, hr, hr₁] at hall hall₁
      omega
    have hne₁ : rounds₁ ≠ [] := by
      rintro rfl
      exact hfs₁ (List.length_eq_zero_iff.1 hlength₁)
    obtain ⟨r', rounds', h', hr', hlength', hstarted, htaken⟩ := ih hne h₁ hr₁ hlength₁
    exact ⟨r', rounds', h', hr', hlength', (started_follow r _).trans hstarted,
      htaken.trans (htaken₁ hne₁)⟩

end Within

/-- A flush, wherever it is made, runs what waited, in order, and nothing of what others hold. -/
private theorem Watched.flush_run {m : Moment Agenda String} {r : Roster} (h : Watched m r) :
    ∃ a' r', scheduler.flush m.state = .ok r.queued.length a' ∧
      Watched ⟨a', ⟨.done, [], r.queued.length⟩ :: m.flushes⟩ r' ∧
      r'.rounds = ⟨r.queued, r.queued, []⟩ :: r.rounds ∧
      r.started <+: r'.started ∧ r.queued.Sublist r'.started := by
  obtain ⟨a', hflush⟩ := flush_total m.state
  rw [h.tally.queue, List.length_map] at hflush
  have hsound := Scheduler.flushTo_sound tells (m.state.frame.rank + 2)
  have hbegin : r.begin.rounds = [⟨r.queued, [], r.queued⟩] ++ r.rounds := rfl
  obtain ⟨r', rounds, h', hr', hlength, hstarted, htaken⟩ :=
    Watched.leads (hsound.leads hflush []) m.flushes (List.cons_ne_nil _ _) h.flush hbegin rfl
  obtain ⟨round, rfl⟩ := List.length_eq_one_iff.1 hlength.symm
  obtain ⟨round', outer, hrun, -, hcons⟩ := List.forall₂_cons_left_iff.1 h'.tally.flushes
  obtain ⟨rfl, rfl⟩ : round' = round ∧ outer = r.rounds := List.cons.inj (hcons.symm.trans hr')
  have hround : round' ∈ r'.rounds := hcons ▸ List.mem_cons_self
  have hleft : round'.left = [] := List.map_eq_nil_iff.1 hrun.waiting.symm
  have hqueued : round'.taken = r.queued := Option.some.inj htaken
  have hbegun : round'.begun = r.queued := by
    rw [← hqueued, (h'.tally.fair.taken round' hround).1, hleft, List.append_nil]
  refine ⟨a', r', hflush, h', ?_, hstarted, ?_⟩
  · obtain ⟨taken, begun, left⟩ := round'
    dsimp only at hleft hqueued hbegun
    rw [hcons, hleft, hqueued, hbegun]
  · exact hbegun ▸ h'.tally.fair.begun round' hround

/-- Every requested task waits for a frame, is held by a flush, or has started, and in one way only. A
flush has taken what waited when it began, has begun a first part of it in the order of the requests
and holds the rest, so that it has begun all of it when nothing is left. Tasks that are through have
been reported if they end in failure, once and with the reason, and no others. A frame is wanted
exactly while something waits, and the host is asked for one whenever something comes to wait.
Without flushes within flushes tasks start in the order of all requests. Flushes come to an end. -/
theorem Watched.exactly_once {m : Moment Agenda String} {r : Roster} (h : Watched m r) :
    (r.asked.map Task.number = List.range r.asked.length ∧
      (r.queued ++ (r.held ++ r.started)).Perm r.asked ∧
      (r.queued ++ (r.held ++ r.started)).Nodup) ∧
    (m.state.frame.jobs = r.queued.map Task.job ∧
      List.Forall₂ (fun (f : Flushing String) (round : Round) =>
        f.waiting = round.left.map Task.job ∧ f.count = round.taken.length ∧
        round.taken = round.begun ++ round.left ∧
        (round.taken.Pairwise fun t u => t.number < u.number) ∧
        round.begun.Sublist r.started) m.flushes r.rounds) ∧
    ((r.failed.map (·.1)).Nodup ∧
      m.state.events.filterMap Event.reported? =
        (r.failed.map fun p => EvalError.failed p.2).reverse ∧
      ∀ t ∈ r.started, (∀ round ∈ r.rounds, round.begun.getLast? ≠ some t) →
        ∀ reason, (t, reason) ∈ r.failed ↔ t.job.verdict = some reason) ∧
    m.state.frame.requested = !r.queued.isEmpty ∧
    m.state.events.countP Event.asksFrame = r.wakes ∧
    (r.nested = false → r.started.map Task.number = List.range r.started.length) ∧
    ∃ a' r', scheduler.flush m.state = .ok r.queued.length a' ∧
      Watched ⟨a', ⟨.done, [], r.queued.length⟩ :: m.flushes⟩ r' ∧
      r'.rounds = ⟨r.queued, r.queued, []⟩ :: r.rounds ∧
      r.started <+: r'.started ∧ r.queued.Sublist r'.started := by
  have t := h.tally
  refine ⟨⟨t.fair.numbered, t.fair.conserved, t.fair.nodup⟩, ⟨t.queue, ?_⟩,
    ⟨t.fair.once, t.reported, t.ended⟩, t.flag, t.wakes, fun hn => ?_, h.flush_run⟩
  · have hrounds : ∀ round ∈ r.rounds, round.taken = round.begun ++ round.left ∧
        (round.taken.Pairwise fun t u => t.number < u.number) ∧ round.begun.Sublist r.started :=
      fun round hm =>
        ⟨(t.fair.taken round hm).1, (t.fair.taken round hm).2, t.fair.begun round hm⟩
    have hboth := (List.forall₂_and_left _ _).2 ⟨hrounds, t.flushes.flip⟩
    exact hboth.flip.imp fun f round hr => ⟨hr.2.waiting, hr.2.count, hr.1⟩
  · have hs := congrArg (List.map Task.number) (t.fair.straight hn).2
    rw [t.fair.numbered, List.map_append] at hs
    have htake := List.prefix_iff_eq_take.1 (hs ▸ List.prefix_append _ _ :
      r.started.map Task.number <+: List.range r.asked.length)
    rw [List.take_range, List.length_map] at htake
    have hlength := congrArg List.length htake
    rw [List.length_map, List.length_range] at hlength
    rw [htake, ← hlength]

/-- A job that requests another one, which it flushes; both fail. -/
def hasty : Job String := .request (.fail "inner") (.flush (.fail "outer"))

theorem hasty_exactly_once : ∃ a' r',
    scheduler.flush (Run.left (scheduler.request hasty) .empty) = .ok 1 a' ∧
      Watched ⟨a', [⟨.done, [], 1⟩]⟩ r' ∧
      r'.rounds = [⟨[⟨0, hasty⟩], [⟨0, hasty⟩], []⟩] := by
  have h : Watched ⟨_, []⟩ _ := .request .empty hasty
  obtain ⟨-, -, -, -, -, -, a', r', hflush, h', hrounds, -, -⟩ := h.exactly_once
  exact ⟨a', r', hflush, h', hrounds⟩

example : (Run.left scheduler.flush (Run.left (scheduler.request hasty) .empty)).events.filterMap
    Event.reported? = [.failed "outer", .failed "inner"] := by decide

end LiveMarkup.Agenda
