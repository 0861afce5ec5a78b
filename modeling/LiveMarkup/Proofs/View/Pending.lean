import LiveMarkup.Proofs.View.Batch

/-! What is pending is rendered: a flush starts every render job that waits when it begins, and the
jobs, the flags and the writes of every instance agree at every moment. -/

namespace LiveMarkup.Session

variable {s t s' : Session} {i : InstanceId} {inst : Instance} {m m' m'' : Moment Session Action}
  {ledgers ledgers' : InstanceId → Ledger} {fs fs' : List (Flushing Action)}

private theorem Course.orderly (h : Course m ledgers m' ledgers') (ho : Orderly m ledgers) :
    Orderly m' ledgers' := by
  induction h with
  | refl => exact ho
  | turn t _ ht ih => exact ih.after ht

private theorem Reached.orderly (h : Reached m ledgers) : Orderly m ledgers := by
  refine Course.orderly h ⟨fun job hj => ?_, fun i inst hi => ?_, fun i inst hi => ?_, fun i inst hi => ?_⟩
  · cases hj
  · simp [empty] at hi
  · simp [empty, instance?] at hi
  · simp [empty, instance?] at hi

/-! The life of an instance. -/

private theorem Written.alive {w : Write} {j : InstanceId} (h : Written j w s t)
    (hi : t.instance? i = some inst) : ∃ inst', s.instance? i = some inst' := by
  obtain ⟨hi, ha⟩ := instance?_eq_some.1 hi
  by_cases hij : i = j
  · subst hij
    have hlt : i < s.instances.size := h.size ▸ (Array.getElem?_eq_some_iff.1 hi).1
    obtain ⟨inst', hi', ha', -⟩ := h.self _ (Array.getElem?_eq_getElem hlt)
    cases hi.symm.trans hi'
    exact ⟨_, instance?_eq_some.2 ⟨Array.getElem?_eq_getElem hlt, ha' ▸ ha⟩⟩
  · rw [h.others i hij] at hi
    exact ⟨inst, instance?_eq_some.2 ⟨hi, ha⟩⟩

private theorem calm_alive {j : InstanceId} (h : calm j t = calm j s)
    (hi : t.instance? i = some inst) :
    ∃ inst', s.instance? i = some inst' := by
  obtain ⟨hi, ha⟩ := instance?_eq_some.1 hi
  by_cases hij : i = j
  · subst hij
    obtain ⟨inst', hi', -, -, ha'⟩ := calm_getElem? h hi
    exact ⟨inst', instance?_eq_some.2 ⟨hi', ha' ▸ ha⟩⟩
  · rw [calm_getElem?_of_ne h hij] at hi
    exact ⟨inst, instance?_eq_some.2 ⟨hi, ha⟩⟩

/-- Nobody comes to life in a flush. -/
private theorem Next.alive (hn : Next s fs s' fs') (ho : Orderly ⟨s, fs⟩ ledgers)
    (hi : s'.instance? i = some inst) : ∃ inst', s.instance? i = some inst' := by
  cases hn with
  | finish events => exact ⟨inst, hi⟩
  | begin => exact ⟨inst, hi⟩
  | fail events => exact ⟨inst, hi⟩
  | @act a next rest waiting n outer events hr =>
    have hi : (Run.left (perform a) s).instance? i = some inst := hi
    cases a with
    | render j =>
      cases hj : s.instance? j with
      | none =>
        rw [left_perform_dead hj] at hi
        exact ⟨inst, hi⟩
      | some inst₀ =>
        rw [left_perform_render hj] at hi
        obtain ⟨inst', hi'⟩ := calm_alive (update_calm.left _) hi
        obtain ⟨hi', ha'⟩ := instance?_eq_some.1 hi'
        rw [getElem?_modifyInstance] at hi'
        split at hi'
        · obtain ⟨inst'', hi'', rfl⟩ := Option.map_eq_some_iff.1 hi'
          exact ⟨inst'', instance?_eq_some.2 ⟨hi'', ha'⟩⟩
        · exact ⟨inst', instance?_eq_some.2 ⟨hi', ha'⟩⟩
    | write j x v => exact (left_write_written (w := .set x v) (ho.idle j)).alive hi
  | @request job next waiting n outer =>
    obtain ⟨events, hr⟩ := left_request job s
    rw [hr] at hi
    exact ⟨inst, hi⟩
  | flush => exact ⟨inst, hi⟩

private theorem Next.size (hn : Next s fs s' fs') (ho : Orderly ⟨s, fs⟩ ledgers) :
    s'.instances.size = s.instances.size := by
  cases hn with
  | @act a next rest waiting n outer events hr =>
    have hperform : (Run.left (perform a) s).instances.size = s.instances.size := by
      cases a with
      | render j =>
        cases hj : s.instance? j with
        | none => rw [left_perform_dead hj]
        | some inst₀ =>
          rw [left_perform_render hj, calm_size (update_calm.left _)]
          exact Array.size_modify
      | write j x v => exact (left_write_written (w := .set x v) (ho.idle j)).size
    exact hperform
  | @request job next waiting n outer =>
    obtain ⟨events, hr⟩ := left_request job s
    rw [hr]
  | _ => rfl

/-- No instance is forgotten. -/
private theorem size_after (ho : Orderly m ledgers) {turn : Turn} (ht : after m turn = some m') :
    m.state.instances.size ≤ m'.state.instances.size := by
  obtain ⟨s, fs⟩ := m
  cases turn with
  | mount r props isPublic natives target =>
    cases ht
    rw [(mount_newborn r props isPublic natives target s).size]
    exact Nat.le_succ _
  | write j w =>
    cases ht
    exact Nat.le_of_eq (left_write_written (ho.idle j)).size.symm
  | drop j =>
    cases ht
    exact Nat.le_of_eq Array.size_modify.symm
  | edit change =>
    cases ht
    have hkeep : (Run.left (edit change) s).instances = s.instances :=
      edit_keeps (P := fun t => t.instances = s.instances) (fun _ _ h => h) s rfl
    exact Nat.le_of_eq (congrArg Array.size hkeep.symm)
  | request job =>
    simp only [after] at ht
    split at ht
    · cases ht
      obtain ⟨events, hr⟩ := left_request job s
      exact Nat.le_of_eq (by rw [hr])
    · cases ht
  | flush =>
    cases ht
    exact Nat.le_refl _
  | proceed => exact Nat.le_of_eq ((proceed_next ht).size ho).symm

/-- Nobody comes to life but new instances. -/
private theorem alive_before (ho : Orderly m ledgers) {turn : Turn} (ht : after m turn = some m')
    (hlt : i < m.state.instances.size) (hi : m'.state.instance? i = some inst) :
    ∃ inst', m.state.instance? i = some inst' := by
  obtain ⟨s, fs⟩ := m
  cases turn with
  | mount r props isPublic natives target =>
    cases ht
    obtain ⟨hi, ha⟩ := instance?_eq_some.1 hi
    rw [(mount_newborn r props isPublic natives target s).others i hlt] at hi
    exact ⟨inst, instance?_eq_some.2 ⟨hi, ha⟩⟩
  | write j w =>
    cases ht
    exact (left_write_written (ho.idle j)).alive hi
  | drop j =>
    cases ht
    have hi : (s.modifyInstance j fun inst => { inst with alive := false }).instance? i = some inst := hi
    obtain ⟨hi, ha⟩ := instance?_eq_some.1 hi
    rw [getElem?_modifyInstance] at hi
    split at hi
    · obtain ⟨inst', hi', rfl⟩ := Option.map_eq_some_iff.1 hi
      cases ha
    · exact ⟨inst, instance?_eq_some.2 ⟨hi, ha⟩⟩
  | edit change =>
    cases ht
    have hkeep : (Run.left (edit change) s).instances = s.instances :=
      edit_keeps (P := fun t => t.instances = s.instances) (fun _ _ h => h) s rfl
    rw [instance?, hkeep] at hi
    exact ⟨inst, hi⟩
  | request job =>
    simp only [after] at ht
    split at ht
    · cases ht
      obtain ⟨events, hr⟩ := left_request job s
      rw [hr] at hi
      exact ⟨inst, hi⟩
    · cases ht
  | flush =>
    cases ht
    exact ⟨inst, hi⟩
  | proceed => exact (proceed_next ht).alive ho hi

/-! The jobs that flushes hold. -/

/-- A flush starts the jobs that it holds, or holds on to them. -/
private theorem Next.held (hn : Next s fs s' fs') (ho : Orderly ⟨s, fs⟩ ledgers)
    (hi : s.instance? i = some inst) :
    deedOf s fs = .started i ∨
      (heldJobs fs).countP (rendersOnly i) ≤ (heldJobs fs').countP (rendersOnly i) := by
  cases hn with
  | finish events =>
    right
    rw [countP_heldJobs_cons]
    exact Nat.le_of_eq (Nat.zero_add _)
  | begin =>
    right
    rw [countP_heldJobs_cons, countP_heldJobs_cons, List.countP_cons]
    simp [rendersOnly]
    omega
  | fail events =>
    right
    rw [countP_heldJobs_cons, countP_heldJobs_cons]
    simp [rendersOnly]
  | @act a next rest waiting n outer events hr =>
    cases a with
    | render j =>
      by_cases hij : j = i
      · subst hij
        left
        simp only [deedOf, hi, Option.isSome_some, if_pos]
      · right
        obtain ⟨k, he⟩ := ho.current.resolve_left Bool.false_ne_true
        cases he
        have hother : rendersOnly i (.act (.render j) .done) = false := by simpa [rendersOnly] using hij
        rw [countP_heldJobs_cons, countP_heldJobs_cons, hother]
        simp
    | write j x v =>
      right
      rw [countP_heldJobs_cons, countP_heldJobs_cons]
      simp [rendersOnly]
  | request =>
    right
    rw [countP_heldJobs_cons, countP_heldJobs_cons]
    simp [rendersOnly]
  | flush =>
    right
    rw [countP_heldJobs_cons, countP_heldJobs_cons, countP_heldJobs_cons]
    simp [rendersOnly]
    omega

private theorem held_after (ho : Orderly m ledgers) {turn : Turn} (ht : after m turn = some m')
    (hi : m.state.instance? i = some inst) :
    deed m turn = .started i ∨
      (heldJobs m.flushes).countP (rendersOnly i) ≤ (heldJobs m'.flushes).countP (rendersOnly i) := by
  obtain ⟨s, fs⟩ := m
  cases turn with
  | mount r props isPublic natives target => cases ht; exact .inr (Nat.le_refl _)
  | write j w => cases ht; exact .inr (Nat.le_refl _)
  | drop j => cases ht; exact .inr (Nat.le_refl _)
  | edit change => cases ht; exact .inr (Nat.le_refl _)
  | request job =>
    simp only [after] at ht
    split at ht
    · cases ht; exact .inr (Nat.le_refl _)
    · cases ht
  | flush =>
    cases ht
    right
    have hstart : (scheduler.start ⟨s, fs⟩).flushes =
        ⟨.done, s.frame.jobs, s.frame.jobs.length⟩ :: fs := rfl
    rw [hstart, countP_heldJobs_cons]
    exact Nat.le_add_left _ _
  | proceed => exact (proceed_next ht).held ho hi

/-! Ledgers. -/

private theorem updates_enter (ledgers : InstanceId → Ledger) (s' : Session) {d : Deed}
    (hd : d ≠ .made i) :
    (ledgers i).updates ≤ (enter s' d ledgers i).updates := by
  cases d with
  | written j w =>
    simp only [enter]
    split
    · exact Nat.le_refl _
    · exact Nat.le_refl _
  | started j =>
    simp only [enter]
    split
    · exact Nat.le_succ _
    · exact Nat.le_refl _
  | made j =>
    have hji : j ≠ i := fun h => hd (h ▸ rfl)
    simp only [enter, if_neg hji, Nat.le_refl]
  | other => exact Nat.le_refl _

private theorem deed_ne_made (turn : Turn) (hlt : i < m.state.instances.size) :
    deed m turn ≠ .made i := by
  intro h
  cases turn with
  | mount => exact absurd (Deed.made.inj h) (Nat.ne_of_gt hlt)
  | proceed =>
    simp only [deed] at h
    unfold deedOf at h
    split at h
    · split at h <;> cases h
    · cases h
    · cases h
  | _ => cases h

/-- What a flush holds for an instance that stays alive has been started when no flush is left. -/
private theorem Course.updates (h : Course m ledgers m' ledgers') (ho : Orderly m ledgers)
    (hlt : i < m.state.instances.size)
    (hheld : 1 ≤ (heldJobs m.flushes).countP (rendersOnly i)) :
    i < m'.state.instances.size ∧ (ledgers i).updates ≤ (ledgers' i).updates ∧
      ∀ inst, m'.state.instance? i = some inst →
        (ledgers i).updates < (ledgers' i).updates ∨
          1 ≤ (heldJobs m'.flushes).countP (rendersOnly i) := by
  induction h with
  | refl => exact ⟨hlt, Nat.le_refl _, fun _ _ => .inr hheld⟩
  | @turn m₁ ledgers₁ m₂ turn hc ht ih =>
    obtain ⟨hlt₁, hle, hlive⟩ := ih
    have ho₁ := hc.orderly ho
    have hstep := updates_enter ledgers₁ m₂.state (deed_ne_made turn hlt₁)
    refine ⟨Nat.lt_of_lt_of_le hlt₁ (size_after ho₁ ht), Nat.le_trans hle hstep, fun inst hi => ?_⟩
    obtain ⟨inst₁, hi₁⟩ := alive_before ho₁ ht hlt₁ hi
    rcases hlive inst₁ hi₁ with hmore | hmore
    · exact .inl (Nat.lt_of_lt_of_le hmore hstep)
    · rcases held_after ho₁ ht hi₁ with hd | hheld₁
      · left
        rw [hd]
        simp only [enter, if_pos]
        exact Nat.lt_succ_of_le hle
      · exact .inr (Nat.le_trans hmore hheld₁)

/-- The moments of a flush are turns. -/
private theorem Course.leads (h : Course m ledgers m' ledgers') (hl : scheduler.Leads m' m'') :
    ∃ ledgers'', Course m ledgers m'' ledgers'' := by
  induction hl generalizing ledgers' with
  | refl => exact ⟨_, h⟩
  | step hp _ ih => exact ih (h.turn .proceed hp)

private theorem scheduler_tells : scheduler.Tells := fun _ _ => ⟨_, rfl⟩

private theorem deedOf_eq_started (h : deedOf s fs = .started i) :
    ∃ next waiting n outer, fs = ⟨.act (.render i) next, waiting, n⟩ :: outer := by
  unfold deedOf at h
  split at h
  · split at h
    · cases h
      exact ⟨_, _, _, _, rfl⟩
    · cases h
  · cases h
  · cases h

/-- A job that renders an instance is started: it was the only one, and is not one any more. -/
private theorem Next.started (hn : Next s fs s' fs') (ho : Orderly ⟨s, fs⟩ ledgers)
    (hi : s.instance? i = some inst) (hd : deedOf s fs = .started i) :
    inst.pending = true ∧ renderJobs i ⟨s', fs'⟩ = 0 ∧
      (∀ inst', s'.instance? i = some inst' → inst'.pending = false) ∧
      ∃ events, s' = { Run.left (update i) (s.modifyInstance i fun inst =>
        { inst with pending := false }) with events } := by
  obtain ⟨next, waiting, n, outer, rfl⟩ := deedOf_eq_started hd
  obtain ⟨k, he⟩ := ho.current.resolve_left Bool.false_ne_true
  cases he
  obtain ⟨hpending, hframe, hwaiting, hheld⟩ := ho.pending_of_started hi
  cases hn with
  | @act a next rest waiting n outer events hr =>
    obtain rfl : rest = .done := by simpa using hr
    rw [left_perform_render hi]
    generalize ht : Run.left (update i) (s.modifyInstance i fun inst =>
      { inst with pending := false }) = t
    obtain ⟨hf, -, -, hself⟩ := left_update_started hi ht.symm
    refine ⟨hpending, ?_, fun inst' hi' => (hself inst' (instance?_eq_some.1 hi').1).1, events, rfl⟩
    rw [renderJobs_mk, countP_heldJobs_cons]
    dsimp only
    rw [hf, hframe, hwaiting, hheld]
    rfl

/-- At every moment that turns lead to, an instance that is alive is pending exactly while one job
that renders it has not been started, and there is never more than one. It is pending exactly while
it is out of date, it has the writes of its users since its last update, and as many of its jobs
have been started as batches of writes came before. The next job to be started finds all those
writes, and leaves it up to date. A flush starts all jobs that wait when it begins, and its turns
are what a flush does. -/
theorem pending_iff_render_job_waits (h : Reached m ledgers) (hi : m.state.instance? i = some inst) :
    (inst.pending = true ↔ renderJobs i m = 1) ∧ (inst.pending = false ↔ renderJobs i m = 0) ∧
    (inst.discipline = .batched →
      (inst.pending = true ↔ (ledgers i).dirty = true) ∧ inst.scope = (ledgers i).scope ∧
        (ledgers i).batches = (ledgers i).updates + renderJobs i m) ∧
    (∀ m', after m .proceed = some m' → deed m .proceed = .started i →
      inst.pending = true ∧ renderJobs i m' = 0 ∧
        (∀ inst', m'.state.instance? i = some inst' → inst'.pending = false) ∧
        ∃ events, m'.state = { Run.left (update i) (m.state.modifyInstance i fun inst =>
          { inst with pending := false }) with events }) ∧
    (m.flushes = [] → inst.pending = true → ∀ m' ledgers',
      Course (scheduler.start m) ledgers m' ledgers' → m'.flushes = [] →
        (m'.state.instance? i).isSome → (ledgers i).updates < (ledgers' i).updates) ∧
    ∀ n s', m.flushes = [] → flush m.state = .ok n s' →
      ∃ ledgers', Course (scheduler.start m) ledgers ⟨s', []⟩ ledgers' := by
  have ho := h.orderly
  have hcount := ho.pending i inst hi
  refine ⟨?_, ?_, fun hd => ?_, fun m' hm' hdeed => ?_, fun hf hp m' ledgers' hc hf' hi' => ?_,
    fun n s' hf hflush => ?_⟩
  · rw [hcount]
    cases inst.pending <;> simp
  · rw [hcount]
    cases inst.pending <;> simp
  · obtain ⟨hs, hp, hb⟩ := ho.ledger i inst hi hd
    exact ⟨by rw [hp], hs, by rw [hcount, hb]⟩
  · exact (proceed_next hm').started ho hi hdeed
  · have hlt : i < m.state.instances.size :=
      (Array.getElem?_eq_some_iff.1 (instance?_eq_some.1 hi).1).1
    have hheld : 1 ≤ (heldJobs (scheduler.start m).flushes).countP (rendersOnly i) := by
      have hstart : (scheduler.start m).flushes =
          [⟨.done, m.state.frame.jobs, m.state.frame.jobs.length⟩] := by
        rw [Scheduler.start, hf]
        rfl
      have hjobs : jobs m = m.state.frame.jobs := by
        rw [jobs, hf]
        exact List.append_nil _
      rw [hstart, countP_heldJobs_cons, ← hjobs]
      rw [hp, renderJobs] at hcount
      simp [rendersOnly, heldJobs, hcount]
    obtain ⟨inst', hi'⟩ := Option.isSome_iff_exists.1 hi'
    rcases (hc.updates ho.flush hlt hheld).2.2 inst' hi' with hmore | hmore
    · exact hmore
    · rw [hf'] at hmore
      cases hmore
  · obtain ⟨s, fs⟩ := m
    subst hf
    exact Course.leads .refl (Scheduler.flush_leads scheduler_tells hflush)

/-- A view that shows nothing and waits for frames, and the moment after a write to it. -/
def blank : Recipe := ⟨⟨0, ⟨"", none, none⟩, ⟨[]⟩, .empty, none⟩, .batched, false⟩

def wroteToBlank : Moment Session Action :=
  ⟨Run.left ((Write.set "x" .null).run 0) (Run.left (mount blank [] false [] 2) empty), []⟩

/-- One write makes one job wait. -/
theorem pending_blank_render_job_waits :
    ∃ ledgers inst, Reached wroteToBlank ledgers ∧ wroteToBlank.state.instance? 0 = some inst ∧
      inst.pending = true ∧ (ledgers 0).dirty = true ∧ renderJobs 0 wroteToBlank = 1 := by
  have hreached : ∃ ledgers, Reached wroteToBlank ledgers :=
    ⟨_, (Course.refl.turn (.mount blank [] false [] 2) rfl).turn (.write 0 (.set "x" .null)) rfl⟩
  have hlive : (wroteToBlank.state.instance? 0).any (fun inst =>
      inst.pending && inst.discipline == .batched) = true := by decide +kernel
  obtain ⟨ledgers, h⟩ := hreached
  cases hi : wroteToBlank.state.instance? 0 with
  | none => simp [hi] at hlive
  | some inst =>
    rw [hi, Option.any_some, Bool.and_eq_true, beq_iff_eq] at hlive
    obtain ⟨hp, -, hbatched, -⟩ := pending_iff_render_job_waits h hi
    exact ⟨ledgers, inst, h, rfl, hlive.1, (hbatched hlive.2).1.1 hlive.1, hp.1 hlive.1⟩

end LiveMarkup.Session
