import LiveMarkup.Proofs.View.Turns

/-! Batched rendering loses no write and renders nothing twice: an instance is pending exactly while
one job that renders it waits, and that is exactly while it is out of date. -/

namespace LiveMarkup.Session

variable {s t : Session} {i : InstanceId} {inst : Instance} {m m' : Moment Session Action}
  {ledgers : InstanceId → Ledger} {fs : List (Flushing Action)}

/-- The jobs, the flags and the ledgers fit together. -/
structure Orderly (m : Moment Session Action) (ledgers : InstanceId → Ledger) : Prop where
  known : ∀ job ∈ jobs m, foreign job = true ∨
    ∃ i < m.state.instances.size, job = .act (.render i) .done
  idle : ∀ (i : InstanceId) inst, m.state.instances[i]? = some inst → inst.phase = .idle
  pending : ∀ i inst, m.state.instance? i = some inst → renderJobs i m = inst.pending.toNat
  ledger : ∀ i inst, m.state.instance? i = some inst → inst.discipline = .batched →
    inst.scope = (ledgers i).scope ∧ inst.pending = (ledgers i).dirty ∧
      (ledgers i).batches = (ledgers i).updates + inst.pending.toNat

/-- Turns that move jobs about and leave the instances as they are, but that some may die. -/
private theorem Orderly.quiet (h : Orderly m ledgers)
    (hjobs : ∀ job ∈ jobs m', foreign job = true ∨ job ∈ jobs m)
    (hsize : m'.state.instances.size = m.state.instances.size)
    (hinst : ∀ (i : InstanceId) inst, m'.state.instances[i]? = some inst →
      ∃ alive, m.state.instances[i]? = some { inst with alive } ∧ (inst.alive → alive))
    (hcount : ∀ i inst, m'.state.instance? i = some inst → renderJobs i m' = renderJobs i m) :
    Orderly m' ledgers := by
  have hlive (i : InstanceId) (inst : Instance) (hi : m'.state.instance? i = some inst) :
      ∃ alive, m.state.instance? i = some { inst with alive } := by
    obtain ⟨hi, ha⟩ := instance?_eq_some.1 hi
    obtain ⟨alive, hi', ha'⟩ := hinst i inst hi
    exact ⟨alive, instance?_eq_some.2 ⟨hi', ha' ha⟩⟩
  refine ⟨fun job hj => ?_, fun i inst hi => ?_, fun i inst hi => ?_, fun i inst hi hd => ?_⟩
  · rcases hjobs job hj with hf | hj
    · exact .inl hf
    · rw [hsize]
      exact h.known job hj
  · obtain ⟨alive, hi', -⟩ := hinst i inst hi
    have hidle := h.idle i _ hi'
    exact hidle
  · obtain ⟨alive, hi'⟩ := hlive i inst hi
    have hpending := h.pending i _ hi'
    exact (hcount i inst hi).trans hpending
  · obtain ⟨alive, hi'⟩ := hlive i inst hi
    have hledger := h.ledger i _ hi'
    exact hledger hd

/-- Turns that only move jobs about. -/
private theorem Orderly.shuffle (h : Orderly m ledgers)
    (hjobs : ∀ job ∈ jobs m', foreign job = true ∨ job ∈ jobs m)
    (hinst : m'.state.instances = m.state.instances)
    (hcount : ∀ i inst, m'.state.instance? i = some inst → renderJobs i m' = renderJobs i m) :
    Orderly m' ledgers :=
  h.quiet hjobs (by rw [hinst]) (fun i inst hi => ⟨inst.alive, by rw [← hinst]; exact hi, id⟩) hcount

private theorem jobs_mk (s : Session) (fs : List (Flushing Action)) :
    jobs ⟨s, fs⟩ = s.frame.jobs ++ heldJobs fs := rfl

private theorem heldJobs_cons (f : Flushing Action) (fs : List (Flushing Action)) :
    heldJobs (f :: fs) = f.current :: f.waiting ++ heldJobs fs := List.flatMap_cons ..

theorem renderJobs_mk (i : InstanceId) (s : Session) (fs : List (Flushing Action)) :
    renderJobs i ⟨s, fs⟩ =
      s.frame.jobs.countP (rendersOnly i) + (heldJobs fs).countP (rendersOnly i) :=
  List.countP_append ..

theorem countP_heldJobs_cons (i : InstanceId) (f : Flushing Action) (fs : List (Flushing Action)) :
    (heldJobs (f :: fs)).countP (rendersOnly i) =
      (if rendersOnly i f.current then 1 else 0) + f.waiting.countP (rendersOnly i) +
        (heldJobs fs).countP (rendersOnly i) := by
  rw [heldJobs_cons, List.countP_append, List.countP_cons, Nat.add_comm (f.waiting.countP _)]

/-- A foreign job does not render. -/
private theorem rendersOnly_of_foreign {job : Job Action} (h : foreign job = true) :
    rendersOnly i job = false := by
  cases job with
  | act a next =>
    cases a with
    | render j => cases h
    | write j x v => rfl
  | _ => rfl

/-- A write keeps everything in order: it makes its instance pending and requests a job if it is the
first dirty one. -/
private theorem Orderly.write (h : Orderly ⟨s, fs⟩ ledgers) (i : InstanceId) (w : Write) :
    Orderly ⟨Run.left (w.run i) s, fs⟩
      (enter (Run.left (w.run i) s) (.written i w) ledgers) := by
  have hw : Written i w s (Run.left (w.run i) s) := left_write_written (h.idle i)
  generalize Run.left (w.run i) s = t at hw ⊢
  have hself {inst : Instance} (hi : t.instances[i]? = some inst) :
      ∃ inst₀, s.instances[i]? = some inst₀ ∧ inst.alive = inst₀.alive ∧
        inst.discipline = inst₀.discipline ∧ inst.phase = .idle ∧
        inst.pending = (inst₀.pending || wakes w inst₀) ∧
        (inst₀.discipline = .batched → inst.scope = w.apply inst₀.scope) := by
    have hlt : i < s.instances.size := hw.size ▸ (Array.getElem?_eq_some_iff.1 hi).1
    have hi₀ := Array.getElem?_eq_getElem hlt
    obtain ⟨inst', hi', hrest⟩ := hw.self _ hi₀
    cases hi.symm.trans hi'
    exact ⟨_, hi₀, hrest⟩
  refine ⟨fun job hj => ?_, fun j inst hj => ?_, fun j inst hj => ?_, fun j inst hj hd => ?_⟩
  · rw [hw.size]
    rw [jobs_mk, hw.jobs, List.mem_append, List.mem_append] at hj
    rcases hj with (hj | hj) | hj
    · exact h.known job (List.mem_append_left _ hj)
    · split at hj
      · next hany =>
        cases hi : s.instances[i]? with
        | none => simp [hi] at hany
        | some inst =>
          have hlt : i < s.instances.size := (Array.getElem?_eq_some_iff.1 hi).1
          exact .inr ⟨i, hlt, List.mem_singleton.1 hj⟩
      · cases hj
    · exact h.known job (List.mem_append_right _ hj)
  · by_cases hji : j = i
    · subst hji
      obtain ⟨inst₀, -, -, -, hp, -⟩ := hself hj
      exact hp
    · rw [hw.others j hji] at hj
      exact h.idle j inst hj
  · obtain ⟨hj, ha⟩ := instance?_eq_some.1 hj
    by_cases hji : j = i
    · subst hji
      obtain ⟨inst₀, hi₀, ha₀, -, -, hp, -⟩ := hself hj
      have hcount := h.pending j inst₀ (instance?_eq_some.2 ⟨hi₀, ha₀ ▸ ha⟩)
      rw [renderJobs_mk] at hcount ⊢
      rw [hw.jobs, List.countP_append, hp, hi₀, Option.any_some]
      have hnew : (if (wakes w inst₀ && !inst₀.pending) = true then
          [Job.act (.render j) .done] else []).countP (rendersOnly j) =
          (wakes w inst₀ && !inst₀.pending).toNat := by
        cases wakes w inst₀ && !inst₀.pending <;> simp [rendersOnly]
      rw [hnew, Nat.add_right_comm, hcount]
      cases wakes w inst₀ <;> cases inst₀.pending <;> rfl
    · rw [hw.others j hji] at hj
      have hcount := h.pending j inst (instance?_eq_some.2 ⟨hj, ha⟩)
      have hne : (i == j) = false := by simpa using Ne.symm hji
      rw [renderJobs_mk] at hcount ⊢
      rw [hw.jobs, List.countP_append, ← hcount]
      split <;> simp [rendersOnly, hne]
  · obtain ⟨hj, ha⟩ := instance?_eq_some.1 hj
    by_cases hji : j = i
    · subst hji
      obtain ⟨inst₀, hi₀, ha₀, hd₀, -, hp, hscope⟩ := hself hj
      obtain ⟨hs, hdirty, hb⟩ :=
        h.ledger j inst₀ (instance?_eq_some.2 ⟨hi₀, ha₀ ▸ ha⟩) (hd₀ ▸ hd)
      have hwake : wakes w inst₀ = w.dirty (ledgers j).scope := by
        simp [wakes, ← ha₀, ha, ← hd₀, hd, hs]
      simp only [enter, if_pos]
      refine ⟨?_, ?_, ?_⟩
      · rw [hscope (hd₀ ▸ hd), hs, Ledger.scope, Ledger.scope, Ledger.add, List.foldl_append]
        rfl
      · rw [hp, hwake, hdirty]
        rfl
      · rw [hp, hwake, hdirty]
        simp only [Ledger.add]
        cases w.dirty (ledgers j).scope <;> cases hl : (ledgers j).dirty <;>
          simp [hdirty, hl] at hb ⊢ <;> omega
    · rw [hw.others j hji] at hj
      simp only [enter, if_neg (Ne.symm hji)]
      exact h.ledger j inst (instance?_eq_some.2 ⟨hj, ha⟩) hd

/-- When its job is started an instance is pending, and this is its only job. -/
theorem Orderly.pending_of_started {n : Nat} {waiting : List (Job Action)}
    (h : Orderly ⟨s, ⟨.act (.render i) .done, waiting, n⟩ :: fs⟩ ledgers)
    (hi : s.instance? i = some inst) :
    inst.pending = true ∧ s.frame.jobs.countP (rendersOnly i) = 0 ∧
      waiting.countP (rendersOnly i) = 0 ∧ (heldJobs fs).countP (rendersOnly i) = 0 := by
  have hcount := h.pending i inst hi
  have hself : rendersOnly i (.act (.render i) .done) = true := beq_self_eq_true i
  rw [renderJobs_mk, countP_heldJobs_cons, hself, if_pos rfl] at hcount
  dsimp only at hcount
  cases hp : inst.pending with
  | true =>
    rw [hp, Bool.toNat_true] at hcount
    refine ⟨rfl, ?_, ?_, ?_⟩ <;> omega
  | false =>
    rw [hp, Bool.toNat_false] at hcount
    omega

/-- What an update that a job has started leaves as it was. -/
theorem left_update_started (hi : s.instance? i = some inst)
    (ht : t = Run.left (update i) (s.modifyInstance i fun inst => { inst with pending := false })) :
    t.frame = s.frame ∧ t.instances.size = s.instances.size ∧
      (∀ j ≠ i, t.instances[j]? = s.instances[j]?) ∧
      ∀ inst', t.instances[i]? = some inst' →
        inst'.pending = false ∧ inst'.discipline = inst.discipline := by
  have hcalm : calm i t = calm i (s.modifyInstance i fun inst => { inst with pending := false }) :=
    ht ▸ update_calm.left _
  refine ⟨(calm_frame hcalm).trans rfl, (calm_size hcalm).trans Array.size_modify, fun j hj => ?_,
    fun inst' hi' => ?_⟩
  · exact (calm_getElem?_of_ne hcalm hj).trans (getElem?_modifyInstance_of_ne hj _)
  · obtain ⟨inst₀, hi₀, hd, hp, -⟩ := calm_getElem? hcalm hi'
    rw [getElem?_modifyInstance_self (instance?_eq_some.1 hi).1] at hi₀
    cases hi₀
    exact ⟨hp, hd⟩

/-- The job of an instance is started: no other one waits, and the instance is up to date. -/
private theorem Orderly.start {n : Nat} {waiting : List (Job Action)}
    (h : Orderly ⟨s, ⟨.act (.render i) .done, waiting, n⟩ :: fs⟩ ledgers)
    (hi : s.instance? i = some inst) :
    let t := Run.left (update i) (s.modifyInstance i fun inst => { inst with pending := false })
    Orderly ⟨t, ⟨.done, waiting, n⟩ :: fs⟩ (enter t (.started i) ledgers) := by
  intro t
  obtain ⟨hpending, hframe, hwaiting, hheld⟩ := h.pending_of_started hi
  obtain ⟨hf, hsize, hother, hself⟩ := left_update_started hi (rfl : t = _)
  refine ⟨fun job hj => ?_, fun j inst' hj => ?_, fun j inst' hj => ?_, fun j inst' hj hd => ?_⟩
  · rw [hsize]
    rw [jobs_mk, heldJobs_cons, hf, List.mem_append, List.cons_append, List.mem_cons] at hj
    rcases hj with hj | rfl | hj
    · exact h.known job (List.mem_append_left _ hj)
    · exact .inl rfl
    · refine h.known job (List.mem_append_right _ ?_)
      rw [heldJobs_cons]
      exact List.mem_cons_of_mem _ hj
  · by_cases hji : j = i
    · subst hji
      exact phase_of_update hj
    · rw [hother j hji] at hj
      exact h.idle j inst' hj
  · obtain ⟨hj, ha⟩ := instance?_eq_some.1 hj
    rw [renderJobs_mk, countP_heldJobs_cons, hf]
    by_cases hji : j = i
    · subst hji
      rw [hframe, hwaiting, hheld, (hself inst' hj).1]
      rfl
    · rw [hother j hji] at hj
      have hcount := h.pending j inst' (instance?_eq_some.2 ⟨hj, ha⟩)
      have hne : rendersOnly j (.act (.render i) .done) = false := by
        simpa [rendersOnly] using Ne.symm hji
      rw [renderJobs_mk, countP_heldJobs_cons, hne] at hcount
      exact hcount
  · obtain ⟨hj, ha⟩ := instance?_eq_some.1 hj
    by_cases hji : j = i
    · subst hji
      obtain ⟨hp, hd'⟩ := hself inst' hj
      obtain ⟨-, -, hb⟩ := h.ledger j inst hi (hd' ▸ hd)
      simp only [enter, if_pos]
      refine ⟨?_, hp, ?_⟩
      · rw [Ledger.scope, Ledger.start, List.foldl_nil, scopeOf, hj, Option.map_some,
          Option.getD_some]
      · rw [hp]
        rw [hpending] at hb
        exact hb
    · rw [hother j hji] at hj
      simp only [enter, if_neg (Ne.symm hji)]
      exact h.ledger j inst' (instance?_eq_some.2 ⟨hj, ha⟩) hd

/-- A new instance is up to date. -/
private theorem Orderly.mount (h : Orderly ⟨s, fs⟩ ledgers) {r : Recipe} (hn : Newborn r s t) :
    Orderly ⟨t, fs⟩ (enter t (.made s.instances.size) ledgers) := by
  have hlt {j : InstanceId} {inst : Instance} (hj : t.instances[j]? = some inst)
      (hne : j ≠ s.instances.size) : j < s.instances.size := by
    have hj := (Array.getElem?_eq_some_iff.1 hj).1
    rw [hn.size] at hj
    exact Nat.lt_of_le_of_ne (Nat.le_of_lt_succ hj) hne
  obtain ⟨inst₀, hi₀, hp₀, -, hf₀⟩ := hn.self
  refine ⟨fun job hj => ?_, fun j inst hj => ?_, fun j inst hj => ?_, fun j inst hj hd => ?_⟩
  · rw [jobs_mk, hn.frame] at hj
    rcases h.known job hj with hf | ⟨k, hk, he⟩
    · exact .inl hf
    · exact .inr ⟨k, hn.size ▸ Nat.lt_succ_of_lt hk, he⟩
  · by_cases hne : j = s.instances.size
    · subst hne
      cases hi₀.symm.trans hj
      exact hf₀
    · rw [hn.others j (hlt hj hne)] at hj
      exact h.idle j inst hj
  · obtain ⟨hj, ha⟩ := instance?_eq_some.1 hj
    have hrender : renderJobs j ⟨t, fs⟩ = renderJobs j ⟨s, fs⟩ := by
      rw [renderJobs_mk, renderJobs_mk, hn.frame]
    rw [hrender]
    by_cases hne : j = s.instances.size
    · subst hne
      cases hi₀.symm.trans hj
      rw [hp₀, Bool.toNat_false, renderJobs, List.countP_eq_zero]
      intro job hjob
      rcases h.known job hjob with hf | ⟨k, hk, rfl⟩
      · simp [rendersOnly_of_foreign hf]
      · simpa [rendersOnly] using Nat.ne_of_lt hk
    · rw [hn.others j (hlt hj hne)] at hj
      exact h.pending j inst (instance?_eq_some.2 ⟨hj, ha⟩)
  · obtain ⟨hj, ha⟩ := instance?_eq_some.1 hj
    by_cases hne : j = s.instances.size
    · subst hne
      cases hi₀.symm.trans hj
      simp only [enter, if_pos]
      refine ⟨?_, hp₀, ?_⟩
      · rw [Ledger.scope, Ledger.fresh, List.foldl_nil, scopeOf, hj, Option.map_some,
          Option.getD_some]
      · rw [hp₀]
        rfl
    · rw [hn.others j (hlt hj hne)] at hj
      simp only [enter, if_neg (Ne.symm hne)]
      exact h.ledger j inst (instance?_eq_some.2 ⟨hj, ha⟩) hd

/-- The job that runs is foreign, or it is one that renders an instance and has not been started. -/
theorem Orderly.current {current : Job Action} {waiting : List (Job Action)} {n : Nat}
    (h : Orderly ⟨s, ⟨current, waiting, n⟩ :: fs⟩ ledgers) :
    foreign current = true ∨ ∃ i, current = .act (.render i) .done := by
  have hmem : current ∈ jobs ⟨s, ⟨current, waiting, n⟩ :: fs⟩ := by
    rw [jobs_mk, heldJobs_cons]
    exact List.mem_append_right _ List.mem_cons_self
  rcases h.known current hmem with hf | ⟨i, -, he⟩
  · exact .inl hf
  · exact .inr ⟨i, he⟩

/-- The flushes in progress go on while the session stays as it is, but for what the host is told. -/
private theorem Orderly.advance (h : Orderly ⟨s, fs⟩ ledgers) {fs' : List (Flushing Action)}
    (events : List Event)
    (hjobs : ∀ job ∈ heldJobs fs', foreign job = true ∨ job ∈ heldJobs fs)
    (hcount : ∀ i inst, s.instance? i = some inst →
      (heldJobs fs').countP (rendersOnly i) = (heldJobs fs).countP (rendersOnly i)) :
    Orderly ⟨{ s with events }, fs'⟩ ledgers := by
  refine h.shuffle (fun job hj => ?_) rfl fun i inst hi => ?_
  · rcases List.mem_append.1 hj with hj | hj
    · exact .inr (List.mem_append_left _ hj)
    · exact (hjobs job hj).imp_right fun hj => List.mem_append_right _ hj
  · rw [renderJobs_mk, renderJobs_mk, hcount i inst hi]

/-- The job that runs goes on, and what is left of it is foreign as the job was. -/
private theorem Orderly.go_on {current rest : Job Action} {waiting : List (Job Action)} {n : Nat}
    (h : Orderly ⟨s, ⟨current, waiting, n⟩ :: fs⟩ ledgers) (hc : foreign current = true)
    (hr : foreign rest = true) (events : List Event) :
    Orderly ⟨{ s with events }, ⟨rest, waiting, n⟩ :: fs⟩ ledgers := by
  refine h.advance events (fun job hj => ?_) fun i inst _ => ?_
  · rw [heldJobs_cons, List.cons_append, List.mem_cons] at hj ⊢
    rcases hj with rfl | hj
    · exact .inl hr
    · exact .inr (.inr hj)
  · rw [countP_heldJobs_cons, countP_heldJobs_cons, rendersOnly_of_foreign hc,
      rendersOnly_of_foreign hr]

private theorem Orderly.request (h : Orderly ⟨s, fs⟩ ledgers) {job : Job Action}
    (hf : foreign job = true) :
    Orderly ⟨Run.left (frameHost.request job) s, fs⟩ ledgers := by
  obtain ⟨events, hr⟩ := left_request job s
  rw [hr]
  refine h.shuffle (fun job' hj => ?_) rfl fun i inst _ => ?_
  · rw [jobs_mk, List.mem_append] at hj
    rcases hj with hj | hj
    · rcases List.mem_append.1 hj with hj | hj
      · exact .inr (List.mem_append_left _ hj)
      · rw [List.mem_singleton.1 hj]
        exact .inl hf
    · exact .inr (List.mem_append_right _ hj)
  · rw [renderJobs_mk, renderJobs_mk]
    simp [Frame.add, rendersOnly_of_foreign hf]

/-- A flush takes the jobs of the frame. -/
theorem Orderly.flush (h : Orderly m ledgers) : Orderly (scheduler.start m) ledgers := by
  obtain ⟨s, fs⟩ := m
  have hstart : scheduler.start ⟨s, fs⟩ =
      ⟨{ s with frame := .empty }, ⟨.done, s.frame.jobs, s.frame.jobs.length⟩ :: fs⟩ := rfl
  rw [hstart]
  refine h.shuffle (fun job hj => ?_) rfl fun i inst _ => ?_
  · rw [jobs_mk, heldJobs_cons] at hj
    rcases List.mem_cons.1 hj with rfl | hj
    · exact .inl rfl
    · exact .inr hj
  · rw [renderJobs_mk, renderJobs_mk, countP_heldJobs_cons]
    simp [Frame.empty, rendersOnly]

/-- The next part of a flush keeps everything in order. -/
private theorem Orderly.next {s' : Session} {fs' : List (Flushing Action)}
    (h : Orderly ⟨s, fs⟩ ledgers) (hn : Next s fs s' fs') :
    Orderly ⟨s', fs'⟩ (enter s' (deedOf s fs) ledgers) := by
  cases hn with
  | finish events =>
    refine h.advance events (fun job hj => ?_) fun i inst _ => ?_
    · rw [heldJobs_cons]
      exact .inr (List.mem_cons_of_mem _ hj)
    · rw [countP_heldJobs_cons]
      exact (Nat.zero_add _).symm
  | begin =>
    refine h.advance s.events (fun job hj => ?_) fun i inst _ => ?_
    · rw [heldJobs_cons] at hj ⊢
      exact .inr (List.mem_cons_of_mem _ hj)
    · rw [countP_heldJobs_cons, countP_heldJobs_cons, List.countP_cons]
      dsimp only
      rw [show rendersOnly i .done = false from rfl]
      split
      · simp
        omega
      · simp
  | fail events => exact h.go_on rfl rfl events
  | @act a next rest waiting n outer events hr =>
    cases a with
    | render i =>
      obtain ⟨k, he⟩ := h.current.resolve_left Bool.false_ne_true
      cases he
      obtain rfl : rest = .done := by simpa using hr
      cases hi : s.instance? i with
      | some inst =>
        have hs := h.start hi
        rw [left_perform_render hi]
        simp only [deedOf, hi, Option.isSome_some, if_pos]
        exact hs.go_on rfl rfl events
      | none =>
        rw [left_perform_dead hi]
        simp only [deedOf, hi, Option.isSome_none, Bool.false_eq_true, if_false]
        refine h.advance events (fun job hj => ?_) fun j inst hj => ?_
        · rw [heldJobs_cons, List.cons_append, List.mem_cons] at hj ⊢
          rcases hj with rfl | hj
          · exact .inl rfl
          · exact .inr (.inr hj)
        · have hne : i ≠ j := by
            rintro rfl
            cases hi.symm.trans hj
          have hother : rendersOnly j (.act (.render i) .done) = false := by simpa [rendersOnly] using hne
          rw [countP_heldJobs_cons, countP_heldJobs_cons, hother]
          rfl
    | write i x v =>
      have hf : foreign (.act (.write i x v) next) = true := h.current.resolve_right nofun
      have hrest : foreign rest = true := by
        rcases hr with rfl | rfl
        · exact hf
        · rfl
      have hw := (h.go_on hf hrest s.events).write i (.set x v)
      exact hw.go_on hrest hrest events
  | @request job next waiting n outer =>
    have hf : foreign (.request job next) = true := h.current.resolve_right nofun
    obtain ⟨hjob, hnext⟩ : foreign job = true ∧ foreign next = true := by
      simpa [foreign] using hf
    exact (h.go_on hf hnext s.events).request hjob
  | @flush next waiting n outer =>
    have hf : foreign (.flush next) = true := h.current.resolve_right nofun
    have hnext : foreign next = true := hf
    exact (h.go_on hf hnext s.events).flush

/-- Letting an instance die and changing the document move no jobs. -/
private theorem Orderly.calm_turn (h : Orderly ⟨s, fs⟩ ledgers) (hframe : t.frame = s.frame)
    (hsize : t.instances.size = s.instances.size)
    (hinst : ∀ (i : InstanceId) inst, t.instances[i]? = some inst →
      ∃ alive, s.instances[i]? = some { inst with alive } ∧ (inst.alive → alive)) :
    Orderly ⟨t, fs⟩ ledgers := by
  refine h.quiet (fun job hj => .inr ?_) hsize hinst fun i inst _ => ?_
  · rw [jobs_mk, hframe] at hj
    exact hj
  · rw [renderJobs_mk, renderJobs_mk, hframe]

/-- Every turn keeps everything in order. -/
theorem Orderly.after (h : Orderly m ledgers) {turn : Turn} (ht : after m turn = some m') :
    Orderly m' (enter m'.state (deed m turn) ledgers) := by
  obtain ⟨s, fs⟩ := m
  cases turn with
  | mount r props isPublic natives target =>
    cases ht
    exact h.mount (mount_newborn r props isPublic natives target s)
  | write i w =>
    cases ht
    exact h.write i w
  | drop i =>
    cases ht
    refine h.calm_turn rfl Array.size_modify fun j inst hj => ?_
    have hj : (s.modifyInstance i fun inst => { inst with alive := false }).instances[j]? =
      some inst := hj
    rw [getElem?_modifyInstance] at hj
    split at hj
    · obtain ⟨inst', hi, rfl⟩ := Option.map_eq_some_iff.1 hj
      exact ⟨inst'.alive, hi, nofun⟩
    · exact ⟨inst.alive, hj, id⟩
  | edit change =>
    cases ht
    have hkeep : (Run.left (edit change) s).frame = s.frame ∧
        (Run.left (edit change) s).instances = s.instances :=
      edit_keeps (P := fun t => t.frame = s.frame ∧ t.instances = s.instances) (fun _ _ h => h) s
        ⟨rfl, rfl⟩
    refine h.calm_turn hkeep.1 (by rw [hkeep.2]) fun j inst hj => ⟨inst.alive, ?_, id⟩
    rw [← hkeep.2]
    exact hj
  | request job =>
    simp only [Session.after] at ht
    split at ht
    · next hf =>
      cases ht
      exact h.request hf
    · cases ht
  | flush =>
    cases ht
    exact h.flush
  | proceed => exact h.next (proceed_next ht)

end LiveMarkup.Session
