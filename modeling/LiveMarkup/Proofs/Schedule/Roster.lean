import Mathlib.Data.List.Nodup
import LiveMarkup.Schedule.Agenda

/-! Where every job is that has been requested: it waits for a frame, or for its turn in a flush, or
it has had its turn. The books are kept by what happens to jobs alone. -/

namespace LiveMarkup

def Job.verdict {α : Type} : Job α → Option String
  | done => none
  | fail reason => some reason
  | act _ next => next.verdict
  | request _ next => next.verdict
  | flush next => next.verdict

structure Task where
  number : Nat
  job : Job String

/-- A flush: the tasks that it took when it began, those that have had their turn since, and those
that have not. -/
structure Round where
  taken : List Task
  begun : List Task
  left : List Task

/-- All tasks requested so far, where they are, those that have failed and why, how often a task has
come to an empty queue, and whether a flush has begun within another one. -/
structure Roster where
  asked : List Task
  queued : List Task
  rounds : List Round
  started : List Task
  failed : List (Task × String)
  wakes : Nat
  nested : Bool

namespace Roster

def empty : Roster := ⟨[], [], [], [], [], 0, false⟩

def held (r : Roster) : List Task := r.rounds.flatMap (·.left)

def ask (job : Job String) (r : Roster) : Roster :=
  let task : Task := ⟨r.asked.length, job⟩
  { r with
    asked := r.asked ++ [task], queued := r.queued ++ [task]
    wakes := if r.queued.isEmpty then r.wakes + 1 else r.wakes }

/-- A flush begins: it takes the tasks that wait. -/
def begin (r : Roster) : Roster :=
  { r with
    queued := [], rounds := ⟨r.queued, [], r.queued⟩ :: r.rounds
    nested := r.nested || !r.rounds.isEmpty }

def advance (r : Roster) : Roster :=
  match r.rounds with
  | ⟨taken, begun, task :: left⟩ :: outer =>
    { r with rounds := ⟨taken, begun ++ [task], left⟩ :: outer, started := r.started ++ [task] }
  | _ => r

def current? (r : Roster) : Option Task := r.rounds.head?.bind (·.begun.getLast?)

def blame (reason : String) (r : Roster) : Roster :=
  { r with failed := r.failed ++ r.current?.toList.map (·, reason) }

def close (r : Roster) : Roster := { r with rounds := r.rounds.tail }

/-- Every task is in one place, and in each place they stand in the order of the requests. A task
fails at most once, after it has started. -/
structure Fair (r : Roster) : Prop where
  numbered : r.asked.map Task.number = List.range r.asked.length
  conserved : (r.queued ++ (r.held ++ r.started)).Perm r.asked
  queued : r.queued.Pairwise fun t u => t.number < u.number
  taken : ∀ round ∈ r.rounds, round.taken = round.begun ++ round.left ∧
    round.taken.Pairwise fun t u => t.number < u.number
  begun : ∀ round ∈ r.rounds, round.begun.Sublist r.started
  apart : (r.rounds.flatMap (·.begun)).Nodup
  once : (r.failed.map (·.1)).Nodup
  blamed : ∀ p ∈ r.failed, p.1 ∈ r.started
  straight : r.nested = false → r.rounds.length ≤ 1 ∧ r.started ++ (r.held ++ r.queued) = r.asked

variable {r : Roster}

theorem empty_fair : empty.Fair := by
  constructor <;> simp [empty, held]

namespace Fair

theorem nodup (h : r.Fair) : (r.queued ++ (r.held ++ r.started)).Nodup := by
  have hnumbers : (r.asked.map Task.number).Nodup := h.numbered ▸ List.nodup_range
  exact h.conserved.nodup_iff.2 (.of_map _ hnumbers)

theorem not_started (h : r.Fair) {t : Task} (ht : t ∈ r.held) : t ∉ r.started := by
  have hn := (List.nodup_append.1 (List.nodup_append.1 h.nodup).2.1).2.2
  exact fun hs => hn t ht t hs rfl

/-- A new task has a number greater than all others. -/
private theorem lt_length (h : r.Fair) {t : Task} (ht : t ∈ r.asked) : t.number < r.asked.length := by
  have hmem : t.number ∈ r.asked.map Task.number := List.mem_map_of_mem ht
  rw [h.numbered] at hmem
  exact List.mem_range.1 hmem

theorem ask (h : r.Fair) (job : Job String) : (r.ask job).Fair where
  numbered := by
    show (r.asked ++ [_]).map Task.number = List.range (r.asked ++ [_]).length
    rw [List.map_append, List.length_append, h.numbered]
    exact List.range_succ.symm
  conserved := by
    show (r.queued ++ [_] ++ (r.held ++ r.started)).Perm (r.asked ++ [_])
    rw [List.append_assoc]
    refine List.perm_middle.trans ?_
    exact ((h.conserved.cons _).trans (List.perm_append_singleton _ _).symm)
  queued := by
    refine List.pairwise_append.2 ⟨h.queued, List.pairwise_singleton _ _, fun t ht u hu => ?_⟩
    rw [List.mem_singleton.1 hu]
    exact h.lt_length (h.conserved.subset (List.mem_append_left _ ht))
  taken := h.taken
  begun := h.begun
  apart := h.apart
  once := h.once
  blamed := h.blamed
  straight hn := by
    obtain ⟨hl, hs⟩ := h.straight hn
    refine ⟨hl, ?_⟩
    show r.started ++ (r.held ++ (r.queued ++ [_])) = r.asked ++ [_]
    rw [← hs]
    simp only [List.append_assoc]

theorem begin (h : r.Fair) : r.begin.Fair where
  numbered := h.numbered
  conserved := by
    show ([] ++ (r.queued ++ r.held ++ r.started)).Perm r.asked
    rw [List.nil_append, List.append_assoc]
    exact h.conserved
  queued := .nil
  taken round hr := by
    rcases List.mem_cons.1 hr with rfl | hr
    · exact ⟨rfl, h.queued⟩
    · exact h.taken round hr
  begun round hr := by
    rcases List.mem_cons.1 hr with rfl | hr
    · exact List.nil_sublist _
    · exact h.begun round hr
  apart := h.apart
  once := h.once
  blamed := h.blamed
  straight hn := by
    obtain ⟨hnest, hrounds⟩ : r.nested = false ∧ r.rounds = [] := by
      simpa [Roster.begin] using hn
    have hs := (h.straight hnest).2
    simp only [held, hrounds, List.flatMap_nil, List.nil_append] at hs
    simp [Roster.begin, held, hrounds, hs]

variable {taken begun left : List Task} {outer : List Round} {task : Task}

theorem advance (h : r.Fair) (hr : r.rounds = ⟨taken, begun, task :: left⟩ :: outer) :
    r.advance.Fair := by
  have hadvance : r.advance =
    { r with rounds := ⟨taken, begun ++ [task], left⟩ :: outer, started := r.started ++ [task] } := by
    rw [Roster.advance, hr]
  have hheld : r.held = task :: (left ++ outer.flatMap (·.left)) := by
    rw [held, hr]
    rfl
  have hround : (⟨taken, begun, task :: left⟩ : Round) ∈ r.rounds := hr ▸ List.mem_cons_self
  have houter : ∀ round ∈ outer, round ∈ r.rounds := fun round hm => hr ▸ List.mem_cons_of_mem _ hm
  have hnew : task ∉ r.started := h.not_started (hheld ▸ List.mem_cons_self)
  have hbegun : ∀ round ∈ r.rounds, task ∉ round.begun :=
    fun round hm ht => hnew ((h.begun round hm).subset ht)
  rw [hadvance]
  refine ⟨h.numbered, ?_, h.queued, ?_, ?_, ?_, h.once, ?_, ?_⟩
  · have hc := h.conserved
    rw [hheld] at hc
    refine .trans (.append_left _ ?_) hc
    show (left ++ outer.flatMap (·.left) ++ (r.started ++ [task])).Perm _
    rw [← List.append_assoc]
    exact List.perm_append_singleton _ _
  · intro round hm
    rcases List.mem_cons.1 hm with rfl | hm
    · obtain ⟨ht, hsorted⟩ := h.taken _ hround
      exact ⟨by rw [ht, List.append_assoc]; rfl, hsorted⟩
    · exact h.taken round (houter round hm)
  · intro round hm
    rcases List.mem_cons.1 hm with rfl | hm
    · exact (h.begun _ hround).append_right _
    · exact (h.begun round (houter round hm)).trans (List.sublist_append_left _ _)
  · have happart := h.apart
    rw [hr, List.flatMap_cons] at happart
    have hnot : task ∉ begun ++ outer.flatMap (·.begun) := by
      rw [List.mem_append, List.mem_flatMap, not_or]
      refine ⟨hbegun _ hround, ?_⟩
      rintro ⟨round, hm, ht⟩
      exact hbegun round (houter round hm) ht
    show (begun ++ [task] ++ outer.flatMap (·.begun)).Nodup
    rw [List.append_assoc]
    exact List.nodup_middle.2 (List.nodup_cons.2 ⟨hnot, happart⟩)
  · exact fun p hp => List.mem_append_left _ (h.blamed p hp)
  · intro hn
    obtain ⟨hl, hs⟩ := h.straight hn
    rw [hr] at hl
    refine ⟨hl, ?_⟩
    rw [hheld] at hs
    show r.started ++ [task] ++ (left ++ outer.flatMap (·.left) ++ r.queued) = r.asked
    rw [← hs]
    simp

theorem close (h : r.Fair) {round : Round} (hr : r.rounds = round :: outer) (hl : round.left = []) :
    r.close.Fair := by
  have hclose : r.close = { r with rounds := outer } := by rw [Roster.close, hr, List.tail_cons]
  have hheld : outer.flatMap (·.left) = r.held := by
    rw [held, hr, List.flatMap_cons, hl, List.nil_append]
  have houter : ∀ round ∈ outer, round ∈ r.rounds := fun round hm => hr ▸ List.mem_cons_of_mem _ hm
  have happart := h.apart
  rw [hr, List.flatMap_cons] at happart
  rw [hclose]
  refine ⟨h.numbered, ?_, h.queued, fun round hm => h.taken round (houter round hm),
    fun round hm => h.begun round (houter round hm), (List.nodup_append.1 happart).2.1, h.once,
    h.blamed, fun hn => ?_⟩
  · show (r.queued ++ (outer.flatMap (·.left) ++ r.started)).Perm r.asked
    exact hheld ▸ h.conserved
  · obtain ⟨hlength, hs⟩ := h.straight hn
    rw [hr, List.length_cons] at hlength
    refine ⟨Nat.le_of_succ_le hlength, ?_⟩
    show r.started ++ (outer.flatMap (·.left) ++ r.queued) = r.asked
    exact hheld ▸ hs

private theorem current_mem (h : r.Fair) (hc : r.current? = some task) : task ∈ r.started := by
  obtain ⟨round, hround, hlast⟩ := Option.bind_eq_some_iff.1 hc
  exact (h.begun round (List.mem_of_head? hround)).subset (List.mem_of_getLast? hlast)

theorem blame (h : r.Fair) (reason : String) (hc : r.current? = some task)
    (hf : task ∉ r.failed.map (·.1)) : (r.blame reason).Fair := by
  have hblame : r.blame reason = { r with failed := r.failed ++ [(task, reason)] } := by
    rw [Roster.blame, hc]
    rfl
  rw [hblame]
  refine ⟨h.numbered, h.conserved, h.queued, h.taken, h.begun, h.apart, ?_, fun p hp => ?_, h.straight⟩
  · rw [List.map_append]
    exact h.once.append (List.nodup_singleton _) (by simpa using hf)
  · rcases List.mem_append.1 hp with hp | hp
    · exact h.blamed p hp
    · rw [List.mem_singleton.1 hp]
      exact h.current_mem hc

end Fair

end Roster

end LiveMarkup
