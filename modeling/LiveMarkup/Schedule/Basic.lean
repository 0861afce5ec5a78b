import LiveMarkup.Eval.Basic

/-! Work for the next frame. Jobs wait until the host is ready to paint and flushes them; what they
request meanwhile waits for a later flush. -/

namespace LiveMarkup

/-- A job of a frame: its actions in order, each of which may fail, which ends the job. -/
inductive Job (α : Type) where
  | done
  | fail (reason : String)
  | act (a : α) (next : Job α)
  | request (t : Job α) (next : Job α)
  | flush (next : Job α)
  deriving Inhabited

def Job.rank {α : Type} : Job α → Nat
  | done => 0
  | fail _ => 0
  | act _ next => next.rank
  | request t next => max (t.rank + 1) next.rank
  | flush next => next.rank

/-- The jobs that wait, first requested first, and whether the host has been asked for a frame. -/
structure Frame (α : Type) where
  jobs : List (Job α)
  requested : Bool

namespace Frame

variable {α : Type}

def empty : Frame α := ⟨[], false⟩

def add (f : Frame α) (t : Job α) : Frame α := ⟨f.jobs ++ [t], true⟩

def rank (f : Frame α) : Nat := (f.jobs.map Job.rank).foldl max 0

end Frame

inductive Event where
  /-- The first job of a frame is waiting. -/
  | frameRequested
  /-- A job failed. -/
  | reported (e : EvalError)
  /-- A job leaves a note. -/
  | noted (s : String)
  /-- A job flushed the frame. -/
  | flushed (count : Nat)
  /-- A native function reports its arguments. -/
  | values (vs : List Value)

/-- Where a frame lies in a state, and how its host is told of events. -/
structure FrameHost (σ α : Type) where
  frame : σ → Frame α
  withFrame : Frame α → σ → σ
  tell : Event → Run σ Unit

/-- Makes a job wait for the next frame. The host is told if it is the first. -/
def FrameHost.request {σ α : Type} (s : FrameHost σ α) (t : Job α) : Run σ Unit := do
  let f := s.frame (← get)
  modify (s.withFrame (f.add t))
  if !f.requested then s.tell .frameRequested

structure Scheduler (σ α : Type) extends FrameHost σ α where
  perform : α → Run σ Unit

namespace Scheduler

variable {σ α : Type}

def runJob (s : Scheduler σ α) (flush : Run σ Nat) : Job α → Run σ Unit
  | .done => pure ()
  | .fail reason => Run.fail (.failed reason)
  | .act a next => do
    s.perform a
    runJob s flush next
  | .request t next => do
    s.request t
    runJob s flush next
  | .flush next => do
    let n ← flush
    s.tell (.flushed n)
    runJob s flush next

/-- Runs a job. Its error goes to the host. -/
def attempt (s : Scheduler σ α) (flush : Run σ Nat) (t : Job α) : Run σ Unit :=
  tryCatch (s.runJob flush t) fun e => match e with
    | .error e => s.tell (.reported e)
    | .fault f => throw (.fault f)

/-- Runs the jobs that wait, flushes nesting at most `depth` deep, and counts them. -/
def flushTo (s : Scheduler σ α) : Nat → Run σ Nat
  | 0 => throw (.fault .outOfFuel)
  | depth + 1 => do
    let jobs := (s.frame (← get)).jobs
    modify (s.withFrame .empty)
    jobs.forM (s.attempt (flushTo s depth))
    return jobs.length

/-- Runs the jobs that wait and counts them. Jobs that they request are left for a later flush,
which may be one that a job makes. -/
def flush (s : Scheduler σ α) : Run σ Nat := do
  s.flushTo ((s.frame (← get)).rank + 2)

end Scheduler

end LiveMarkup
