import LiveMarkup.Schedule.Basic

/-! A frame by itself, with a host that takes note of what it is told. -/

namespace LiveMarkup

/-- A frame whose jobs leave notes, whether failures are reported to the host, and what the host has
been told, latest first. -/
structure Agenda where
  frame : Frame String
  reports : Bool
  events : List Event

namespace Agenda

def empty : Agenda := ⟨.empty, true, []⟩

/-- The agenda after the host has been told of an event. Failures may go unreported. -/
def tell (a : Agenda) (e : Event) : Agenda :=
  match e with
  | .reported _ => if a.reports then { a with events := e :: a.events } else a
  | e => { a with events := e :: a.events }

def scheduler : Scheduler Agenda String where
  frame := Agenda.frame
  withFrame frame a := { a with frame }
  tell e := modify fun a => a.tell e
  perform s := modify fun a => a.tell (.noted s)

end Agenda

end LiveMarkup
