import LiveMarkup.Eval.Expr
import LiveMarkup.Script.Parser
import LiveMarkup.Template.Basic

/-! Evaluation of templates and scripts. -/

namespace LiveMarkup

/-- A part of a template's output: markup that was copied, or a value. -/
inductive Chunk where
  | text (s : String)
  | value (v : Value)

/-- The output of a template: values, each after the markup before it, and the markup after the
last. There is always one more piece of markup than there are values. -/
structure Rendered where
  slots : List (String × Value)
  last : String

namespace Rendered

def consText (s : String) (r : Rendered) : Rendered :=
  match r.slots with
  | [] => { r with last := s ++ r.last }
  | (t, v) :: rest => { r with slots := (s ++ t, v) :: rest }

def ofChunks : List Chunk → Rendered
  | [] => ⟨[], ""⟩
  | .text s :: cs => (ofChunks cs).consText s
  | .value v :: cs => let r := ofChunks cs; { r with slots := ("", v) :: r.slots }

def segments (r : Rendered) : List String := r.slots.map (·.1) ++ [r.last]

def values (r : Rendered) : List Value := r.slots.map (·.2)

def markup (r : Rendered) : String := String.join (r.slots.map fun p => p.1 ++ p.2.markup) ++ r.last

theorem length_segments (r : Rendered) : r.segments.length = r.values.length + 1 := by
  simp [segments, values]

end Rendered

namespace Eval

variable {σ : Type}

/-- Runs a body for every element, with the element bound and, if it has a name, its position. -/
def repeatFor (item : String) (index : Option String) (body : Run (Env σ) (List Chunk)) (i : Nat) :
    List Value → Run (Env σ) (List Chunk)
  | [] => pure []
  | v :: vs => do
    let position := index.toList.map fun x => (x, Value.int (Int64.ofNat i))
    let chunks ← Env.binding (position ++ [(item, v)]) body
    let more ← repeatFor item index body (i + 1) vs
    return chunks ++ more

mutual

def statement (eval : Expr → Run (Env σ) Value) : Statement → Run (Env σ) (List Chunk)
  | .text s => pure [.text s]
  | .value e => return [.value (← eval e)]
  | .each items item index body => do
    let v ← eval items
    let vs ← Run.ofExcept v.iterate
    repeatFor item index (statements eval body) 0 vs
  | .cond branches otherwise =>
    let rest := match otherwise with
      | none => pure []
      | some body => statements eval body
    branch eval rest branches

def statements (eval : Expr → Run (Env σ) Value) : List Statement → Run (Env σ) (List Chunk)
  | [] => pure []
  | s :: ss => do
    let chunks ← statement eval s
    let more ← statements eval ss
    return chunks ++ more

/-- The output of the first branch whose test holds, or `rest` if there is none. -/
def branch (eval : Expr → Run (Env σ) Value) (rest : Run (Env σ) (List Chunk)) :
    List (Expr × List Statement) → Run (Env σ) (List Chunk)
  | [] => rest
  | (test, body) :: more => do
    let v ← eval test
    if v.truthy then statements eval body else branch eval rest more

end

def template (h : Host σ) (source : Nat) (t : Template) : Run σ Rendered := do
  let chunks ← Env.toplevel (statements (expr h depthLimit source) t.statements)
  return Rendered.ofChunks chunks

def line (h : Host σ) (source : Nat) : ScriptLine → Run σ Unit
  | .declare x none => h.declare x .null
  | .declare x (some e) => do
    let v ← value h source e
    h.declare x v
  | .run e => do
    let _ ← value h source e

def script (h : Host σ) (source : Nat) (s : Script) : Run σ Unit := s.lines.forM (line h source)

end Eval

end LiveMarkup
