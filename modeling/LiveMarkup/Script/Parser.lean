import LiveMarkup.Expr.Parser
import LiveMarkup.Token.Lexer

/-! Scripts: lines that declare names or are evaluated for their effect. -/

namespace LiveMarkup

inductive ScriptLine where
  | declare (x : String) (value : Option Expr)
  | run (e : Expr)

structure Script where
  lines : List ScriptLine

namespace ScriptLine

open LiveMarkup.Expr (Reads)

def read (ts : List Lexeme) : Except CompileError (Reads ScriptLine ts.length) :=
  match ts with
  | [] => .error (.endOfInput "term")
  | t :: rest =>
    if t.token.isKeyword .declare then
      match rest with
      | [] => .error (.endOfInput "declaration")
      | n :: rest =>
        match n.token with
        | .name x =>
          match rest with
          | ⟨.symbol .assign, _⟩ :: rest =>
            match Expr.read rest with
            | .error e => .error e
            | .ok ⟨e, rest', h⟩ =>
              .ok ⟨.declare x (some e), rest', by simp only [List.length_cons]; omega⟩
          | rest => .ok ⟨.declare x none, rest, by simp only [List.length_cons]; omega⟩
        | _ => .error (.misplaced n)
    else
      match Expr.read (t :: rest) with
      | .error e => .error e
      | .ok ⟨e, rest', h⟩ => .ok ⟨.run e, rest', h⟩

def isSeparator (t : Lexeme) : Bool := t.token.isSymbol .semicolon || t.token.isSymbol .newline

def readAll : List Lexeme → Except CompileError (List ScriptLine)
  | [] => .ok []
  | t :: ts =>
    if isSeparator t then readAll ts
    else
      match read (t :: ts) with
      | .error e => .error e
      | .ok ⟨line, [], _⟩ => .ok [line]
      | .ok ⟨line, next :: rest, _h⟩ =>
        if isSeparator next then
          match readAll rest with
          | .error e => .error e
          | .ok lines => .ok (line :: lines)
        else .error (.unexpected next)
termination_by ts => ts.length
decreasing_by
  · simp
  · simp only [List.length_cons] at *
    omega

end ScriptLine

namespace Script

def empty : Script := ⟨[]⟩

def compile (source : String) : Except CompileError Script :=
  match Lexer.ofScript source with
  | .error e => .error e
  | .ok ts =>
    match ScriptLine.readAll ts with
    | .error e => .error e
    | .ok lines => .ok ⟨lines⟩

end Script

end LiveMarkup
