import LiveMarkup.Proofs.Script.Lines
import LiveMarkup.Proofs.Token.Seam
import LiveMarkup.Proofs.Value.Joins
import Mathlib

/-! Scripts compose line by line: two scripts with a line feed between them are the script of the lines of
both, since what a script ends with is complete and the line feed is not taken for a continuation. -/

namespace LiveMarkup

open Run (AlikeBy RelatedBy)

namespace Lexer

open LiveMarkup.Expr (EndsLine depthAfter depthAfterAll)
open LiveMarkup.ScriptLine (Separated SpelledAll isSeparator_iff)

variable {ts : List Lexeme} {ls ls' : List ScriptLine} {f : Pos → Pos} {a b : String}

def Context.ofScript : Context := { depth := 0, braces := 0, first := false, last := none }

private theorem ofScript_eq (source : String) :
    ofScript source = (code .script .ofScript .start source.toList).map Code.lexemes := rfl

private theorem Context.depth_after (ctx : Context) (t : Token) :
    (ctx.after t).depth = depthAfter ctx.depth t := by
  cases t with
  | symbol s => cases s <;> rfl
  | _ => rfl

private theorem Context.last_after (ctx : Context) (t : Token) : (ctx.after t).last = some t := by
  cases t with
  | symbol s => cases s <;> rfl
  | _ => rfl

private theorem Context.depth_afterAll (ctx : Context) (ts : List Lexeme) :
    (ctx.afterAll ts).depth = depthAfterAll ctx.depth ts := by
  induction ts generalizing ctx with
  | nil => rfl
  | cons t ts ih =>
    have hall : ctx.afterAll (t :: ts) = (ctx.after t.token).afterAll ts := rfl
    rw [hall, ih, ctx.depth_after, Expr.depthAfterAll_cons]

private theorem Context.last_afterAll (ctx : Context) (ts : List Lexeme) :
    (ctx.afterAll ts).last = (ts.getLast?.map Lexeme.token).or ctx.last := by
  induction ts generalizing ctx with
  | nil => rfl
  | cons t ts ih =>
    have hall : ctx.afterAll (t :: ts) = (ctx.after t.token).afterAll ts := rfl
    rw [hall, ih, ctx.last_after]
    cases ts <;> rfl

/-- Brackets are balanced at the end of a script. -/
private theorem depth_ofScript (h : SpelledAll ls ts) : (Context.ofScript.afterAll ts).depth = 0 :=
  (Context.depth_afterAll _ ts).trans (h.balanced 0)

/-- A line feed after a line that can end separates it from what follows, which begins as a script does. -/
private theorem endsLine_of_endsLine (h : SpelledAll ls ts) (hends : EndsLine ts) :
    (Context.ofScript.afterAll ts).endsLine = true ∧
      ((Context.ofScript.afterAll ts).after (.symbol .newline)).Alike .ofScript := by
  obtain ⟨t, ht, hline⟩ := hends
  have hdepth := depth_ofScript h
  constructor
  · rw [Context.endsLine_eq, hdepth, Context.last_afterAll, Option.mem_def.1 ht]
    simp [hline]
  · exact ⟨(Context.depth_after ..).trans hdepth, rfl⟩

/-- A line feed after a separator, or where there is no token yet, adds nothing: what follows begins as
a script does. -/
private theorem not_endsLine_of_separated (h : SpelledAll ls ts) (hs : Separated ts) :
    ¬ (Context.ofScript.afterAll ts).endsLine = true ∧
      (Context.ofScript.afterAll ts).Alike .ofScript := by
  have hlast : ((Context.ofScript.afterAll ts).last.any fun t => !continuesLine t) = false := by
    rw [Context.last_afterAll]
    cases ht : ts.getLast? with
    | none => rfl
    | some t => obtain h | h := isSeparator_iff.1 (hs t ht) <;> simp [h, continuesLine]
  refine ⟨?_, depth_ofScript h, hlast⟩
  rw [Context.endsLine_eq, hlast, Bool.and_false]
  decide

/-- The tokens of two scripts with a line feed between them spell the lines of both. -/
private theorem ofScript_append {ta tb : List Lexeme} (ha : ofScript a = .ok ta)
    (hb : ofScript b = .ok tb) (hla : SpelledAll ls ta) (hlb : SpelledAll ls' tb)
    (hf : Shifts f .start (Pos.start.after (a ++ "\n").toList) b.toList) :
    ∃ ts, ofScript (a ++ "\n" ++ b) = .ok ts ∧ SpelledAll (ls ++ ls'.map (ScriptLine.move f)) ts := by
  rw [ofScript_eq] at ha hb
  obtain ⟨ra, hra, rfl⟩ := exists_of_map_eq_ok ha
  obtain ⟨rb, hrb, rfl⟩ := exists_of_map_eq_ok hb
  have htext : (a ++ "\n" ++ b).toList = a.toList ++ '\n' :: b.toList := by simp
  have hplace : Pos.start.after (a ++ "\n").toList = (Pos.start.after a.toList).next '\n' := by
    rw [String.toList_append, Pos.after_append]
    rfl
  obtain ⟨rb', hrb', hshifted⟩ := code_shift (hplace ▸ hf) hrb
  have hmoved : SpelledAll (ls'.map (ScriptLine.move f)) rb'.lexemes := hshifted.lexemes ▸ hlb.move f
  rw [ofScript_eq, htext, code_append hra]
  rcases hla.ends with hends | hseparated
  · obtain ⟨hline, halike⟩ := endsLine_of_endsLine hla hends
    refine ⟨_, ?_, hla.append (t := ⟨.symbol .newline, Pos.start.after a.toList⟩) rfl hmoved⟩
    rw [code, if_pos ⟨rfl, rfl⟩, if_pos hline, code_alike halike, hrb']
    rfl
  · obtain ⟨hline, halike⟩ := not_endsLine_of_separated hla hseparated
    refine ⟨_, ?_, hla.append_of_separated hseparated hmoved⟩
    rw [code, if_pos ⟨rfl, rfl⟩, if_neg hline, code_alike halike, hrb']
    rfl

end Lexer

namespace Script

open ScriptLine (readAll readAll_eq_ok_iff SpelledAll)

variable {σ τ : Type} {a b : String} {sa sb : Script} {ρ : Relocation} {source other : Nat} {f : Pos → Pos}

theorem compile_eq_ok_iff {s : Script} :
    compile a = .ok s ↔ ∃ ts, Lexer.ofScript a = .ok ts ∧ SpelledAll s.lines ts := by
  unfold compile
  cases Lexer.ofScript a with
  | error e => simp
  | ok ts =>
    simp only [← readAll_eq_ok_iff]
    cases h : readAll ts with
    | error e => simp [h]
    | ok ls =>
      obtain ⟨ls'⟩ := s
      simp [h]

/-- Two scripts with a line feed between them compile to the lines of both, those of the second at their
new places. -/
private theorem compile_lines (ha : compile a = .ok sa) (hb : compile b = .ok sb)
    (hf : Lexer.Shifts f .start (Pos.start.after (a ++ "\n").toList) b.toList) :
    compile (a ++ "\n" ++ b) = .ok ⟨sa.lines ++ sb.lines.map (ScriptLine.move f)⟩ := by
  obtain ⟨ta, hta, hla⟩ := compile_eq_ok_iff.1 ha
  obtain ⟨tb, htb, hlb⟩ := compile_eq_ok_iff.1 hb
  exact compile_eq_ok_iff.2 (Lexer.ofScript_append hta htb hla hlb hf)

/-- The arrows of a script that is the first part of a text stay where they are. -/
private theorem move_of_joins (hρ : ρ.Joins source other (a ++ "\n").toList)
    (ha : compile a = .ok sa) :
    sa.lines.map (ScriptLine.move (ρ.place source)) = sa.lines := by
  obtain ⟨ts, hts, hls⟩ := compile_eq_ok_iff.1 ha
  have hshifts : Lexer.Shifts (ρ.place source) .start .start (a.toList ++ ['\n']) := by
    have hwithin := hρ.within
    rwa [String.toList_append] at hwithin
  rw [Lexer.ofScript_eq] at hts
  obtain ⟨r, hr, rfl⟩ := Lexer.exists_of_map_eq_ok hts
  obtain ⟨r', hr', hshifted⟩ := Lexer.code_shift hshifts.take hr
  cases hr.symm.trans hr'
  have hmoved := hls.move (ρ.place source)
  rw [← hshifted.lexemes, ← readAll_eq_ok_iff, readAll_eq_ok_iff.2 hls] at hmoved
  exact (Except.ok.inj hmoved).symm

private theorem lines_seam {E : Scope → Scope → Prop} {R : σ → τ → Prop} {h : Host σ} {k : Host τ}
    (hk : Host.Follows ρ E R h k) (hρ : ρ.Joins source other (a ++ "\n").toList) (ha : compile a = .ok sa)
    (sb : Script) :
    RelatedBy id R
      (Eval.script h source ⟨sa.lines ++ sb.lines.map (ScriptLine.move (ρ.place other))⟩)
      (do
        Eval.script k source sa
        Eval.script k other sb) := by
  have hone := Eval.lines_follow hk source sa.lines
  have htwo := Eval.lines_follow hk other sb.lines
  rw [hρ.first, move_of_joins hρ ha] at hone
  rw [hρ.second] at htwo
  rw [Eval.script, List.forM_eq_forM, List.forM_append]
  exact .bind hone fun _ => htwo

/-- Two scripts with a line feed between them make one, of the lines of the first and then those of the
second. In every host its run goes together with the runs of both, one after the other; in particular in
every scope with listeners. The functions of the two sources become those of the one, and a scope that
holds none of them stays as it is. -/
theorem scripts_compose (ha : compile a = .ok sa) (hb : compile b = .ok sb) :
    ∃ s, compile (a ++ "\n" ++ b) = .ok s ∧
      s.lines = sa.lines ++
        sb.lines.map (ScriptLine.move (Pos.behind (Pos.start.after (a ++ "\n").toList))) ∧
      ∀ {source other : Nat}, source ≠ other →
        ∃ ρ : Relocation, ρ.Joins source other (a ++ "\n").toList ∧
          (∀ s₀ : Observed, source ∉ s₀.scope.sources → other ∉ s₀.scope.sources → s₀.relocate ρ = s₀) ∧
          (∀ {σ τ : Type} {E : Scope → Scope → Prop} {R : σ → τ → Prop} {h : Host σ} {k : Host τ},
            Host.Follows ρ E R h k → RelatedBy id R (Eval.script h source s) (do
              Eval.script k source sa
              Eval.script k other sb)) ∧
          ∀ (listeners : List Listener) (depth : Nat) (s₀ : Observed),
            AlikeBy id (fun s t => s = t.relocate ρ)
              (Eval.script (Observed.host listeners depth) source s (s₀.relocate ρ))
              ((do
                Eval.script (Observed.host listeners depth) source sa
                Eval.script (Observed.host listeners depth) other sb) s₀) := by
  have hbehind : Lexer.Shifts (Pos.behind (Pos.start.after (a ++ "\n").toList)) .start
      (Pos.start.after (a ++ "\n").toList) b.toList := fun w _ _ _ => Pos.behind_after Pos.real_start w
  have hwhole := compile_lines ha hb hbehind
  refine ⟨_, hwhole, rfl, fun {source other} hne => ?_⟩
  obtain ⟨ρ, hρ⟩ := Relocation.exists_joins hne (a ++ "\n").toList
  have hseam := compile_lines ha hb (f := ρ.place other)
    fun w w' _ _ => (hρ.behind w).trans (Pos.after_append ..)
  rw [Except.ok.inj (hwhole.symm.trans hseam)]
  refine ⟨ρ, hρ, fun s hs ho => s.relocate_eq_self (hρ.fixes hs ho),
    fun hk => lines_seam hk hρ ha sb, fun listeners depth s => ?_⟩
  exact lines_seam (Observed.host_follows ρ listeners depth) hρ ha sb _ s rfl

def making : String := "f = x => x // ++"

def applying : String := "(y => y)(f)"

private theorem compile_making : compile making =
    .ok ⟨[.run (.assign "f" none (.lambda ⟨1, 7⟩ ["x"] (.name "x")))]⟩ := by
  cbv

private theorem compile_applying : compile applying =
    .ok ⟨[.run (.call (.lambda ⟨1, 4⟩ ["y"] (.name "y")) [.name "f"])]⟩ := by
  cbv

theorem scripts_compose_making_applying :
    compile making = .ok ⟨[.run (.assign "f" none (.lambda ⟨1, 7⟩ ["x"] (.name "x")))]⟩ ∧
      compile applying = .ok ⟨[.run (.call (.lambda ⟨1, 4⟩ ["y"] (.name "y")) [.name "f"])]⟩ ∧
      ∃ s, compile "f = x => x // ++\n(y => y)(f)" = .ok s ∧
        s.lines = [.run (.assign "f" none (.lambda ⟨1, 7⟩ ["x"] (.name "x"))),
          .run (.call (.lambda ⟨2, 4⟩ ["y"] (.name "y")) [.name "f"])] ∧
        ∃ ρ : Relocation, ρ.Joins 0 1 (making ++ "\n").toList ∧
          AlikeBy id (fun s t => s = t.relocate ρ)
            (Eval.script (Observed.host [] 1) 0 s (Observed.ofProps []))
            ((do
              Eval.script (Observed.host [] 1) 0
                ⟨[.run (.assign "f" none (.lambda ⟨1, 7⟩ ["x"] (.name "x")))]⟩
              Eval.script (Observed.host [] 1) 1
                ⟨[.run (.call (.lambda ⟨1, 4⟩ ["y"] (.name "y")) [.name "f"])]⟩)
              (Observed.ofProps [])) := by
  obtain ⟨s, hs, hlines, hruns⟩ := scripts_compose compile_making compile_applying
  obtain ⟨ρ, hρ, hfixed, -, hrun⟩ := hruns Nat.zero_ne_one
  have hstart : (Observed.ofProps []).relocate ρ = Observed.ofProps [] := hfixed _ nofun nofun
  refine ⟨compile_making, compile_applying, s, hs, hlines.trans ?_, ρ, hρ,
    hstart ▸ hrun [] 1 (Observed.ofProps [])⟩
  have hseam : Pos.start.after (making ++ "\n").toList = ⟨2, 1⟩ := by cbv
  rw [hseam]
  rfl

end Script

end LiveMarkup
