import LiveMarkup.Proofs.Template.Joined
import LiveMarkup.Proofs.Token.Seam
import LiveMarkup.Proofs.Value.Joins
import Mathlib

/-! Templates compose: the text of two templates one after the other is a template, and its output is
that of the first joined with that of the second, which is evaluated in the scope that the first has
left. The functions that it makes are those of both, at their places in the whole. -/

namespace LiveMarkup

open Run (AlikeBy RelatedBy)

namespace Rendered

variable {r r' r'' : Rendered}

/-- An output after another one, the markup at the end of the first being glued to that at the
beginning of the second. -/
def append (r r' : Rendered) : Rendered :=
  let glued := r'.consText r.last
  ⟨r.slots ++ glued.slots, glued.last⟩

private theorem consText_append (s : String) :
    (r.append r').consText s = (r.consText s).append r' := by
  obtain ⟨slots, last⟩ := r
  obtain ⟨slots', last'⟩ := r'
  cases slots <;> cases slots' <;> simp [append, consText, String.append_assoc]

private theorem consText_empty (r : Rendered) : r.consText "" = r := by
  obtain ⟨slots, last⟩ := r
  cases slots <;> simp [consText]

private theorem consText_consText (s t : String) (r : Rendered) :
    (r.consText t).consText s = r.consText (s ++ t) := by
  obtain ⟨slots, last⟩ := r
  cases slots <;> simp [consText, String.append_assoc]

private theorem ofChunks_append (cs ds : List Chunk) :
    ofChunks (cs ++ ds) = (ofChunks cs).append (ofChunks ds) := by
  induction cs with
  | nil => exact (consText_empty _).symm
  | cons c cs ih =>
    cases c with
    | text s => rw [List.cons_append, ofChunks, ih, consText_append, ofChunks]
    | value v =>
      rw [List.cons_append, ofChunks, ih, ofChunks]
      rfl

/-- The values are those of the first output, then those of the second. -/
private theorem values_append (r r' : Rendered) : (r.append r').values = r.values ++ r'.values := by
  obtain ⟨slots, last⟩ := r'
  cases slots <;> simp [append, consText, values]

/-- The last piece of the first output and the first piece of the second have become one. -/
private theorem segments_append (r r' : Rendered) : ∃ before last first after,
    r.segments = before ++ [last] ∧ r'.segments = first :: after ∧
      (r.append r').segments = before ++ (last ++ first) :: after := by
  obtain ⟨slots, last⟩ := r'
  refine ⟨r.slots.map (·.1), r.last, ?_⟩
  cases slots <;> simp [append, consText, segments]

/-- The markup is that of both. -/
private theorem markup_append (r r' : Rendered) : (r.append r').markup = r.markup ++ r'.markup := by
  obtain ⟨slots, last⟩ := r'
  cases slots <;> simp [append, consText, markup, String.join_append, String.append_assoc]

/-- The whole output has the values and the markup of the one output and then of the other, and their
pieces of markup with the last piece of the one and the first of the other made one. There is one more
piece than there are values. -/
structure IsJoin (r r' whole : Rendered) : Prop where
  values : whole.values = r.values ++ r'.values
  segments : ∃ before last first after, r.segments = before ++ [last] ∧ r'.segments = first :: after ∧
    whole.segments = before ++ (last ++ first) :: after
  count : whole.segments.length = whole.values.length + 1
  markup : whole.markup = r.markup ++ r'.markup

private theorem append_isJoin (r r' : Rendered) : IsJoin r r' (r.append r') :=
  ⟨values_append r r', segments_append r r', length_segments _, markup_append r r'⟩

end Rendered

def Chunk.ofText (cs : List Char) : List Chunk := if cs.isEmpty then [] else [.text (String.ofList cs)]

private theorem Chunk.relocate_ofText (ρ : Relocation) (cs : List Char) :
    (Chunk.ofText cs).map (Chunk.relocate ρ) = Chunk.ofText cs := by
  cases cs <;> rfl

namespace Rendered

theorem ofChunks_ofText_append (cs : List Char) (ks : List Chunk) :
    ofChunks (Chunk.ofText cs ++ ks) = (ofChunks ks).consText (String.ofList cs) := by
  cases cs with
  | nil => exact (consText_empty _).symm
  | cons c cs => rfl

/-- A text that is cut in two comes out as one piece of markup again. -/
private theorem ofChunks_seam (ks ls : List Chunk) (cs ds : List Char) :
    ofChunks (ks ++ (Chunk.ofText (cs ++ ds) ++ ls)) =
      (ofChunks (ks ++ Chunk.ofText cs)).append (ofChunks (Chunk.ofText ds ++ ls)) := by
  rw [← ofChunks_append, List.append_assoc, ofChunks_append, ofChunks_append ks, ofChunks_ofText_append,
    ofChunks_ofText_append, ofChunks_ofText_append, consText_consText, String.ofList_append]

end Rendered

variable {σ τ α β : Type}

/-- A result that is made of another one can be made outside. -/
private theorem Env.toplevel_bind_pure (m : Run (Env σ) α) (f : α → β) :
    toplevel (m >>= fun a => pure (f a)) = toplevel m >>= fun a => pure (f a) := by
  funext s
  cases hm : m ⟨[], s⟩ with
  | ok a env =>
    have htop : toplevel m s = .ok a env.outer := by rw [toplevel, hm]
    rw [Run.bind_of_ok htop, toplevel, Run.bind_of_ok hm]
    rfl
  | error e env =>
    have htop : toplevel m s = .error e env.outer := by rw [toplevel, hm]
    rw [Run.bind_of_error htop, toplevel, Run.bind_of_error hm]

namespace Eval

open Env (toplevel_bind_pure)
open Statement (moveBody)

variable {eval : Expr → Run (Env σ) Value}

theorem statements_append (ss ss' : List Statement) :
    statements eval (ss ++ ss') = (do
      let chunks ← statements eval ss
      let more ← statements eval ss'
      return chunks ++ more) := by
  induction ss with
  | nil => simp only [List.nil_append, statements, pure_bind, bind_pure]
  | cons s ss ih =>
    simp only [List.cons_append, statements, ih, bind_assoc, pure_bind, List.append_assoc]

theorem statements_ofText (cs : List Char) :
    statements eval (Statement.ofText cs) = pure (Chunk.ofText cs) := by
  cases cs with
  | nil => rfl
  | cons c cs => simp [Statement.ofText, Chunk.ofText, statements, statement]

variable {ρ : Relocation} {E : Scope → Scope → Prop} {R : σ → τ → Prop} {h : Host σ} {k : Host τ}

/-- The output of a template that ends in a text is made of what comes before the text. -/
theorem template_append_ofText (source : Nat) (ss : List Statement) (cs : List Char) :
    template k source ⟨ss ++ Statement.ofText cs⟩ = (do
      let chunks ← Env.toplevel (statements (expr k depthLimit source) ss)
      return Rendered.ofChunks (chunks ++ Chunk.ofText cs)) := by
  simp only [template, statements_append, statements_ofText, pure_bind, toplevel_bind_pure, bind_assoc]

/-- The output of a template that begins with a text is made of what comes behind the text. -/
private theorem template_ofText_append (source : Nat) (cs : List Char) (ss : List Statement) :
    template k source ⟨Statement.ofText cs ++ ss⟩ = (do
      let chunks ← Env.toplevel (statements (expr k depthLimit source) ss)
      return Rendered.ofChunks (Chunk.ofText cs ++ chunks)) := by
  simp only [template, statements_append, statements_ofText, pure_bind, toplevel_bind_pure, bind_assoc]

/-- Two templates one after the other, the second in the scope that the first has left, with their
outputs joined. -/
def inTurn (h : Host σ) (source other : Nat) (t t' : Template) : Run σ Rendered := do
  let r ← template h source t
  let r' ← template h other t'
  return r.append r'

/-- Statements before a text that is cut in two, and others behind it, put out together what they put
out one after the other with a half of the text each. -/
private theorem template_seam (hk : Host.Follows ρ E R h k) {source other : Nat}
    (hs : ρ.source source = source) (ho : ρ.source other = source) {first : List Statement}
    (hfirst : moveBody (ρ.place source) first = first) (cs ds : List Char) (last : List Statement) :
    RelatedBy (Rendered.relocate ρ) R
      (template h source ⟨first ++ (Statement.ofText (cs ++ ds) ++ moveBody (ρ.place other) last)⟩)
      (inTurn k source other ⟨first ++ Statement.ofText cs⟩ ⟨Statement.ofText ds ++ last⟩) := by
  have hone := body_follows hk source first 0
  have htwo := body_follows hk other last 0
  rw [hs, hfirst] at hone
  rw [ho] at htwo
  have hwhole : template h source
      ⟨first ++ (Statement.ofText (cs ++ ds) ++ moveBody (ρ.place other) last)⟩ = Env.toplevel (do
        let ks ← statements (expr h depthLimit source) first
        let ls ← statements (expr h depthLimit source) (moveBody (ρ.place other) last)
        return Rendered.ofChunks (ks ++ (Chunk.ofText (cs ++ ds) ++ ls))) := by
    rw [template, ← toplevel_bind_pure]
    simp only [statements_append, statements_ofText, pure_bind, bind_assoc]
  rw [hwhole, inTurn, template_append_ofText, template_ofText_append]
  simp only [bind_assoc, pure_bind, ← Rendered.ofChunks_seam]
  refine Env.toplevel_bind_follows hone fun ks => ?_
  rw [toplevel_bind_pure]
  refine .bind (Env.toplevel_follows htwo) fun ls => .pure_of ?_
  rw [← Rendered.ofChunks_relocate]
  simp only [List.map_append, Chunk.relocate_ofText]

end Eval

namespace Template

open Statement (moveBody)

variable {a b : String} {ta tb : Template} {ρ : Relocation} {source other : Nat}

theorem compile_eq_ok_iff {t : Template} :
    compile a = .ok t ↔ ∃ ts, Lexer.ofTemplate a = .ok ts ∧ ofLexemes ts = .ok t := by
  unfold compile
  cases Lexer.ofTemplate a <;> simp

/-- The arrows of the first of two joined sources stay where they are. -/
private theorem moveBody_of_joins (hρ : ρ.Joins source other a.toList) (ha : compile a = .ok ta) :
    moveBody (ρ.place source) ta.statements = ta.statements := by
  obtain ⟨ts, hts, hta⟩ := compile_eq_ok_iff.1 ha
  have hmoved := Lexer.template_shift hρ.within hts
  have hts' : ts.map (Lexeme.move (ρ.place source)) = ts := Except.ok.inj (hmoved.symm.trans hts)
  have hta' := ofLexemes_move (ρ.place source) hta
  rw [hts', hta] at hta'
  exact (congrArg statements (Except.ok.inj hta')).symm

/-- What two sources compile to, and what both together do: up to the text that the seam cuts in two the
statements are those of the first source, and behind it those of the second, at their new places. -/
theorem compile_seam (hρ : ρ.Joins source other a.toList) (ha : compile a = .ok ta)
    (hb : compile b = .ok tb) (hab : Lexer.Seamless a.toList b.toList) :
    ∃ first last cs ds, ta = ⟨first ++ Statement.ofText cs⟩ ∧ tb = ⟨Statement.ofText ds ++ last⟩ ∧
      compile (a ++ b) =
        .ok ⟨first ++ (Statement.ofText (cs ++ ds) ++ moveBody (ρ.place other) last)⟩ := by
  obtain ⟨tsa, htsa, hta⟩ := compile_eq_ok_iff.1 ha
  obtain ⟨tsb, htsb, htb⟩ := compile_eq_ok_iff.1 hb
  have hshifts : Lexer.Shifts (ρ.place other) .start (Pos.start.after a.toList) b.toList :=
    fun w w' _ _ => (hρ.behind w).trans (Pos.after_append ..)
  obtain ⟨before, cs, ds, after, p, q, rfl, rfl, hjoint⟩ := Lexer.template_append htsa htsb hab hshifts
  obtain ⟨first, last, hfirst, hlast, hwhole⟩ := ofLexemes_join (ρ.place other) hta htb
  refine ⟨first, last, cs, ds, congrArg mk hfirst, congrArg mk hlast,
    compile_eq_ok_iff.2 ⟨_, ?_, hwhole⟩⟩
  rw [Lexer.ofTemplate, String.toList_append]
  exact hjoint

/-- Two templates make one, unless braces that open a tag stand across the seam. In every host its run
goes together with the runs of both, one after the other with their outputs joined; in particular in
every scope with listeners. The functions of the two sources become those of the one, and a scope that
holds none of them stays as it is. -/
theorem templates_compose (ha : compile a = .ok ta) (hb : compile b = .ok tb)
    (hab : Lexer.Seamless a.toList b.toList) :
    ∃ t, compile (a ++ b) = .ok t ∧ (∀ r r' : Rendered, Rendered.IsJoin r r' (r.append r')) ∧
      ∀ {source other : Nat}, source ≠ other → ∃ ρ : Relocation, ρ.Joins source other a.toList ∧
        (∀ s : Observed, source ∉ s.scope.sources → other ∉ s.scope.sources → s.relocate ρ = s) ∧
        (∀ {σ τ : Type} {E : Scope → Scope → Prop} {R : σ → τ → Prop} {h : Host σ} {k : Host τ},
          Host.Follows ρ E R h k → RelatedBy (Rendered.relocate ρ) R (Eval.template h source t)
            (Eval.inTurn k source other ta tb)) ∧
        ∀ (listeners : List Listener) (depth : Nat) (s : Observed),
          AlikeBy (Rendered.relocate ρ) (fun s t => s = t.relocate ρ)
            (Eval.template (Observed.host listeners depth) source t (s.relocate ρ))
            (Eval.inTurn (Observed.host listeners depth) source other ta tb s) := by
  obtain ⟨ρ₀, hρ₀⟩ := Relocation.exists_joins Nat.zero_ne_one a.toList
  obtain ⟨first₀, last₀, cs₀, ds₀, -, -, hwhole₀⟩ := compile_seam hρ₀ ha hb hab
  refine ⟨_, hwhole₀, Rendered.append_isJoin, fun {source other} hne => ?_⟩
  obtain ⟨ρ, hρ⟩ := Relocation.exists_joins hne a.toList
  obtain ⟨first, last, cs, ds, rfl, rfl, hwhole⟩ := compile_seam hρ ha hb hab
  have hfirst : moveBody (ρ.place source) first = first := by
    have hall := moveBody_of_joins hρ ha
    rw [Statement.moveBody_eq_map, List.map_append] at hall
    rw [Statement.moveBody_eq_map]
    exact List.append_inj_left hall (List.length_map _)
  rw [Except.ok.inj (hwhole₀.symm.trans hwhole)]
  refine ⟨ρ, hρ, fun s hs ho => s.relocate_eq_self (hρ.fixes hs ho),
    fun hk => Eval.template_seam hk hρ.first hρ.second hfirst cs ds last, ?_⟩
  intro listeners depth s
  exact Eval.template_seam (Observed.host_follows ρ listeners depth) hρ.first hρ.second hfirst cs ds last
    _ s rfl

def making : String := "\x7b\x7bf=x=>x\x7d\x7dis "

def calling : String := "it \x7b\x7bf(true)\x7d\x7d"

private theorem compile_making : compile making =
    .ok ⟨[.value (.assign "f" none (.lambda ⟨1, 6⟩ ["x"] (.name "x"))), .text "is "]⟩ := by
  have htag : Lexer.tag ⟨1, 1⟩ ⟨1, 3⟩ "f=x=>x\x7d\x7dis ".toList = .ok ([⟨.name "f", ⟨1, 3⟩⟩,
      ⟨.symbol .assign, ⟨1, 4⟩⟩, ⟨.name "x", ⟨1, 5⟩⟩, ⟨.symbol .arrow, ⟨1, 6⟩⟩, ⟨.name "x", ⟨1, 8⟩⟩,
      ⟨.symbol .closeTag, ⟨1, 9⟩⟩], ⟨1, 11⟩, "is ".toList) := by cbv
  refine compile_eq_ok_iff.2 ⟨_, Lexer.template_tag .start rfl htag (Lexer.template_of_text rfl _), ?_⟩
  cbv

private theorem compile_calling : compile calling =
    .ok ⟨[.text "it ", .value (.call (.name "f") [.literal (.bool true)])]⟩ := by
  have htag : Lexer.tag ⟨1, 4⟩ ⟨1, 6⟩ "f(true)\x7d\x7d".toList = .ok ([⟨.name "f", ⟨1, 6⟩⟩,
      ⟨.symbol .openRound, ⟨1, 7⟩⟩, ⟨.literal (.bool true), ⟨1, 8⟩⟩, ⟨.symbol .closeRound, ⟨1, 12⟩⟩,
      ⟨.symbol .closeTag, ⟨1, 13⟩⟩], ⟨1, 15⟩, []) := by cbv
  have hcut : Text.cut? ['\x7b', '\x7b'] calling.toList =
      some ("it ".toList, "f(true)\x7d\x7d".toList) := rfl
  refine compile_eq_ok_iff.2 ⟨_, Lexer.template_tag .start hcut htag (Lexer.template_nil _), ?_⟩
  cbv

theorem templates_compose_making_calling :
    compile making = .ok ⟨[.value (.assign "f" none (.lambda ⟨1, 6⟩ ["x"] (.name "x"))), .text "is "]⟩ ∧
      compile calling = .ok ⟨[.text "it ", .value (.call (.name "f") [.literal (.bool true)])]⟩ ∧
      ∃ t, compile "\x7b\x7bf=x=>x\x7d\x7dis it \x7b\x7bf(true)\x7d\x7d" = .ok t ∧
        ∃ ρ : Relocation, ρ.Joins 0 1 making.toList ∧
          AlikeBy (Rendered.relocate ρ) (fun s t => s = t.relocate ρ)
            (Eval.template (Observed.host [] 1) 0 t (Observed.ofProps []))
            (Eval.inTurn (Observed.host [] 1) 0 1
              ⟨[.value (.assign "f" none (.lambda ⟨1, 6⟩ ["x"] (.name "x"))), .text "is "]⟩
              ⟨[.text "it ", .value (.call (.name "f") [.literal (.bool true)])]⟩
              (Observed.ofProps [])) := by
  obtain ⟨t, ht, -, hruns⟩ := templates_compose compile_making compile_calling nofun
  obtain ⟨ρ, hρ, hfixed, -, hrun⟩ := hruns Nat.zero_ne_one
  have hstart : (Observed.ofProps []).relocate ρ = Observed.ofProps [] := hfixed _ nofun nofun
  exact ⟨compile_making, compile_calling, t, ht, ρ, hρ, hstart ▸ hrun [] 1 (Observed.ofProps [])⟩

end Template

end LiveMarkup
