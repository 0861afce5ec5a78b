import LiveMarkup.Proofs.Template.Compose

/-! Templates in which texts and values alternate: what their sources compile to, and what they put
out. -/

namespace LiveMarkup

variable {σ ι : Type} {e e' : ι → Expr} {segments : List (List Char × ι)} {last : List Char}

namespace Statement

def value? : Statement → Option Expr
  | value e => some e
  | text _ | each .. | cond .. => none

def tagged (e : ι → Expr) (segments : List (List Char × ι)) : List Statement :=
  segments.flatMap fun s => ofText s.1 ++ [value (e s.2)]

private theorem tagged_congr (h : ∀ s ∈ segments, e s.2 = e' s.2) :
    tagged e segments = tagged e' segments :=
  List.flatMap_congr fun s hs => by rw [h s hs]

private theorem tagged_cons (e : ι → Expr) (s : List Char × ι) (segments : List (List Char × ι)) :
    tagged e (s :: segments) = ofText s.1 ++ ([value (e s.2)] ++ tagged e segments) := by
  rw [tagged, List.flatMap_cons, List.append_assoc, tagged]

private theorem tagged_concat (e : ι → Expr) (segments : List (List Char × ι)) (s : List Char × ι) :
    tagged e (segments ++ [s]) = tagged e segments ++ (ofText s.1 ++ [value (e s.2)]) := by
  rw [tagged, List.flatMap_append, List.flatMap_singleton, tagged]

private theorem value?_of_mem_ofText {cs : List Char} {s : Statement} (h : s ∈ ofText cs) :
    s.value? = none := by
  cases cs with
  | nil => cases h
  | cons c cs =>
    obtain rfl := List.mem_singleton.1 h
    rfl

theorem filterMap_ofText (cs : List Char) : (ofText cs).filterMap value? = [] :=
  List.filterMap_eq_nil_iff.2 fun _ => value?_of_mem_ofText

theorem filterMap_tagged (e : ι → Expr) (segments : List (List Char × ι)) :
    (tagged e segments).filterMap value? = segments.map fun s => e s.2 := by
  induction segments with
  | nil => rfl
  | cons s segments ih =>
    rw [tagged_cons, List.filterMap_append, List.filterMap_append, filterMap_ofText, ih]
    rfl

private theorem moveBody_append (f : Pos → Pos) (a b : List Statement) :
    moveBody f (a ++ b) = moveBody f a ++ moveBody f b := by
  simp only [moveBody_eq_map, List.map_append]

private theorem moveBody_ofText (f : Pos → Pos) (cs : List Char) :
    moveBody f (ofText cs) = ofText cs := by
  cases cs <;> rfl

end Statement

namespace Template

open Statement

variable {a b : String} {ta tb : Template} {cs : List Char} {expr : ι → String}

/-- The expressions whose values are put into the markup, whatever they are. -/
def values (t : Template) : List Expr := t.statements.filterMap value?

def tag (expr : String) : String := "\x7b\x7b" ++ expr ++ "\x7d\x7d"

private theorem compile_text (h : ¬ ['\x7b', '\x7b'] <:+: cs) :
    compile (String.ofList cs) = .ok ⟨ofText cs⟩ := by
  refine compile_eq_ok_iff.2 ⟨Lexer.textLexemes .start cs, ?_,
    ofLexemes_of_pieces (Piece.spelledAll_ofText .start cs) (generates_ofText cs)⟩
  rw [Lexer.ofTemplate, String.toList_ofList, Lexer.template_of_text (Text.cut?_eq_none h)]

/-- If no text is cut in two, the statements of two sources are those of the one and, at their new
places, those of the other. -/
private theorem compile_append (ha : compile a = .ok ta) (hb : compile b = .ok tb)
    (hab : Lexer.Seamless a.toList b.toList)
    (h : (∀ s, ta.statements.getLast? ≠ some (.text s)) ∨ ∀ s, tb.statements.head? ≠ some (.text s)) :
    ∃ f, compile (a ++ b) = .ok ⟨ta.statements ++ moveBody f tb.statements⟩ := by
  obtain ⟨ρ, hρ⟩ := Relocation.exists_joins Nat.zero_ne_one a.toList
  obtain ⟨first, last, cs, ds, rfl, rfl, hwhole⟩ := compile_seam hρ ha hb hab
  refine ⟨ρ.place 1, hwhole.trans ?_⟩
  have htext : ofText (cs ++ ds) = ofText cs ++ ofText ds := by
    rcases h with h | h
    · cases cs with
      | nil => rfl
      | cons c cs => exact absurd List.getLast?_concat (h _)
    · cases ds with
      | nil => rw [List.append_nil, ofText, ofText, List.isEmpty_nil, if_pos rfl, List.append_nil]
      | cons d ds => exact absurd rfl (h _)
  simp only [htext, moveBody_append, moveBody_ofText, List.append_assoc]

/-- Where a tag is to follow or has gone before, no braces stand across the seam. -/
private theorem seamless_of_getLast? (h : ∀ c ∈ a.toList.getLast?, c ≠ '\x7b') (b : String) :
    Lexer.Seamless a.toList b.toList := fun hab => h _ hab.1 rfl

private theorem getLast?_tag (expr : String) : (tag expr).toList.getLast? = some '\x7d' := by
  rw [tag, String.toList_append, List.getLast?_append]
  rfl

private theorem getLast?_tagged (e : ι → Expr) (segments : List (List Char × ι)) (s : String) :
    (tagged e segments).getLast? ≠ some (.text s) := by
  induction segments using List.reverseRecOn with
  | nil => nofun
  | append_singleton segments t _ =>
    rw [tagged_concat, ← List.append_assoc, List.getLast?_concat]
    exact nofun

def spell (expr : ι → String) (segments : List (List Char × ι)) : String :=
  String.join (segments.map fun s => String.ofList s.1 ++ tag (expr s.2))

private theorem spell_concat (expr : ι → String) (segments : List (List Char × ι))
    (s : List Char × ι) :
    spell expr (segments ++ [s]) = spell expr segments ++ String.ofList s.1 ++ tag (expr s.2) := by
  rw [spell, List.map_append, String.join_append, String.append_assoc]
  simp [spell]

theorem toList_spell (expr : ι → String) (segments : List (List Char × ι)) :
    (spell expr segments).toList = segments.flatMap fun s => s.1 ++ (tag (expr s.2)).toList := by
  induction segments using List.reverseRecOn with
  | nil => rfl
  | append_singleton segments s ih =>
    rw [spell_concat, String.toList_append, String.toList_append, ih, String.toList_ofList,
      List.flatMap_append, List.flatMap_singleton, List.append_assoc]

private theorem getLast?_spell (expr : ι → String) (segments : List (List Char × ι)) :
    ∀ c ∈ (spell expr segments).toList.getLast?, c ≠ '\x7b' := by
  induction segments using List.reverseRecOn with
  | nil => nofun
  | append_singleton segments s _ =>
    rw [spell_concat, String.toList_append, List.getLast?_append, getLast?_tag]
    rintro c ⟨⟩
    decide

private theorem getLast?_spell_text (segments : List (List Char × ι))
    (h : ∀ c ∈ cs.getLast?, c ≠ '\x7b') :
    ∀ c ∈ (spell expr segments ++ String.ofList cs).toList.getLast?, c ≠ '\x7b' := by
  intro c hc
  rw [String.toList_append, String.toList_ofList, List.getLast?_append] at hc
  cases hlast : cs.getLast? with
  | none =>
    rw [hlast, Option.none_or] at hc
    exact getLast?_spell expr segments c hc
  | some d =>
    rw [hlast, Option.some_or] at hc
    exact h c (hlast ▸ hc)

/-- Behind a tag comes a text that is cut nowhere. -/
private theorem compile_spell_text (hcs : ¬ ['\x7b', '\x7b'] <:+: cs)
    (h : compile (spell expr segments) = .ok ⟨tagged e' segments⟩) :
    compile (spell expr segments ++ String.ofList cs) = .ok ⟨tagged e' segments ++ ofText cs⟩ := by
  obtain ⟨f, hf⟩ := compile_append h (compile_text hcs)
    (seamless_of_getLast? (getLast?_spell expr segments) _) (.inl (getLast?_tagged e' segments))
  rw [hf, moveBody_ofText]

/-- And behind a text comes a tag, whose expression goes to another place. -/
private theorem compile_spell_tag {s : List Char × ι} {value : Expr}
    (htag : compile (tag (expr s.2)) = .ok ⟨[.value value]⟩)
    (hcs : ¬ ['\x7b', '\x7b'] <:+: s.1) (hend : ∀ c ∈ s.1.getLast?, c ≠ '\x7b')
    (h : compile (spell expr segments) = .ok ⟨tagged e' segments⟩) :
    ∃ f, compile (spell expr (segments ++ [s])) =
      .ok ⟨tagged e' segments ++ (ofText s.1 ++ [.value (value.move f)])⟩ := by
  obtain ⟨f, hf⟩ := compile_append (compile_spell_text hcs h) htag
    (seamless_of_getLast? (getLast?_spell_text segments hend) _) (.inr nofun)
  refine ⟨f, ?_⟩
  rw [spell_concat, hf, ← List.append_assoc]
  rfl

/-- Texts with a tag behind each, and a text at the end. The expressions are those of the tags by
themselves, at other places. -/
theorem compile_spell [DecidableEq ι]
    (htags : ∀ s ∈ segments, compile (tag (expr s.2)) = .ok ⟨[.value (e s.2)]⟩)
    (htexts : ∀ s ∈ segments, ¬ ['\x7b', '\x7b'] <:+: s.1 ∧ ∀ c ∈ s.1.getLast?, c ≠ '\x7b')
    (hlast : ¬ ['\x7b', '\x7b'] <:+: last) (hdistinct : (segments.map (·.2)).Nodup) :
    ∃ e' : ι → Expr, (∀ s ∈ segments, ∃ f, e' s.2 = (e s.2).move f) ∧
      compile (spell expr segments ++ String.ofList last) = .ok ⟨tagged e' segments ++ ofText last⟩ := by
  suffices h : ∃ e' : ι → Expr, (∀ s ∈ segments, ∃ f, e' s.2 = (e s.2).move f) ∧
      compile (spell expr segments) = .ok ⟨tagged e' segments⟩ by
    obtain ⟨e', hmoved, h⟩ := h
    exact ⟨e', hmoved, compile_spell_text hlast h⟩
  induction segments using List.reverseRecOn with
  | nil =>
    have hnil : compile (String.ofList []) = .ok ⟨ofText []⟩ := compile_text (by decide)
    exact ⟨e, nofun, hnil⟩
  | append_singleton segments s ih =>
    rw [List.map_append, List.map_singleton, List.nodup_append] at hdistinct
    obtain ⟨hdistinct, -, hnew⟩ := hdistinct
    have hne : ∀ t ∈ segments, t.2 ≠ s.2 := fun t ht =>
      hnew _ (List.mem_map_of_mem ht) _ (List.mem_singleton_self _)
    obtain ⟨e', hmoved, h⟩ := ih (fun t ht => htags t (List.mem_append_left _ ht))
      (fun t ht => htexts t (List.mem_append_left _ ht)) hdistinct
    have hs : s ∈ segments ++ [s] := List.mem_append_right _ (List.mem_singleton_self s)
    obtain ⟨f, hf⟩ := compile_spell_tag (htags s hs) (htexts s hs).1 (htexts s hs).2 h
    refine ⟨Function.update e' s.2 ((e s.2).move f), ?_, ?_⟩
    · intro t ht
      rcases List.mem_append.1 ht with ht | ht
      · rw [Function.update_of_ne (hne t ht)]
        exact hmoved t ht
      · rw [List.mem_singleton.1 ht, Function.update_self]
        exact ⟨f, rfl⟩
    · rw [hf, tagged_concat, tagged_congr fun t ht => Function.update_of_ne (hne t ht) _ _,
        Function.update_self]

end Template

namespace Rendered

def ofSegments (v : ι → Value) (segments : List (List Char × ι)) (last : List Char) : Rendered :=
  ⟨segments.map fun s => (String.ofList s.1, v s.2), String.ofList last⟩

private theorem ofChunks_segments (v : ι → Value) (segments : List (List Char × ι))
    (last : List Char) :
    ofChunks (segments.flatMap (fun s => Chunk.ofText s.1 ++ [.value (v s.2)]) ++ Chunk.ofText last) =
      ofSegments v segments last := by
  induction segments with
  | nil => cases last <;> simp [ofSegments, Chunk.ofText, ofChunks, consText]
  | cons s segments ih =>
    rw [List.flatMap_cons, List.append_assoc, List.append_assoc, ofChunks_ofText_append,
      List.singleton_append, ofChunks, ih]
    simp [ofSegments, consText]

end Rendered

namespace Eval

open Statement (tagged tagged_cons ofText)

variable {eval : Expr → Run (Env σ) Value} {v : ι → Value}

private theorem statements_tagged {env : Env σ}
    (h : ∀ s ∈ segments, eval (e s.2) env = .ok (v s.2) env) :
    statements eval (tagged e segments) env =
      .ok (segments.flatMap fun s => Chunk.ofText s.1 ++ [.value (v s.2)]) env := by
  induction segments with
  | nil => rfl
  | cons s segments ih =>
    obtain ⟨hs, hsegments⟩ := List.forall_mem_cons.1 h
    have hvalue : statements eval [.value (e s.2)] env = .ok [.value (v s.2)] env := by
      simp only [statements, statement, bind_assoc, pure_bind]
      exact Run.bind_of_ok hs
    rw [tagged_cons, statements_append, statements_append, statements_ofText, pure_bind, bind_assoc,
      Run.bind_of_ok hvalue, bind_assoc, Run.bind_of_ok (ih hsegments), List.flatMap_cons,
      List.append_assoc]
    rfl

/-- If no value does anything else, the output is the values, each behind its text. -/
theorem template_tagged {h : Host σ} {source : Nat} {s : σ}
    (hv : ∀ t ∈ segments, expr h depthLimit source (e t.2) ⟨[], s⟩ = .ok (v t.2) ⟨[], s⟩) :
    template h source ⟨tagged e segments ++ ofText last⟩ s =
      .ok (Rendered.ofSegments v segments last) s := by
  have htop : Env.toplevel (statements (expr h depthLimit source) (tagged e segments)) s =
      .ok (segments.flatMap fun s => Chunk.ofText s.1 ++ [.value (v s.2)]) s := by
    rw [Env.toplevel, statements_tagged hv]
  rw [template_append_ofText, Run.bind_of_ok htop, Rendered.ofChunks_segments]
  rfl

end Eval

end LiveMarkup
