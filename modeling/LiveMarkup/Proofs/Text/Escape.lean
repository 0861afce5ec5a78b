import LiveMarkup.Proofs.Text.Cut
import LiveMarkup.Text.Entity

/-! Escaping can be undone. Replacing the reserved characters one after the other comes to the same as one
pass over the text, since no character occurs in what those before it are replaced by. -/

namespace LiveMarkup.Text

variable {cs before after : List Char} {c d : Char}

/-! One turn. -/

private theorem pieces_ne_nil (separator : List Char) (nonempty : 0 < separator.length)
    (cs : List Char) :
    pieces separator nonempty cs ≠ [] := by
  rw [pieces]
  split <;> exact List.cons_ne_nil _ _

private theorem flatMap_eq_self {f : Char → List Char} (h : ∀ c ∈ cs, f c = [c]) :
    cs.flatMap f = cs := by
  rw [List.flatMap_congr h, List.flatMap_singleton']

/-- Replacing the occurrences of a character is replacing each by itself. -/
private theorem replaceAll_singleton (c : Char) (replacement cs : List Char) :
    replaceAll [c] replacement cs = cs.flatMap fun d => if d = c then replacement else [d] := by
  have hself {cs : List Char} (h : ¬ [c] <:+: cs) :
      cs.flatMap (fun d => if d = c then replacement else [d]) = cs := by
    refine flatMap_eq_self fun d hd => if_neg ?_
    rintro rfl
    exact h ((List.singleton_infix_iff d cs).2 hd)
  have nonempty : 0 < [c].length := Nat.zero_lt_one
  rw [replaceAll, splitOn, dif_pos nonempty]
  fun_induction pieces [c] nonempty cs with
  | case1 cs hcut =>
    rw [List.intercalate_singleton, hself (not_infix_of_cut?_eq_none hcut)]
  | case2 cs before after hcut ih =>
    have hbefore := hself (not_infix_before (List.cons_ne_nil _ _) hcut)
    obtain ⟨p, ps, hpieces⟩ := List.exists_cons_of_ne_nil (pieces_ne_nil [c] nonempty after)
    rw [cut?_eq_some hcut, List.flatMap_append, List.flatMap_append, hbefore, ← ih, hpieces,
      List.intercalate_cons_cons]
    simp

/-! All turns. -/

/-- A character of the text is replaced in its turn and then left alone if it stands for itself in what
follows. -/
private theorem foldl_replaceAll {cs : List Char} (ms : List Char)
    (h : ms.Pairwise fun c d => d ∉ entity c) :
    ms.foldl (fun cs c => replaceAll [c] (entity c) cs) cs =
      cs.flatMap fun c => if c ∈ ms then entity c else [c] := by
  induction ms generalizing cs with
  | nil => exact (flatMap_eq_self fun _ _ => if_neg List.not_mem_nil).symm
  | cons m ms ih =>
    obtain ⟨hm, hms⟩ := List.pairwise_cons.1 h
    rw [List.foldl_cons, ih hms, replaceAll_singleton, List.flatMap_assoc]
    refine List.flatMap_congr fun c _ => ?_
    by_cases hc : c = m
    · subst hc
      rw [if_pos rfl, if_pos List.mem_cons_self]
      refine flatMap_eq_self fun d hd => if_neg fun hmem => hm d hmem hd
    · rw [if_neg hc, List.flatMap_singleton]
      simp only [List.mem_cons, hc, false_or]

private theorem entity_of_not_mem (h : c ∉ reserved) : entity c = [c] := by
  unfold entity
  split <;> first | rfl | exact absurd (by decide) h

/-- All turns together are one pass. -/
private theorem escapeByTurns_eq (cs : List Char) : escapeByTurns cs = escape cs := by
  rw [escapeByTurns, foldl_replaceAll reserved (by decide), escape]
  refine List.flatMap_congr fun c _ => ?_
  split
  · rfl
  · next h => exact (entity_of_not_mem h).symm

/-! What is written. -/

/-- Of the reserved characters only the ampersand is written. -/
theorem ne_of_mem_entity (h : d ∈ entity c) : d ≠ '<' ∧ d ≠ '>' ∧ d ≠ '"' ∧ d ≠ '\'' := by
  by_cases hc : c ∈ reserved
  · have hall : ∀ c ∈ reserved, ∀ d ∈ entity c, d ≠ '<' ∧ d ≠ '>' ∧ d ≠ '"' ∧ d ≠ '\'' := by
      simp [reserved, entity]
    exact hall c hc d h
  · rw [entity_of_not_mem hc, List.mem_singleton] at h
    subst h
    simp only [reserved, List.mem_cons, List.not_mem_nil, or_false, not_or] at hc
    exact hc.2

/-- An ampersand is written at the beginning of a reference only. -/
private theorem ampersand_mem_entity {rest : List Char} (h : entity c = before ++ '&' :: rest) :
    c ∈ reserved ∧ before = [] := by
  by_cases hc : c ∈ reserved
  · have hall : ∀ c ∈ reserved, '&' ∉ (entity c).tail := by simp [reserved, entity]
    refine ⟨hc, ?_⟩
    cases before with
    | nil => rfl
    | cons d before =>
      refine absurd ?_ (hall c hc)
      rw [h]
      simp
  · rw [entity_of_not_mem hc] at h
    cases before with
    | nil =>
      obtain ⟨rfl, -⟩ := List.cons.inj h
      exact absurd (by decide) hc
    | cons d before => simp at h

private theorem ampersand_begins_entity (h : escape cs = before ++ '&' :: after) :
    ∃ c ∈ reserved, entity c <+: '&' :: after := by
  induction cs generalizing before with
  | nil => simp [escape] at h
  | cons c cs ih =>
    rw [escape, List.flatMap_cons, ← escape, List.append_eq_append_iff] at h
    obtain ⟨rest, hbefore, hrest⟩ | ⟨rest, hentity, hrest⟩ := h
    · exact ih hrest
    · cases rest with
      | nil => exact @ih [] hrest.symm
      | cons e rest =>
        obtain ⟨rfl, hafter⟩ := List.cons.inj hrest
        obtain ⟨hc, rfl⟩ := ampersand_mem_entity hentity
        exact ⟨c, hc, escape cs, by rw [hentity, hafter]; rfl⟩

/-! What is read. -/

private theorem unescape_of_ne (h : c ≠ '&') (cs : List Char) :
    unescape (c :: cs) = c :: unescape cs := by
  rw [unescape] <;> simp [h]

private theorem unescape_entity_append (c : Char) (cs : List Char) :
    unescape (entity c ++ cs) = c :: unescape cs := by
  by_cases hc : c ∈ reserved
  · simp only [reserved, List.mem_cons, List.not_mem_nil, or_false] at hc
    obtain rfl | rfl | rfl | rfl | rfl := hc <;> rfl
  · rw [entity_of_not_mem hc, List.singleton_append, unescape_of_ne]
    rintro rfl
    exact hc (by decide)

private theorem unescape_escape (cs : List Char) : unescape (escape cs) = cs := by
  induction cs with
  | nil => rfl
  | cons c cs ih => rw [escape, List.flatMap_cons, ← escape, unescape_entity_append, ih]

/-- Escaping can be undone. Replacing the five reserved characters by turns comes to the same as one pass over
the text, which writes each of them as its reference and every other character as itself. So texts can be
escaped piece by piece, the result has no angle bracket and no quote, every ampersand in it begins a
reference, and reading the references gives the text back, which no other text is escaped to. -/
theorem escaping_undone (cs : List Char) :
    escapeByTurns cs = escape cs ∧
      (∀ ds, escapeByTurns (cs ++ ds) = escapeByTurns cs ++ escapeByTurns ds) ∧
      (∀ c ∈ escapeByTurns cs, c ≠ '<' ∧ c ≠ '>' ∧ c ≠ '"' ∧ c ≠ '\'') ∧
      (∀ before after, escapeByTurns cs = before ++ '&' :: after →
        ∃ c ∈ reserved, entity c <+: '&' :: after) ∧
      unescape (escapeByTurns cs) = cs ∧
      ∀ ds, escapeByTurns ds = escapeByTurns cs → ds = cs := by
  simp only [escapeByTurns_eq]
  refine ⟨trivial, escape_append cs, fun c hc => ?_, fun _ _ => ampersand_begins_entity, unescape_escape cs,
    fun ds h => ?_⟩
  · obtain ⟨d, -, hd⟩ := List.mem_flatMap.1 hc
    exact ne_of_mem_entity hd
  · rw [← unescape_escape ds, h, unescape_escape]

/-- A text that contains references already. -/
example : String.ofList (escapeByTurns "Tom & 'Jerry' &lt;<".toList) =
    "Tom &amp; &#39;Jerry&#39; &amp;lt;&lt;" := by cbv

end LiveMarkup.Text
