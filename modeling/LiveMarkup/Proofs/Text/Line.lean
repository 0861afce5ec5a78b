import LiveMarkup.Text.Line
import LiveMarkup.Text.Trim
import Mathlib.Data.List.TakeWhile

/-! The lines of a text: the line with the number of a place in the text is what stands around the place up
to the line feeds next to it. -/

namespace LiveMarkup.Text

variable {line pre cs : List Char} {c : Char}

def lastLine (cs : List Char) : List Char := (cs.reverse.takeWhile (· != '\n')).reverse

def lineAround (pre cs : List Char) : List Char := lastLine pre ++ cs.takeWhile (· != '\n')

/-- A line as it is listed: a carriage return before its line feed is not part of it. -/
def Lists (line around : List Char) : Prop := around = line ∨ around = line ++ ['\r']

private theorem Lists.cons (h : Lists line cs) (c : Char) : Lists (c :: line) (c :: cs) :=
  h.imp (congrArg (List.cons c)) (congrArg (List.cons c))

private theorem trim_append_return (line : List Char) : trim (line ++ ['\r']) = trim line := by
  have hr : isBlank '\r' = true := by decide
  rw [trim, trim, trimStart, trimStart, List.dropWhile_append]
  split
  · next h =>
    rw [List.isEmpty_iff.1 h]
    rfl
  · rw [trimEnd, trimEnd, List.reverse_append, List.reverse_singleton, List.singleton_append,
      List.dropWhile_cons, if_pos hr]

theorem Lists.trim_eq {around : List Char} (h : Lists line around) : trim line = trim around := by
  rcases h with rfl | rfl
  · rfl
  · exact (trim_append_return line).symm

/-! The lines of a text that begins with a given character. -/

private theorem lines_lineFeed (cs : List Char) : lines ('\n' :: cs) = [] :: lines cs := by
  rw [lines]

private theorem lines_returnLineFeed (cs : List Char) :
    lines ('\r' :: '\n' :: cs) = [] :: lines cs := by
  rw [lines]

/-- A character that ends no line goes in front of the first line. -/
theorem lines_cons {ls : List (List Char)} (hc : c ≠ '\n') (hr : c = '\r' → ∀ ds, cs ≠ '\n' :: ds)
    (h : lines cs = line :: ls) : lines (c :: cs) = (c :: line) :: ls := by
  rw [lines, h]
  · exact fun ds hc hcs => hr hc ds hcs
  · exact hc

/-- The first line of a text that is not empty. -/
theorem exists_first_line (h : cs ≠ []) :
    ∃ line ls, lines cs = line :: ls ∧ Lists line (cs.takeWhile (· != '\n')) := by
  fun_induction lines cs with
  | case1 => exact absurd rfl h
  | case2 cs => exact ⟨[], _, rfl, .inr rfl⟩
  | case3 cs => exact ⟨[], _, rfl, .inl rfl⟩
  | case4 c cs hreturn hfeed hnil ih =>
    obtain rfl : cs = [] := by
      by_contra hne
      obtain ⟨line, ls, hlines, -⟩ := ih hne
      cases hnil.symm.trans hlines
    exact ⟨[c], [], rfl, .inl (by rw [List.takeWhile_cons, if_pos (bne_iff_ne.2 hfeed)]; rfl)⟩
  | case5 c cs hreturn hfeed l ls hlines ih =>
    have hne : cs ≠ [] := by
      rintro rfl
      cases hlines
    obtain ⟨line, ls', hlines', hlists⟩ := ih hne
    cases hlines.symm.trans hlines'
    refine ⟨c :: l, ls, rfl, ?_⟩
    rw [List.takeWhile_cons, if_pos (bne_iff_ne.2 hfeed)]
    exact hlists.cons c

/-- No line feed is part of a line. -/
theorem lineFeed_not_mem_of_mem_lines (h : line ∈ lines cs) : '\n' ∉ line := by
  fun_induction lines cs generalizing line with
  | case1 => cases h
  | case2 cs ih | case3 cs ih =>
    rcases List.mem_cons.1 h with rfl | h
    · exact List.not_mem_nil
    · exact ih h
  | case4 c cs _ hfeed _ _ =>
    obtain rfl := List.mem_singleton.1 h
    exact fun hmem => hfeed (List.mem_singleton.1 hmem).symm
  | case5 c cs _ hfeed l ls hlines ih =>
    rw [hlines] at ih
    rcases List.mem_cons.1 h with rfl | h
    · exact fun hmem => (List.mem_cons.1 hmem).elim (Ne.symm hfeed) (ih List.mem_cons_self)
    · exact ih (List.mem_cons_of_mem _ h)

/-! The last line of a text that begins with a given character. -/

private theorem lastLine_lineFeed (cs : List Char) : lastLine ('\n' :: cs) = lastLine cs := by
  rw [lastLine, List.reverse_cons, List.takeWhile_append]
  split
  · next hlength =>
    rw [lastLine, (List.takeWhile_prefix _).eq_of_length hlength]
    exact congrArg List.reverse (List.append_nil cs.reverse)
  · rfl

private theorem lastLine_of_mem (h : '\n' ∈ cs) (c : Char) : lastLine (c :: cs) = lastLine cs := by
  rw [lastLine, List.reverse_cons, List.takeWhile_append, if_neg]
  · rfl
  · intro hlength
    have hall := List.takeWhile_eq_self_iff.1 ((List.takeWhile_prefix _).eq_of_length hlength)
    exact absurd (hall _ (List.mem_reverse.2 h)) (by decide)

private theorem lastLine_of_not_mem (h : '\n' ∉ cs) : lastLine cs = cs := by
  rw [lastLine, List.takeWhile_eq_self_iff.2, List.reverse_reverse]
  rintro c hc
  rw [bne_iff_ne]
  rintro rfl
  exact h (List.mem_reverse.1 hc)

theorem lastLine_append (pre : List Char) (h : '\n' ∉ cs) : lastLine (pre ++ '\n' :: cs) = cs := by
  have hall : ∀ c ∈ cs.reverse, (c != '\n') = true := by
    intro c hc
    rw [bne_iff_ne]
    rintro rfl
    exact h (List.mem_reverse.1 hc)
  rw [lastLine, List.reverse_append, List.reverse_cons, List.append_assoc, List.takeWhile_append_of_pos hall,
    List.singleton_append, List.takeWhile_cons_of_neg (by decide), List.append_nil, List.reverse_reverse]

private theorem lineFeed_not_mem_lastLine (cs : List Char) : '\n' ∉ lastLine cs := by
  intro h
  have hne := List.mem_takeWhile_imp (List.mem_reverse.1 h)
  exact absurd hne (by decide)

theorem lineFeed_not_mem_lineAround (pre cs : List Char) : '\n' ∉ lineAround pre cs := by
  intro h
  rcases List.mem_append.1 h with h | h
  · exact lineFeed_not_mem_lastLine pre h
  · exact absurd (List.mem_takeWhile_imp h) (by decide)

/-- The line at a place, counted by the line feeds before the place. -/
theorem exists_line (pre : List Char) (h : cs ≠ []) :
    ∃ line, (lines (pre ++ cs))[pre.count '\n']? = some line ∧ Lists line (lineAround pre cs) := by
  match pre with
  | [] =>
    obtain ⟨line, ls, hlines, hlists⟩ := exists_first_line h
    exact ⟨line, by rw [List.nil_append, hlines]; rfl, hlists⟩
  | c :: pre =>
    by_cases hc : c = '\n'
    · subst hc
      obtain ⟨line, hline, hlists⟩ := exists_line pre h
      refine ⟨line, ?_, ?_⟩
      · rw [List.cons_append, lines_lineFeed, List.count_cons_self, List.getElem?_cons_succ, hline]
      · rwa [lineAround, lastLine_lineFeed]
    by_cases hr : c = '\r' ∧ ∃ ds, pre ++ cs = '\n' :: ds
    · obtain ⟨rfl, ds, hds⟩ := hr
      rw [List.cons_append, hds, lines_returnLineFeed]
      match pre with
      | [] =>
        refine ⟨[], rfl, .inr ?_⟩
        rw [List.nil_append] at hds
        rw [hds]
        rfl
      | d :: pre =>
        obtain ⟨rfl, rfl⟩ := List.cons.inj hds
        obtain ⟨line, hline, hlists⟩ := exists_line pre h
        refine ⟨line, ?_, ?_⟩
        · rw [List.count_cons_of_ne (by decide), List.count_cons_self, List.getElem?_cons_succ]
          exact hline
        · rwa [lineAround, lastLine_of_mem List.mem_cons_self, lastLine_lineFeed]
    · -- The character is part of the line that it begins, or it stands before the line in question.
      obtain ⟨line, hline, hlists⟩ := exists_line pre h
      obtain ⟨first, more, hlines⟩ := List.ne_nil_iff_exists_cons.1 (List.ne_nil_of_mem
        (List.mem_of_getElem? hline))
      rw [List.cons_append, lines_cons hc (fun hreturn ds hds => hr ⟨hreturn, ds, hds⟩) hlines,
        List.count_cons_of_ne hc]
      rw [hlines] at hline
      by_cases hmem : '\n' ∈ pre
      · refine ⟨line, ?_, by rwa [lineAround, lastLine_of_mem hmem]⟩
        obtain ⟨n, hn⟩ := Nat.exists_eq_add_of_lt (List.count_pos_iff.2 hmem)
        rw [hn] at hline ⊢
        exact hline
      · rw [List.count_eq_zero.2 hmem] at hline ⊢
        obtain rfl : first = line := Option.some.inj hline
        refine ⟨c :: first, rfl, ?_⟩
        have hcons : '\n' ∉ c :: pre := fun hfeed => (List.mem_cons.1 hfeed).elim (Ne.symm hc) hmem
        rw [lineAround, lastLine_of_not_mem hcons, List.cons_append]
        rw [lineAround, lastLine_of_not_mem hmem] at hlists
        exact hlists.cons c
termination_by pre.length

/-! Trimming around a character that is not white space. -/

private theorem trimStart_append_cons (hc : isBlank c = false) :
    trimStart (pre ++ c :: cs) = trimStart pre ++ c :: cs := by
  rw [trimStart, List.dropWhile_append]
  split
  · next h =>
    rw [trimStart, List.isEmpty_iff.1 h, List.dropWhile_cons_of_neg (by simp [hc])]
    rfl
  · rfl

private theorem trimEnd_append_cons (hc : isBlank c = false) :
    trimEnd (pre ++ c :: cs) = pre ++ c :: trimEnd cs := by
  rw [trimEnd, List.reverse_append, List.reverse_cons, List.append_assoc, List.dropWhile_append]
  split
  · next h =>
    rw [trimEnd, List.isEmpty_iff.1 h, List.singleton_append, List.dropWhile_cons_of_neg (by simp [hc])]
    simp
  · simp [trimEnd]

/-- The white space at the start of a line ends where something visible stands. -/
private theorem takeWhile_isBlank_append_cons (hc : isBlank c = false) :
    (pre ++ c :: cs).takeWhile isBlank = pre.takeWhile isBlank := by
  rw [List.takeWhile_append]
  split
  · next h =>
    rw [List.takeWhile_cons_of_neg (by simp [hc]), List.append_nil]
    exact ((List.takeWhile_prefix _).eq_of_length h).symm
  · rfl

theorem trim_append_cons (hc : isBlank c = false) :
    trim (pre ++ c :: cs) = trimStart pre ++ c :: trimEnd cs := by
  rw [trim, trimStart_append_cons hc, trimEnd_append_cons hc]

theorem Lists.takeWhile_isBlank (h : Lists line (pre ++ c :: cs)) (hc : isBlank c = false) :
    line.takeWhile isBlank = pre.takeWhile isBlank := by
  rcases h with h | h
  · rw [← h, takeWhile_isBlank_append_cons hc]
  · obtain rfl | ⟨cs, d, rfl⟩ := List.eq_nil_or_concat cs
    · obtain ⟨-, hd⟩ := List.append_inj' h rfl
      obtain ⟨rfl, -⟩ := List.cons.inj hd
      exact absurd hc (by decide)
    · rw [List.concat_eq_append, ← List.cons_append, ← List.append_assoc] at h
      rw [← (List.append_inj' h rfl).1, takeWhile_isBlank_append_cons hc]

theorem mem_of_mem_trim (h : c ∈ trim cs) : c ∈ cs :=
  (trimStart_suffix cs).mem ((trimEnd_isPrefix _).mem h)

end LiveMarkup.Text
