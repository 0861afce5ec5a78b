import LiveMarkup.Proofs.Style.Sheet
import Mathlib.Data.List.TakeWhile

/-! Lists of selectors in parts: what stands before a place in a list and what stands after it are split
apart from each other. -/

namespace LiveMarkup.Style

variable {c : Char} {cs rest w front back u v : List Char} {ps : List (List Char)} {s : Scan} {p : Char → Bool}

/-! What is open after a text. -/

/-- Strings begin with quotes, and nothing is escaped outside them. -/
structure Quoting.Sound (q : Quoting) : Prop where
  quote : ∀ d ∈ q.quote, isQuote d = true
  outside : q.outside = true → q = .none

theorem Quoting.Sound.none : Quoting.none.Sound := ⟨nofun, fun _ => rfl⟩

private theorem Quoting.Sound.next {q : Quoting} (h : q.Sound) (c : Char) : (q.next c).Sound := by
  obtain ⟨_ | quote, escaped⟩ := q
  · have hnone := h.outside rfl
    rw [hnone, Quoting.next_closed]
    split
    · next hc => exact ⟨fun d hd => Option.some.inj hd ▸ hc, nofun⟩
    · exact .none
  · have hopen (escaped : Bool) : Quoting.Sound ⟨some quote, escaped⟩ := ⟨h.quote, nofun⟩
    simp only [Quoting.next]
    split_ifs
    · exact hopen false
    · exact hopen true
    · exact .none
    · exact hopen escaped

theorem Scan.next_sound (h : s.quoting.Sound) (c : Char) : (s.next c).quoting.Sound := by
  rw [Scan.next]
  split_ifs
  · exact h
  · exact h
  · exact h.next c
  · exact h.next c

theorem Scan.after_sound (h : s.quoting.Sound) (cs : List Char) : (s.after cs).quoting.Sound := by
  induction cs generalizing s with
  | nil => exact h
  | cons c cs ih => exact ih (Scan.next_sound h c)

/-- Where nothing is open, the text goes on as at its beginning. -/
private theorem Scan.eq_start_of_top (h : (Scan.start.after cs).top = true) :
    Scan.start.after cs = .start := by
  have hsound : (Scan.start.after cs).quoting.Sound := Scan.after_sound .none cs
  rw [Scan.top, Bool.and_eq_true, beq_iff_eq] at h
  have hquoting := hsound.outside h.1
  generalize Scan.start.after cs = s at *
  obtain ⟨quoting, depth⟩ := s
  obtain ⟨-, rfl⟩ := h
  rw [show quoting = .none from hquoting]
  rfl

/-- Other characters than quotes and brackets open and close nothing. -/
theorem Scan.top_next (h : s.quoting.Sound) (hquote : isQuote c = false) (hopens : opensBracket c = false)
    (hcloses : closesBracket c = false) : (s.next c).top = s.top := by
  obtain ⟨⟨_ | quote, escaped⟩, depth⟩ := s
  · have hnone := h.outside rfl
    rw [show Quoting.mk none escaped = .none from hnone, Scan.next_closed hquote hopens hcloses]
  · have hc : c ≠ quote := by
      rintro rfl
      rw [h.quote c rfl] at hquote
      cases hquote
    rw [Scan.next_quoted, Quoting.next]
    simp only [hc, if_false]
    split_ifs <;> rfl

theorem Scan.top_after_blank (h : s.quoting.Sound) (hw : Blank w) : (s.after w).top = s.top := by
  induction w generalizing s with
  | nil => rfl
  | cons c w ih =>
    obtain ⟨hc, hw⟩ := List.forall_mem_cons.1 hw
    obtain ⟨hquote, -, hopens, hcloses⟩ := ordinary_of_blank hc
    rw [Scan.after_cons, ih (Scan.next_sound h c) hw, Scan.top_next h hquote hopens hcloses]

theorem Scan.start_after_blank (hw : Blank w) : Scan.start.after w = .start :=
  Scan.eq_start_of_top (Scan.top_after_blank .none hw)

/-! Lists of selectors are split at their commas. -/

private theorem cutTop?_append_found {b a : List Char} (h : cutTop? p s cs = some (b, c, a)) :
    cutTop? p s (cs ++ rest) = some (b, c, a ++ rest) := by
  induction cs generalizing s b with
  | nil => cases h
  | cons d cs ih =>
    rw [cutTop?] at h
    rw [List.cons_append, cutTop?]
    split_ifs at h ⊢ with hd
    · cases h
      rfl
    · obtain ⟨⟨b, r⟩, hr, heq⟩ := Option.map_eq_some_iff.1 h
      cases heq
      rw [ih hr]
      rfl

theorem cutTop?_append_eq_none :
    cutTop? p s (cs ++ rest) = none ↔ cutTop? p s cs = none ∧ cutTop? p (s.after cs) rest = none := by
  cases hcut : cutTop? p s cs with
  | none => rw [cutTop?_append hcut, Option.map_eq_none_iff, eq_self, true_and]
  | some r => simp [cutTop?_append_found hcut]

/-- The sign that is found stands where nothing is open. -/
private theorem cutTop?_top {b a : List Char} (h : cutTop? p s cs = some (b, c, a)) :
    (s.after b).top = true ∧ p c = true := by
  induction cs generalizing s b with
  | nil => cases h
  | cons d cs ih =>
    rw [cutTop?] at h
    split_ifs at h with hd
    · cases h
      exact Bool.and_eq_true_iff.1 hd
    · obtain ⟨⟨b, r⟩, hr, heq⟩ := Option.map_eq_some_iff.1 h
      cases heq
      exact ih (s := s.next d) hr

private theorem splitTop_ne_nil {separator : Char} : splitTop separator cs ≠ [] := by
  rw [splitTop]
  split <;> exact List.cons_ne_nil _ _

/-- A list of selectors goes on in its last part. -/
structure LastPart (front : List Char) (ps : List (List Char)) (l u : List Char) : Prop where
  eq : front = l ++ u
  start : Scan.start.after l = .start
  whole : cutTop? (· == ',') .start u = none
  splitTop (back : List Char) : splitTop ',' (front ++ back) = ps ++ splitTop ',' (u ++ back)

theorem exists_lastPart (h : splitTop ',' front = ps ++ [u]) : ∃ l, LastPart front ps l u := by
  induction ps generalizing front with
  | nil =>
    rw [splitTop] at h
    split at h
    · next hwhole =>
      cases h
      exact ⟨[], rfl, rfl, hwhole, fun _ => rfl⟩
    · cases splitTop_ne_nil (List.cons_eq_cons.1 h).2
  | cons q ps ih =>
    -- The comma after the first part is at the top, so that what follows is split as from its beginning.
    rw [splitTop] at h
    split at h
    · cases (List.append_eq_nil_iff.1 (List.cons_eq_cons.1 h).2.symm).2
    · next b d a hcut =>
      obtain ⟨rfl, hparts⟩ := List.cons_eq_cons.1 h
      obtain ⟨htop, hd⟩ := cutTop?_top hcut
      obtain rfl : d = ',' := beq_iff_eq.1 hd
      obtain ⟨l, heq, hstart, hwhole, hgoes⟩ := ih hparts
      refine ⟨b ++ ',' :: l, ?_, ?_, hwhole, fun back => ?_⟩
      · rw [cutTop?_eq_some hcut, heq, List.append_assoc, List.cons_append]
      · rw [Scan.after_append, Scan.eq_start_of_top htop]
        exact hstart
      · rw [splitTop_cut (cutTop?_append_found hcut), hgoes, List.cons_append]

/-- The part that a text begins with in a state ends at the end of the text or at a comma. -/
structure FirstPart (s : Scan) (back v : List Char) (qs : List (List Char)) : Prop where
  eq : ∃ w, back = v ++ w ∧ ∀ d ∈ w.head?, (s.after v).top = true ∧ d = ','
  splitTop (cs : List Char) (hwhole : cutTop? (· == ',') .start cs = none) (hs : Scan.start.after cs = s) :
    splitTop ',' (cs ++ back) = (cs ++ v) :: qs

theorem exists_firstPart (s : Scan) (back : List Char) : ∃ v qs, FirstPart s back v qs := by
  cases hcut : cutTop? (· == ',') s back with
  | none =>
    refine ⟨back, [], ⟨[], (List.append_nil back).symm, nofun⟩, fun cs hwhole hs => splitTop_whole ?_⟩
    rw [cutTop?_append hwhole, hs, hcut]
    rfl
  | some r =>
    obtain ⟨v, d, a⟩ := r
    obtain ⟨htop, hd⟩ := cutTop?_top hcut
    refine ⟨v, splitTop ',' a, ⟨d :: a, cutTop?_eq_some hcut, ?_⟩, fun cs hwhole hs => ?_⟩
    · rintro _ ⟨⟩
      exact ⟨htop, beq_iff_eq.1 hd⟩
    · have hlong : cutTop? (· == ',') .start (cs ++ back) = some (cs ++ v, d, a) := by
        rw [cutTop?_append hwhole, hs, hcut]
        rfl
      exact splitTop_cut hlong

/-! White space at the ends of a part. -/

private theorem trimStart_append (hne : cs ≠ []) (h : ∀ d ∈ cs.head?, Text.isBlank d = false) :
    Text.trimStart (u ++ cs) = Text.trimStart u ++ cs := by
  obtain ⟨d, cs, rfl⟩ := List.exists_cons_of_ne_nil hne
  rw [Text.trimStart, List.dropWhile_append, ← Text.trimStart]
  split
  · next hempty =>
    rw [List.isEmpty_iff.1 hempty, List.dropWhile_cons_of_neg (by simp [h d rfl]), List.nil_append]
  · rfl

private theorem trimEnd_append_part
    (h : Blank v → cs ≠ [] ∧ ∀ d ∈ cs.getLast?, Text.isBlank d = false) :
    Text.trimEnd (cs ++ v) = cs ++ Text.trimEnd v := by
  by_cases hv : Blank v
  · have hnone : Text.trimEnd v = [] := by
      simpa using trimEnd_append (s := []) nofun hv
    rw [trimEnd_append (h hv).2 hv, hnone, List.append_nil]
  · have hrest : (v.reverse.dropWhile Text.isBlank).isEmpty = false := by
      rw [List.isEmpty_eq_false_iff, ne_eq, List.dropWhile_eq_nil_iff]
      exact fun hall => hv fun d hd => hall d (List.mem_reverse.2 hd)
    rw [Text.trimEnd, List.reverse_append, List.dropWhile_append, hrest, if_neg Bool.false_ne_true,
      List.reverse_append, List.reverse_reverse, Text.trimEnd]

theorem exists_blank_trimStart (cs : List Char) : ∃ w, Blank w ∧ cs = w ++ Text.trimStart cs :=
  ⟨cs.takeWhile Text.isBlank, fun _ hd => List.mem_takeWhile_imp hd, List.takeWhile_append_dropWhile.symm⟩

theorem exists_blank_trimEnd (cs : List Char) : ∃ w, Blank w ∧ cs = Text.trimEnd cs ++ w := by
  obtain ⟨w, hw, heq⟩ := exists_blank_trimStart cs.reverse
  refine ⟨w.reverse, fun d hd => hw d (List.mem_reverse.1 hd), ?_⟩
  have hreverse := congrArg List.reverse heq
  rwa [List.reverse_reverse, List.reverse_append] at hreverse

def selectorsOf (ps : List (List Char)) : List (List Char) :=
  (ps.map Text.trim).filter fun s => !s.isEmpty

/-- What stands between the last part of one text and the first part of another makes one selector of these. -/
theorem readSelectors_part {mid l : List Char} {qs : List (List Char)} (hlast : LastPart front ps l u)
    (hfirst : FirstPart s back v qs) (hwhole : cutTop? (· == ',') (Scan.start.after u) mid = none)
    (hs : (Scan.start.after u).after mid = s) (hne : mid ≠ [])
    (hhead : ∀ d ∈ mid.head?, Text.isBlank d = false)
    (hend : Blank v → ∀ d ∈ mid.getLast?, Text.isBlank d = false) :
    readSelectors (front ++ (mid ++ back)) =
      selectorsOf ps ++ (Text.trimStart u ++ (mid ++ Text.trimEnd v)) :: selectorsOf qs := by
  have hsplit : splitTop ',' (front ++ (mid ++ back)) = ps ++ (u ++ mid ++ v) :: qs := by
    have hlong : cutTop? (· == ',') .start (u ++ mid) = none := by
      rw [cutTop?_append hlast.whole, hwhole]
      rfl
    have hstate : Scan.start.after (u ++ mid) = s := by rw [Scan.after_append, hs]
    rw [hlast.splitTop, ← List.append_assoc, hfirst.splitTop _ hlong hstate]
  have htrim : Text.trim (u ++ mid ++ v) = Text.trimStart u ++ (mid ++ Text.trimEnd v) := by
    have hstart : Text.trimStart (u ++ (mid ++ v)) = Text.trimStart u ++ (mid ++ v) := by
      refine trimStart_append (by simp [hne]) fun d hd => hhead d ?_
      rwa [List.head?_append_of_ne_nil _ hne] at hd
    rw [Text.trim, List.append_assoc, hstart, ← List.append_assoc, trimEnd_append_part, List.append_assoc]
    refine fun hv => ⟨by simp [hne], fun d hd => hend hv d ?_⟩
    rwa [List.getLast?_append_of_ne_nil _ hne] at hd
  have hkept : (Text.trimStart u ++ (mid ++ Text.trimEnd v)).isEmpty = false := by simp [hne]
  rw [readSelectors, hsplit, List.map_append, List.filter_append, List.map_cons, htrim,
    List.filter_cons_of_pos (by simp [hkept]), selectorsOf, selectorsOf]

/-! A list of selectors before a block. -/

/-- A list of selectors that can stand before the block of a style rule. -/
structure Listed (cs : List Char) : Prop where
  ne : cs ≠ []
  trimmed : Trimmed cs
  sign : ∀ c ∈ cs.head?, c ≠ '@'
  unmarked : Unmarked cs
  stops : Skips isStop cs

def sheetOf (cs body : List Char) : String := String.ofList (cs ++ '\x7b' :: (body ++ ['\x7d']))

def scopedRule (attr : String) (selectors : List (List Char)) (body : List Char) : String :=
  String.ofList ([',', ' '].intercalate (selectors.map (scopeSelector attr.toList)) ++
    (" \x7b ".toList ++ (body ++ " \x7d".toList)))

/-- The selectors of a list are those of the rule that it stands in. -/
theorem scope_sheetOf {body : List Char} (h : Listed cs) (htrimmed : Trimmed body) (hblock : Block body)
    (hunmarked : Unmarked body) (attr : String) :
    scope (sheetOf cs body) attr = scopedRule attr (readSelectors cs) body := by
  have htext : Unmarked (cs ++ '\x7b' :: (body ++ ['\x7d'])) :=
    .between blank_nil h.unmarked blank_nil (by decide) (by decide)
      (.between blank_nil hunmarked blank_nil (by decide) (by decide) blank_nil.unmarked)
  have hread : readRules (cs ++ '\x7b' :: (body ++ ['\x7d'])) = [.style (readSelectors cs) body] := by
    have hblocks : readRules ([] ++ (cs ++ ([] ++ '\x7b' :: (body ++ ['\x7d'])))) = _ :=
      readRules_block blank_nil h.ne h.trimmed h.stops blank_nil hblock.passes
    rw [blockRule_style h.sign, htrimmed.trim_self, readRules_nil] at hblocks
    exact hblocks
  have hwritten : rulesText (scopeRules attr.toList [.style (readSelectors cs) body]) =
      ([',', ' '].intercalate ((readSelectors cs).map (scopeSelector attr.toList)) ++
        (" \x7b ".toList ++ (body ++ " \x7d".toList))) ++ ['\n'] := by
    simp [scopeRules, Rule.scope, rulesText, Rule.text]
  have hlast : ([',', ' '].intercalate ((readSelectors cs).map (scopeSelector attr.toList)) ++
      (" \x7b ".toList ++ (body ++ " \x7d".toList))).getLast? = some '\x7d' := by
    simp [List.getLast?_append, List.getLast?_cons]
  have hend : ∀ c ∈ some '\x7d', Text.isBlank c = false := by
    rintro _ ⟨⟩
    decide
  rw [scope, sheetOf, String.toList_ofList, stripComments_eq htext, hread, hwritten,
    trimEnd_append (hlast ▸ hend) (by decide), scopedRule]

theorem Skips.after (h : Skips p cs) (hc : p c = true) : Scan.start.after cs = .start := by
  have hfound : cutTop? p .start (cs ++ [c]) = some (cs, c, []) := h.found hc
  exact Scan.eq_start_of_top (cutTop?_top hfound).1

end LiveMarkup.Style
