import LiveMarkup.Proofs.Style.Compound
import LiveMarkup.Proofs.Style.Parts

/-! A backslash and a character in a list of selectors, and a letter in their place: where the list is
split, and where an attribute is inserted. -/

namespace LiveMarkup.Style

variable {c x : Char} {cs ds rest w front back u v : List Char} {ps : List (List Char)} {s : Scan}
  {p : Char → Bool} {position position' n : Nat} {found : Option Nat} {g : Nat → Nat}

/-! The position of the pseudo-element in texts that differ in one place. -/

private theorem foundNext_map (hg : g position = position') :
    foundNext s position' (found.map g) c cs = (foundNext s position found c cs).map g := by
  simp only [foundNext, Option.isNone_map]
  split_ifs <;> simp [hg]

/-- The same text further on gives the same position further on. -/
private theorem elementStart_map (hg : ∀ i, g (position + i) = position' + i) :
    elementStart s position' (found.map g) cs = (elementStart s position found cs).map g := by
  induction cs generalizing s position position' found with
  | nil => rfl
  | cons c cs ih =>
    have hfirst : g position = position' := hg 0
    have hnext (i : Nat) : g (position + 1 + i) = position' + 1 + i := by
      rw [Nat.add_assoc, Nat.add_assoc, hg]
    rw [elementStart_cons, elementStart_cons, foundNext_map hfirst, ih hnext]

/-- The pseudo-element of the compound after a text that `rest` follows. -/
def foundAfter (s : Scan) (position : Nat) (found : Option Nat) (rest : List Char) : List Char → Option Nat
  | [] => found
  | c :: cs => foundAfter (s.next c) (position + 1) (foundNext s position found c (cs ++ rest)) rest cs

private theorem elementStart_append : elementStart s position found (cs ++ rest) =
    elementStart (s.after cs) (position + cs.length) (foundAfter s position found rest cs) rest := by
  induction cs generalizing s position found with
  | nil => rfl
  | cons c cs ih =>
    rw [List.cons_append, elementStart_cons, ih, List.length_cons, Nat.add_assoc, Nat.add_comm 1]
    rfl

private theorem foundAfter_lt (h : ∀ m ∈ found, m < position) :
    ∀ m ∈ foundAfter s position found rest cs, m < position + cs.length := by
  induction cs generalizing s position found with
  | nil => exact h
  | cons c cs ih =>
    have hnext : ∀ m ∈ foundNext s position found c (cs ++ rest), m < position + 1 := by
      intro m hm
      rw [foundNext] at hm
      split_ifs at hm
      · exact Nat.lt_succ_of_lt (h m hm)
      · cases hm
      · cases hm
        exact Nat.lt_succ_self _
      · exact Nat.lt_succ_of_lt (h m hm)
    intro m hm
    have hlt := ih hnext m hm
    rw [List.length_cons]
    omega

/-- What follows a text matters only to the colons in it. -/
private theorem foundAfter_congr (h : ∀ a b, cs = a ++ ':' :: b → (s.after a).top = true →
      beginsElement (b ++ rest) = beginsElement (b ++ ds)) :
    foundAfter s position found rest cs = foundAfter s position found ds cs := by
  induction cs generalizing s position found with
  | nil => rfl
  | cons c cs ih =>
    have hnext : foundNext s position found c (cs ++ rest) = foundNext s position found c (cs ++ ds) := by
      by_cases hc : c = ':' ∧ s.top = true
      · rw [foundNext, h [] cs (congrArg (· :: cs) hc.1) hc.2]
        rfl
      · rw [not_and_or] at hc
        obtain hc | hc := hc
        · simp [foundNext, hc]
        · rw [Bool.not_eq_true] at hc
          rw [foundNext_of_open hc, foundNext_of_open hc]
    rw [foundAfter, hnext, foundAfter]
    exact ih fun a b heq htop => h (c :: a) b (congrArg (c :: ·) heq) htop

private theorem beginsElement_append (h : ∀ d ∈ rest.head?, d ≠ ':' ∧ isNameChar d = false)
    (cs : List Char) :
    beginsElement (cs ++ rest) = beginsElement cs := by
  rw [beginsElement, namesElement_append fun d hd => (h d hd).2, beginsElement]
  cases cs with
  | nil =>
    cases rest with
    | nil => rfl
    | cons d rest => simp [(h d rfl).1]
  | cons => rfl

private theorem elementStart_blank (hw : Blank w) :
    elementStart .start position none (w ++ cs) = elementStart .start (position + w.length) none cs := by
  have hfound : foundAfter .start position none cs w = none := by
    induction w generalizing position with
    | nil => rfl
    | cons c w ih =>
      obtain ⟨hc, hw⟩ := List.forall_mem_cons.1 hw
      have hnext : Scan.next .start c = .start := Scan.start_after_blank (w := [c]) (by simpa [Blank] using hc)
      have hnone : foundNext .start position none c (w ++ cs) = none := by
        simp [foundNext, ne_of_blank hc (show Text.isBlank ':' = false by decide)]
      rw [foundAfter, hnone, hnext, ih hw]
  rw [elementStart_append, hfound, Scan.start_after_blank hw]

/-! A character with a backslash before it that means nothing without the backslash either. -/

/-- Between `u` and `rest` in a selector, a backslash and the character `c` mean as little as `x` does. -/
structure Inert (u : List Char) (c x : Char) (rest : List Char) : Prop where
  /-- They open and close the same strings and brackets. -/
  opens : ((Scan.start.after u).next '\\').next c = (Scan.start.after u).next x
  /-- The character is no comma between selectors. -/
  comma : (Scan.start.after u).top = true → c ≠ ','
  /-- It is no combinator after a pseudo-element. -/
  combinator : (Scan.start.after u).top = true → isCombinator c = true → elementStart .start 0 none u = none
  /-- It begins no pseudo-element. -/
  colon : (Scan.start.after u).top = true → c = ':' → beginsElement rest = false
  /-- The same colons before them begin pseudo-elements. -/
  name (a b : List Char) (heq : u = a ++ ':' :: b) (htop : (Scan.start.after a).top = true) :
    beginsElement (b ++ '\\' :: c :: rest) = beginsElement (b ++ x :: rest)

private theorem forall_split_iff {P : List Char → List Char → Prop} :
    (∀ a b, cs = a ++ c :: b → P a b) ↔ ∀ n < cs.length, cs[n]? = some c → P (cs.take n) (cs.drop (n + 1)) := by
  constructor
  · intro h n hn hc
    refine h _ _ ?_
    rw [List.getElem?_eq_getElem hn] at hc
    rw [← Option.some.inj hc, List.getElem_cons_drop, List.take_append_drop]
  · rintro h a b rfl
    have hmid := h a.length (by simp) (by simp)
    rwa [List.take_left, List.drop_append, List.drop_eq_nil_of_le (Nat.le_succ _), List.nil_append,
      Nat.add_sub_cancel_left] at hmid

instance (u : List Char) (c x : Char) (rest : List Char) : Decidable (Inert u c x rest) :=
  decidable_of_iff
    (((Scan.start.after u).next '\\').next c = (Scan.start.after u).next x ∧
      ((Scan.start.after u).top = true → c ≠ ',') ∧
      ((Scan.start.after u).top = true → isCombinator c = true → elementStart .start 0 none u = none) ∧
      ((Scan.start.after u).top = true → c = ':' → beginsElement rest = false) ∧
      ∀ n < u.length, u[n]? = some ':' → (Scan.start.after (u.take n)).top = true →
        beginsElement (u.drop (n + 1) ++ '\\' :: c :: rest) = beginsElement (u.drop (n + 1) ++ x :: rest))
    ⟨fun ⟨hopens, hcomma, hcombinator, hcolon, hname⟩ =>
      ⟨hopens, hcomma, hcombinator, hcolon, forall_split_iff.2 hname⟩, fun h =>
      ⟨h.opens, h.comma, h.combinator, h.colon, forall_split_iff.1 h.name⟩⟩

/-- What stands further away does not matter. -/
private theorem Inert.part (h : Inert (w ++ u) c x (v ++ rest)) (hw : Blank w)
    (hrest : ∀ d ∈ rest.head?, d ≠ ':' ∧ isNameChar d = false) : Inert u c x v := by
  have hafter (cs : List Char) : Scan.start.after (w ++ cs) = Scan.start.after cs := by
    rw [Scan.after_append, Scan.start_after_blank hw]
  refine ⟨?_, ?_, fun htop hc => ?_, fun htop hc => ?_, fun a b heq htop => ?_⟩
  · simpa only [hafter] using h.opens
  · simpa only [hafter] using h.comma
  · have hnone := h.combinator (by rwa [hafter]) hc
    have hsame (i : Nat) : (0 + w.length + ·) (0 + i) = 0 + w.length + i := by rw [Nat.zero_add i]
    have hshift : elementStart .start (0 + w.length) (Option.map (0 + w.length + ·) none) u =
        (elementStart .start 0 none u).map (0 + w.length + ·) := elementStart_map hsame
    rw [elementStart_blank hw, ← Option.map_none (0 + w.length + ·), hshift] at hnone
    exact Option.map_eq_none_iff.1 hnone
  · rw [← beginsElement_append hrest]
    exact h.colon (by rwa [hafter]) hc
  · have hname := h.name (w ++ a) b (by rw [heq, List.append_assoc]) (by rwa [hafter])
    rwa [← List.cons_append, ← List.cons_append, ← List.append_assoc, beginsElement_append hrest,
      ← List.cons_append, ← List.append_assoc, beginsElement_append hrest] at hname

private theorem ne_of_letter {d : Char} (hx : Text.isAlphabetic x = true)
    (hd : Text.isAlphabetic d = false) :
    x ≠ d := by
  rintro rfl
  rw [hd] at hx
  cases hx

private theorem ordinary_of_letter (hx : Text.isAlphabetic x = true) :
    isCombinator x = false ∧ x ≠ ':' ∧ x ≠ ',' ∧ Text.isBlank x = false := by
  have hcombinator : isCombinator x = false := by
    refine Bool.eq_false_iff.2 fun hcombinator => ?_
    simp only [isCombinator, Bool.or_eq_true, beq_iff_eq] at hcombinator
    obtain ((((rfl | rfl) | rfl) | rfl) | rfl) | rfl := hcombinator <;> exact absurd hx (by decide)
  have hblank : Text.isBlank x = false := by
    refine Bool.eq_false_iff.2 fun hblank => ?_
    have hident := Text.isIdentRest_of_isBlank hblank
    rw [Text.isIdentRest, Text.isIdentStart, hx] at hident
    cases hident
  exact ⟨hcombinator, ne_of_letter hx (by decide), ne_of_letter hx (by decide), hblank⟩

private theorem Scan.top_next_escape (u : List Char) :
    ((Scan.start.after u).next '\\').top = (Scan.start.after u).top :=
  Scan.top_next (Scan.after_sound .none u) rfl rfl rfl

/-- The character leaves the pseudo-element of the compound as it is. -/
private theorem Inert.foundNext (h : Inert u c x v) (hfound : elementStart .start 0 none u = found) :
    foundNext ((Scan.start.after u).next '\\') position found c v = found := by
  cases htop : (Scan.start.after u).top with
  | false => exact foundNext_of_open (by rw [Scan.top_next_escape, htop])
  | true =>
    cases hc : isCombinator c with
    | true =>
      rw [← hfound, h.combinator htop hc]
      simp [Style.foundNext, hc]
    | false =>
      by_cases hcolon : c = ':'
      · simp [Style.foundNext, hc, h.colon htop hcolon]
      · exact foundNext_of_ordinary hc hcolon

def moved (n m : Nat) : Nat := if m ≤ n then m else m + 1

private theorem Inert.elementStart (h : Inert u c x v) (hx : Text.isAlphabetic x = true) :
    elementStart .start 0 none (u ++ '\\' :: c :: v) =
      (Style.elementStart .start 0 none (u ++ x :: v)).map (moved u.length) := by
  obtain ⟨hcombinator, hcolon, -, -⟩ := ordinary_of_letter hx
  -- The backslash ends names as the end of the text does.
  have hend : foundAfter .start 0 none ('\\' :: c :: v) u = Style.elementStart .start 0 none u := by
    have hnil : Style.elementStart .start 0 none (u ++ []) = foundAfter .start 0 none [] u := elementStart_append
    rw [List.append_nil] at hnil
    rw [hnil]
    refine foundAfter_congr fun a b heq htop => ?_
    have hescape : ∀ d ∈ ('\\' :: c :: v).head?, d ≠ ':' ∧ isNameChar d = false := by
      rintro _ ⟨⟩
      decide
    rw [beginsElement_append hescape, List.append_nil]
  have hletter : foundAfter .start 0 none (x :: v) u = Style.elementStart .start 0 none u := by
    rw [← hend]
    exact foundAfter_congr fun a b heq htop => (h.name a b heq htop).symm
  -- What is found in `u` is found before the place of the pair, and does not move.
  have hkept : (Style.elementStart .start 0 none u).map (moved u.length) = Style.elementStart .start 0 none u := by
    have hlt : ∀ m ∈ Style.elementStart .start 0 none u, m < 0 + u.length := by
      rw [← hletter]
      exact foundAfter_lt nofun
    cases hfound : Style.elementStart .start 0 none u with
    | none => rfl
    | some m =>
      have hm := hlt m hfound
      exact congrArg some (if_pos (by omega))
  have hmoved (i : Nat) : moved u.length (0 + u.length + 1 + i) = 0 + u.length + 1 + 1 + i := by
    rw [moved, if_neg (by omega)]
    omega
  rw [elementStart_append, elementStart_append, hend, hletter, elementStart_cons, elementStart_cons,
    elementStart_cons, foundNext_of_ordinary (c := '\\') (by decide) (by decide), h.foundNext rfl, h.opens,
    foundNext_of_ordinary hcombinator hcolon, ← elementStart_map hmoved, hkept]

/-- An attribute is inserted at the same place around `p` as around `q`, which stand between `u` and `v`. -/
def SamePlace (u v p q : List Char) : Prop :=
  (∃ u₁ u₂, u = u₁ ++ u₂ ∧ ∀ attr,
    scopeSelector attr (u ++ p ++ v) = u₁ ++ '[' :: attr ++ ']' :: (u₂ ++ p ++ v) ∧
      scopeSelector attr (u ++ q ++ v) = u₁ ++ '[' :: attr ++ ']' :: (u₂ ++ q ++ v)) ∨
  ∃ v₁ v₂, v = v₁ ++ v₂ ∧ ∀ attr,
    scopeSelector attr (u ++ p ++ v) = u ++ p ++ v₁ ++ '[' :: attr ++ ']' :: v₂ ∧
      scopeSelector attr (u ++ q ++ v) = u ++ q ++ v₁ ++ '[' :: attr ++ ']' :: v₂

def place (cs : List Char) : Nat := (elementStart .start 0 none cs).getD cs.length

private theorem scopeSelector_eq (attr cs : List Char) :
    scopeSelector attr cs = cs.take (place cs) ++ '[' :: attr ++ ']' :: cs.drop (place cs) := by
  rw [scopeSelector, place]
  split
  · next heq => rw [heq, Option.getD_some]
  · next heq => simp [heq]

private theorem scopeSelector_ahead {mid : List Char} (h : place (u ++ mid ++ v) = n)
    (hn : n ≤ u.length) (attr : List Char) : scopeSelector attr (u ++ mid ++ v) =
      u.take n ++ '[' :: attr ++ ']' :: (u.drop n ++ mid ++ v) := by
  rw [scopeSelector_eq, h, List.append_assoc u, List.take_append_of_le_length hn,
    List.drop_append_of_le_length hn, List.append_assoc (u.drop n)]

private theorem scopeSelector_behind {mid : List Char}
    (h : place (u ++ mid ++ v) = (u ++ mid).length + n) (attr : List Char) :
    scopeSelector attr (u ++ mid ++ v) =
      u ++ mid ++ v.take n ++ '[' :: attr ++ ']' :: v.drop n := by
  rw [scopeSelector_eq, h, List.take_length_add_append, List.drop_length_add_append]

private theorem Inert.place (h : Inert u c x v) (hx : Text.isAlphabetic x = true) :
    place (u ++ ['\\', c] ++ v) = moved u.length (place (u ++ [x] ++ v)) := by
  have hstart : Style.elementStart .start 0 none (u ++ ['\\', c] ++ v) =
      (Style.elementStart .start 0 none (u ++ [x] ++ v)).map (moved u.length) := by
    simpa using h.elementStart hx
  rw [Style.place, Style.place, hstart]
  cases Style.elementStart .start 0 none (u ++ [x] ++ v) with
  | none =>
    have hlength : ¬ (u ++ [x] ++ v).length ≤ u.length := by simp
    rw [Option.map_none, Option.getD_none, Option.getD_none, moved, if_neg hlength]
    simp only [List.length_append, List.length_cons, List.length_nil]
    omega
  | some m => rfl

private theorem Inert.samePlace (h : Inert u c x v) (hx : Text.isAlphabetic x = true) :
    SamePlace u v ['\\', c] [x] := by
  have hplace := h.place hx
  rw [moved] at hplace
  split at hplace
  · next hle =>
    exact .inl ⟨_, _, (List.take_append_drop _ u).symm, fun attr =>
      ⟨scopeSelector_ahead hplace hle attr, scopeSelector_ahead rfl hle attr⟩⟩
  · next hlt =>
    obtain ⟨k, hk⟩ := Nat.exists_eq_add_of_lt (Nat.lt_of_not_le hlt)
    have hletter : Style.place (u ++ [x] ++ v) = (u ++ [x]).length + k := by
      rw [hk, List.length_append, List.length_singleton]
      omega
    have hescaped : Style.place (u ++ ['\\', c] ++ v) = (u ++ ['\\', c]).length + k := by
      rw [hplace, hk, List.length_append, List.length_cons, List.length_singleton]
      omega
    exact .inr ⟨_, _, (List.take_append_drop k v).symm, fun attr =>
      ⟨scopeSelector_behind hescaped attr, scopeSelector_behind hletter attr⟩⟩

private theorem isNameChar_of_blank (h : Text.isBlank c = true) : c ≠ ':' ∧ isNameChar c = false := by
  have hhyphen : c ≠ '-' := ne_of_blank h (by decide)
  exact ⟨ne_of_blank h (by decide), by simp [isNameChar, Text.isAlphanumeric_of_isBlank h, hhyphen]⟩

/-- Nothing but white space follows in the same part of a list of selectors. -/
def EndsPart (s : Scan) (cs : List Char) : Prop :=
  ∃ w rest, cs = w ++ rest ∧ Blank w ∧ ∀ d ∈ rest.head?, s.top = true ∧ d = ','

private theorem endsPart_nil : EndsPart s [] := ⟨[], [], rfl, blank_nil, by simp⟩

private theorem Inert.not_blank {qs : List (List Char)} (h : Inert u c x back)
    (hfirst : FirstPart ((Scan.start.after u).next x) back v qs)
    (hblank : Text.isBlank c = true → ¬ EndsPart (Scan.start.after u) back) (hv : Blank v) :
    Text.isBlank c = false := by
  obtain ⟨rest, hback, hrest⟩ := hfirst.eq
  refine Bool.eq_false_iff.2 fun hc => hblank hc ⟨v, rest, hback, hv, fun d hd => ?_⟩
  obtain ⟨hquote, -, hopens, hcloses⟩ := ordinary_of_blank hc
  have hsound : ((Scan.start.after u).next '\\').quoting.Sound := Scan.next_sound (Scan.after_sound .none u) _
  have htop := (hrest d hd).1
  rw [← h.opens, Scan.top_after_blank (Scan.next_sound hsound c) hv, Scan.top_next hsound hquote hopens hcloses,
    Scan.top_next_escape] at htop
  exact ⟨htop, (hrest d hd).2⟩

/-- White space around the selector does not matter, nor do other selectors. -/
private theorem Inert.trim {qs : List (List Char)} (h : Inert u c x back)
    (hfirst : FirstPart s back v qs) :
    Inert (Text.trimStart u) c x (Text.trimEnd v) := by
  obtain ⟨rest, hback, hrest⟩ := hfirst.eq
  obtain ⟨w, hw, hu⟩ := exists_blank_trimStart u
  obtain ⟨w', hw', hv⟩ := exists_blank_trimEnd v
  have hwhole : Inert (w ++ Text.trimStart u) c x (Text.trimEnd v ++ (w' ++ rest)) := by
    rwa [← hu, ← List.append_assoc, ← hv, ← hback]
  refine hwhole.part hw fun d hd => ?_
  rw [List.head?_append, Option.mem_def, Option.or_eq_some_iff] at hd
  obtain hd | ⟨-, hd⟩ := hd
  · exact isNameChar_of_blank (hw' d (List.mem_of_mem_head? hd))
  · rw [(hrest d hd).2]
    decide

/-- No sign is found in a backslash and a character that is no such sign where it stands. -/
private theorem cutTop?_escaped (hescape : p '\\' = false)
    (hc : (Scan.start.after u).top = true → p c = false) :
    cutTop? p (Scan.start.after u) ['\\', c] = none := by
  have hpass : (((Scan.start.after u).next '\\').top && p c) = false := by
    rwa [Scan.top_next_escape, Bool.and_eq_false_iff, or_iff_not_imp_left, Bool.not_eq_false]
  rw [cutTop?_step (Bool.and_eq_false_iff.2 (.inr hescape)), cutTop?_step hpass]
  rfl

/-! The list in its rule. -/

private theorem Unmarked.escaped (h : Unmarked (front ++ x :: back))
    (hslash : c = '/' → '*' ∉ back.head?) :
    Unmarked (front ++ '\\' :: c :: back) := by
  have hfront : Unmarked front := fun hin => h (hin.trans (List.prefix_append _ _).isInfix)
  have hback : Unmarked back := fun hin => h (hin.trans ⟨front ++ [x], [], by simp⟩)
  have hpair : Unmarked (c :: back) := by
    refine unmarked_singleton.append hback ?_
    by_cases hc : c = '/'
    · exact .inr (hslash hc)
    · exact .inl fun hlast => hc (Option.some.inj hlast)
  exact hfront.append (hpair.cons (by decide)) (.inr (by simp))

private theorem Skips.escaped (h : Skips isStop (front ++ x :: back))
    (hopens : ((Scan.start.after front).next '\\').next c = (Scan.start.after front).next x)
    (hc : (Scan.start.after front).top = true → isStop c = false) :
    Skips isStop (front ++ '\\' :: c :: back) := by
  have hnone := h.none_found
  rw [List.append_cons, cutTop?_append_eq_none, Scan.after_append] at hnone
  have hafter : Scan.start.after (front ++ '\\' :: c :: back) = Scan.start.after (front ++ x :: back) := by
    simp [hopens]
  have hpair : cutTop? isStop (Scan.start.after front) (['\\', c] ++ back) = none :=
    cutTop?_append_eq_none.2 ⟨cutTop?_escaped (by decide) hc, by simpa [hopens] using hnone.2⟩
  have hwhole : cutTop? isStop .start (front ++ '\\' :: c :: back) = none :=
    cutTop?_append_eq_none.2 ⟨(cutTop?_append_eq_none.1 hnone.1).1, hpair⟩
  intro rest
  rw [cutTop?_append hwhole, hafter, h.after (c := ';') rfl]

private theorem Listed.escaped (h : Listed (front ++ x :: back))
    (hopens : ((Scan.start.after front).next '\\').next c = (Scan.start.after front).next x)
    (hc : (Scan.start.after front).top = true → isStop c = false) (hslash : c = '/' → '*' ∉ back.head?)
    (hend : back = [] → Text.isBlank c = false) : Listed (front ++ '\\' :: c :: back) := by
  refine ⟨by simp, ⟨?_, ?_⟩, ?_, h.unmarked.escaped hslash, h.stops.escaped hopens hc⟩
  · cases front with
    | nil =>
      rintro _ ⟨⟩
      decide
    | cons d front => exact h.trimmed.first
  · cases back with
    | nil =>
      have hlast : (front ++ ['\\', c]).getLast? = some c := by simp
      rw [hlast]
      rintro _ ⟨⟩
      exact hend rfl
    | cons d back =>
      have hlast (cs : List Char) : (front ++ (cs ++ d :: back)).getLast? = (d :: back).getLast? := by
        rw [← List.append_assoc, List.getLast?_append_of_ne_nil _ (List.cons_ne_nil d back)]
      have hletter := h.trimmed.last
      rw [← List.singleton_append, hlast] at hletter
      exact (hlast ['\\', c]).symm ▸ hletter
  · cases front with
    | nil =>
      rintro _ ⟨⟩
      decide
    | cons d front => exact h.sign

/-- A letter in the place of a backslash and a character changes neither where a list of selectors is split
nor where an attribute is inserted, if the character means nothing where it stands and is no white space at
the end of its selector. Before the block of a rule the list is the same too, unless it ends or a comment
begins at the character. -/
theorem scope_escaped (hx : Text.isAlphabetic x = true) (hfront : splitTop ',' front = ps ++ [u])
    (h : Inert u c x back) (hblank : Text.isBlank c = true → ¬ EndsPart (Scan.start.after u) back) :
    ∃ ss u' v ss', u' <:+ front ∧ v <+: back ∧
      readSelectors (front ++ '\\' :: c :: back) = ss ++ (u' ++ ['\\', c] ++ v) :: ss' ∧
      readSelectors (front ++ x :: back) = ss ++ (u' ++ [x] ++ v) :: ss' ∧
      SamePlace u' v ['\\', c] [x] ∧
      ∀ body attr, Listed (front ++ x :: back) → ((Scan.start.after u).top = true → isStop c = false) →
        (c = '/' → '*' ∉ back.head?) → Trimmed body → Block body → Unmarked body →
        scope (sheetOf (front ++ '\\' :: c :: back) body) attr =
            scopedRule attr (ss ++ (u' ++ ['\\', c] ++ v) :: ss') body ∧
          scope (sheetOf (front ++ x :: back) body) attr =
            scopedRule attr (ss ++ (u' ++ [x] ++ v) :: ss') body := by
  obtain ⟨-, -, hcomma, hletter⟩ := ordinary_of_letter hx
  obtain ⟨l, hlast⟩ := exists_lastPart hfront
  obtain ⟨v, qs, hfirst⟩ := exists_firstPart ((Scan.start.after u).next x) back
  obtain ⟨rest, hback, -⟩ := hfirst.eq
  have hescaped : readSelectors (front ++ '\\' :: c :: back) =
      selectorsOf ps ++ (Text.trimStart u ++ ['\\', c] ++ Text.trimEnd v) :: selectorsOf qs := by
    have hpair : cutTop? (· == ',') (Scan.start.after u) ['\\', c] = none :=
      cutTop?_escaped rfl fun htop => beq_eq_false_iff_ne.2 (h.comma htop)
    have hread := readSelectors_part hlast hfirst hpair h.opens (List.cons_ne_nil _ _)
      (by rintro _ ⟨⟩; decide) (fun hv => by rintro _ ⟨⟩; exact h.not_blank hfirst hblank hv)
    simpa using hread
  have hsingle : readSelectors (front ++ x :: back) =
      selectorsOf ps ++ (Text.trimStart u ++ [x] ++ Text.trimEnd v) :: selectorsOf qs := by
    have hone : cutTop? (· == ',') (Scan.start.after u) [x] = none := by simp [cutTop?, hcomma]
    have hread := readSelectors_part hlast hfirst hone rfl (List.cons_ne_nil _ _)
      (by rintro _ ⟨⟩; exact hletter) (fun _ => by rintro _ ⟨⟩; exact hletter)
    simpa using hread
  refine ⟨selectorsOf ps, Text.trimStart u, Text.trimEnd v, selectorsOf qs, ?_, ?_, hescaped, hsingle,
    (h.trim hfirst).samePlace hx, fun body attr hlisted hstop hslash htrimmed hblock hunmarked => ⟨?_, ?_⟩⟩
  · exact (Text.trimStart_suffix u).trans ⟨l, hlast.eq.symm⟩
  · exact (Text.trimEnd_isPrefix v).trans ⟨rest, hback.symm⟩
  · have hstate : Scan.start.after front = Scan.start.after u := by
      rw [hlast.eq, Scan.after_append, hlast.start]
    have hends (hnil : back = []) : Text.isBlank c = false :=
      Bool.eq_false_iff.2 fun hc => hblank hc (hnil ▸ endsPart_nil)
    have hlisted' := hlisted.escaped (by rw [hstate, h.opens]) (by rwa [hstate]) hslash hends
    rw [scope_sheetOf hlisted' htrimmed hblock hunmarked, hescaped]
  · rw [scope_sheetOf hlisted htrimmed hblock hunmarked, hsingle]

def sampleFront : List Char := ".a::before, ul > [b=\"\\:,\"]:hover .sm".toList

def sampleBack : List Char := "hover:w-4::after\t, p".toList

private theorem listed_sample : Listed (sampleFront ++ 'x' :: sampleBack) := by
  have hvalue : Quoted '"' "\\:,\"".toList := .escaped ':' (.plain ",".toList _ (forall_mem_of_all rfl) .close)
  have hbrackets : Balanced (fun _ => false) "b=\"\\:,\"".toList :=
    .plain "b=".toList _ (forall_mem_of_all rfl) (.string rfl hvalue .nil)
  have hbalanced : Balanced (· == ';')
      ".a::before, ul > [b=\"\\:,\"]:hover .smxhover:w-4::after\t, p".toList :=
    .plain ".a::before, ul > ".toList _ (forall_mem_of_all rfl) (.brackets rfl hbrackets rfl
      (.plain ":hover .smxhover:w-4::after\t, p".toList [] (forall_mem_of_all rfl) .nil))
  exact ⟨by decide, by decide, by rintro _ ⟨⟩; decide, by decide, hbalanced.skips_stops rfl⟩

theorem scope_escaped_sample :
    Text.isAlphabetic 'x' = true ∧
      splitTop ',' sampleFront = [".a::before".toList] ++ [" ul > [b=\"\\:,\"]:hover .sm".toList] ∧
      Inert " ul > [b=\"\\:,\"]:hover .sm".toList ':' 'x' sampleBack ∧
      (Text.isBlank ':' = true →
        ¬ EndsPart (Scan.start.after " ul > [b=\"\\:,\"]:hover .sm".toList) sampleBack) ∧
      ∃ ss u v ss', u <:+ sampleFront ∧ v <+: sampleBack ∧
        readSelectors (sampleFront ++ '\\' :: ':' :: sampleBack) = ss ++ (u ++ ['\\', ':'] ++ v) :: ss' ∧
        readSelectors (sampleFront ++ 'x' :: sampleBack) = ss ++ (u ++ ['x'] ++ v) :: ss' ∧
        SamePlace u v ['\\', ':'] ['x'] ∧
        scope (sheetOf (sampleFront ++ '\\' :: ':' :: sampleBack) "top: 0".toList) "s" =
            scopedRule "s" (ss ++ (u ++ ['\\', ':'] ++ v) :: ss') "top: 0".toList ∧
          scope (sheetOf (sampleFront ++ 'x' :: sampleBack) "top: 0".toList) "s" =
            scopedRule "s" (ss ++ (u ++ ['x'] ++ v) :: ss') "top: 0".toList := by
  have hx : Text.isAlphabetic 'x' = true := by decide
  have hfront : splitTop ',' sampleFront = [".a::before".toList] ++ [" ul > [b=\"\\:,\"]:hover .sm".toList] := by
    decide +kernel
  have hinert : Inert " ul > [b=\"\\:,\"]:hover .sm".toList ':' 'x' sampleBack := by decide +kernel
  have hcolon : Text.isBlank ':' = false := by decide
  have hblank : Text.isBlank ':' = true →
      ¬ EndsPart (Scan.start.after " ul > [b=\"\\:,\"]:hover .sm".toList) sampleBack := by
    rw [hcolon]
    exact nofun
  have hbody : Block "top: 0".toList := .plain "top: 0".toList [] (forall_mem_of_all rfl) .nil
  obtain ⟨ss, u, v, ss', hu, hv, hescaped, hletter, hplace, hscope⟩ := scope_escaped hx hfront hinert hblank
  exact ⟨hx, hfront, hinert, hblank, ss, u, v, ss', hu, hv, hescaped, hletter, hplace,
    hscope _ _ listed_sample (fun _ => rfl) nofun (by decide) hbody (by decide)⟩

/-- An escaped colon that is read as that of a pseudo-element, and an escaped comma as one between selectors. -/
theorem escaped_colon_and_comma :
    scope ".sm\\:before \x7b top: 0 \x7d" "s" = ".sm\\[s]:before \x7b top: 0 \x7d" ∧
      scope ".smxbefore \x7b top: 0 \x7d" "s" = ".smxbefore[s] \x7b top: 0 \x7d" ∧
      scope ".a\\,b \x7b top: 0 \x7d" "s" = ".a\\[s], b[s] \x7b top: 0 \x7d" ∧
      scope ".axb \x7b top: 0 \x7d" "s" = ".axb[s] \x7b top: 0 \x7d" := by
  decide +kernel

end LiveMarkup.Style
