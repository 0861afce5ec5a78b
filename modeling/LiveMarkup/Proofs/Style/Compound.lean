import LiveMarkup.Proofs.Style.Layout
import LiveMarkup.Proofs.Text.Lower

/-! Selectors as compounds with combinators between them, and that an attribute is required of the last
compound, between its head and its pseudo-element. -/

namespace LiveMarkup.Style

variable {c quote : Char} {cs ds rest word attr : List Char} {s : Scan} {position n : Nat}
  {found : Option Nat} {stop : Char → Bool}

/-! Names of pseudo-elements. -/

def isNameChar (c : Char) : Bool := Text.isAlphanumeric c || c == '-'

/-- No name goes on at the beginning of the text. -/
def EndsName (rest : List Char) : Prop := ∀ c ∈ rest.head?, isNameChar c = false

/-- The text begins with the name of a pseudo-element that may be written with a single colon, in letters of
either case, and the name ends there. -/
def NamesElement (cs : List Char) : Prop :=
  ∃ name rest, cs = name ++ rest ∧ String.ofList (name.map Char.toLower) ∈ singleColonElements ∧
    EndsName rest

private theorem takeWhile_append_of_stops {p : Char → Bool} (h : ∀ c ∈ rest.head?, p c = false)
    (cs : List Char) :
    (cs ++ rest).takeWhile p = cs.takeWhile p := by
  induction cs with
  | nil =>
    cases rest with
    | nil => rfl
    | cons c rest => exact List.takeWhile_cons_of_neg (by simp [h c rfl])
  | cons c cs ih => rw [List.cons_append, List.takeWhile_cons, List.takeWhile_cons, ih]

/-- What follows the name does not matter. -/
theorem namesElement_append (h : EndsName rest) (cs : List Char) :
    namesElement (cs ++ rest) = namesElement cs := by
  have htake : (cs ++ rest).takeWhile isNameChar = cs.takeWhile isNameChar := takeWhile_append_of_stops h cs
  exact congrArg (fun name => singleColonElements.contains (Text.lower (String.ofList name))) htake

private theorem isNameChar_of_toLower (h : c.toLower.toNat < 0x80 ∧ isNameChar c.toLower = true) :
    isNameChar c = true := by
  have hall : ∀ n < 0x80, isNameChar (Char.ofNat n).toLower = true → isNameChar (Char.ofNat n) = true := by
    decide
  have hc := hall c.toNat (Text.toNat_of_toLower h.1)
  rw [Char.ofNat_toNat] at hc
  exact hc h.2

private theorem ordinary_of_element {name : String} (h : name ∈ singleColonElements) :
    ∀ d ∈ name.toList, d.toNat < 0x80 ∧ d ≠ 'k' ∧ isNameChar d = true := by
  have hall : ∀ name ∈ singleColonElements,
      (name.toList.all fun d => decide (d.toNat < 0x80 ∧ d ≠ 'k' ∧ isNameChar d = true)) = true := by decide
  exact forall_mem_of_all (hall name h)

/-- The names of pseudo-elements, in letters of either case. -/
private theorem lower_mem_singleColonElements (name : List Char) :
    Text.lower (String.ofList name) ∈ singleColonElements ↔
      String.ofList (name.map Char.toLower) ∈ singleColonElements := by
  have hsame (w : String) (hw : w ∈ singleColonElements) :
      Text.lower (String.ofList name) = w ↔ String.ofList (name.map Char.toLower) = w := by
    rw [Text.lower, String.toList_ofList, ← String.toList_inj, ← String.toList_inj, String.toList_ofList,
      String.toList_ofList]
    exact Text.lowerAfter_eq_iff fun d hd => (ordinary_of_element hw d hd).imp_right And.left
  constructor
  · intro h
    rwa [(hsame _ h).1 rfl]
  · intro h
    rwa [(hsame _ h).2 rfl]

private theorem namesElement_iff : namesElement cs = true ↔ NamesElement cs := by
  have htake : namesElement cs = singleColonElements.contains
      (Text.lower (String.ofList (cs.takeWhile isNameChar))) := rfl
  rw [htake, List.contains_iff_mem, lower_mem_singleColonElements]
  constructor
  · intro h
    refine ⟨_, cs.dropWhile isNameChar, List.takeWhile_append_dropWhile.symm, h, fun c hc => ?_⟩
    have hstops := List.head?_dropWhile_not isNameChar cs
    rw [hc] at hstops
    simpa using hstops
  · rintro ⟨name, rest, rfl, hname, hrest⟩
    have hchars (c : Char) (hc : c ∈ name) : isNameChar c = true := by
      have hmem : c.toLower ∈ (String.ofList (name.map Char.toLower)).toList := by
        rw [String.toList_ofList]
        exact List.mem_map_of_mem hc
      exact isNameChar_of_toLower ((ordinary_of_element hname _ hmem).imp_right And.right)
    have hwhole : (name ++ rest).takeWhile isNameChar = name := by
      have hnone : rest.takeWhile isNameChar = [] := takeWhile_append_of_stops hrest []
      rw [List.takeWhile_append_of_pos hchars, hnone, List.append_nil]
    rwa [hwhole]

instance (cs : List Char) : Decidable (NamesElement cs) := decidable_of_iff _ namesElement_iff

/-! The search for the pseudo-element of the last compound. -/

def beginsElement (cs : List Char) : Bool := cs.head? == some ':' || namesElement cs

/-- The pseudo-element of the compound after one more character, which `cs` follows. -/
def foundNext (s : Scan) (position : Nat) (found : Option Nat) (c : Char) (cs : List Char) : Option Nat :=
  if !s.top then found
  else if isCombinator c then none
  else if c == ':' && found.isNone && beginsElement cs then some position
  else found

theorem elementStart_cons : elementStart s position found (c :: cs) =
    elementStart (s.next c) (position + 1) (foundNext s position found c cs) cs := rfl

theorem foundNext_of_open (h : s.top = false) : foundNext s position found c cs = found := by
  rw [foundNext, h]
  rfl

theorem foundNext_of_ordinary (hcombinator : isCombinator c = false) (hcolon : c ≠ ':') :
    foundNext s position found c cs = found := by
  simp [foundNext, hcombinator, hcolon]

/-- The first pseudo-element is kept up to the next combinator. -/
private theorem foundNext_some (hcombinator : isCombinator c = false) :
    foundNext s position (some n) c cs = some n := by
  simp [foundNext, hcombinator]

private theorem elementStart_congr {position' : Nat} (h : position = position') :
    elementStart s position found cs = elementStart s position' found cs := by rw [h]

private theorem elementStart_hidden (h : s.Hides cs) : elementStart s position found (cs ++ rest) =
    elementStart (s.after cs) (position + cs.length) found rest := by
  induction cs generalizing s position with
  | nil => rfl
  | cons c cs ih =>
    rw [List.cons_append, elementStart_cons, foundNext_of_open h.1, ih h.2, List.length_cons, Nat.add_assoc,
      Nat.add_comm 1, Scan.after_cons]

/-- A text of closed strings and balanced brackets, with no backslash outside strings, and without the
characters of `stop` outside strings and brackets. -/
inductive Bracketed : (Char → Bool) → List Char → Prop where
  | nil {stop : Char → Bool} : Bracketed stop []
  | char {stop : Char → Bool} {c : Char} {cs : List Char} (hquote : isQuote c = false) (hescape : c ≠ '\\')
    (hopens : opensBracket c = false) (hcloses : closesBracket c = false) (hstop : stop c = false)
    (h : Bracketed stop cs) : Bracketed stop (c :: cs)
  | string {stop : Char → Bool} {quote : Char} {s cs : List Char} (hquote : isQuote quote = true)
    (hs : Quoted quote s) (h : Bracketed stop cs) : Bracketed stop (quote :: (s ++ cs))
  | brackets {stop : Char → Bool} {o c : Char} {inner cs : List Char} (ho : opensBracket o = true)
    (hinner : Bracketed (fun _ => false) inner) (hc : closesBracket c = true) (h : Bracketed stop cs) :
    Bracketed stop (o :: (inner ++ c :: cs))

theorem Balanced.bracketed (h : Balanced stop cs) : Bracketed stop cs := by
  induction h with
  | nil => exact .nil
  | char hquote hescape _ hopens hcloses hstop _ ih => exact .char hquote hescape hopens hcloses hstop ih
  | string hquote hs _ ih => exact .string hquote hs ih
  | brackets ho _ hc _ ihinner ih => exact .brackets ho ihinner hc ih

theorem Quoted.after (h : Quoted quote cs) (hquote : isQuote quote = true) (depth : Nat) :
    Scan.after ⟨.none, depth⟩ (quote :: cs) = ⟨.none, depth⟩ := by
  have hafter : Scan.after ⟨⟨some quote, false⟩, depth⟩ cs = ⟨.none, depth⟩ := (h.hides hquote).2
  rw [Scan.after_cons, Scan.next_quote hquote, hafter]

/-- The same is open after the text as before it. -/
theorem Bracketed.after (h : Bracketed stop cs) (depth : Nat) :
    Scan.after ⟨.none, depth⟩ cs = ⟨.none, depth⟩ := by
  induction h generalizing depth with
  | nil => rfl
  | char hquote _ hopens hcloses _ _ ih => rw [Scan.after_cons, Scan.next_closed hquote hopens hcloses, ih]
  | string hquote hs _ ih => rw [← List.cons_append, Scan.after_append, hs.after hquote, ih]
  | brackets ho _ hc _ ihinner ih =>
    rw [Scan.after_cons, Scan.next_opens ho, Scan.after_append, ihinner, Scan.after_cons, Scan.next_closes hc]
    exact ih depth

/-- In brackets, all of the text is hidden. -/
private theorem Bracketed.hides (h : Bracketed stop cs) (depth : Nat) :
    Scan.Hides ⟨.none, depth + 1⟩ cs := by
  induction h generalizing depth with
  | nil => exact trivial
  | char hquote _ hopens hcloses _ _ ih =>
    rw [Scan.Hides, Scan.next_closed hquote hopens hcloses]
    exact ⟨rfl, ih depth⟩
  | @string _ quote s cs hquote hs _ ih =>
    have hstring : Scan.Hides ⟨⟨some quote, false⟩, depth + 1⟩ s ∧ _ := hs.hides hquote
    rw [Scan.Hides, Scan.next_quote hquote]
    exact ⟨rfl, hstring.1.append (hstring.2 ▸ ih depth)⟩
  | brackets ho hinner hc _ ihinner ih =>
    rw [Scan.Hides, Scan.next_opens ho]
    refine ⟨rfl, (ihinner (depth + 1)).append ?_⟩
    rw [hinner.after, Scan.Hides, Scan.next_closes hc]
    exact ⟨rfl, ih depth⟩

/-! Strings and brackets that stand at the top. -/

private theorem elementStart_string (hquote : isQuote quote = true) (hs : Quoted quote cs) :
    elementStart .start position found (quote :: (cs ++ rest)) =
      elementStart .start (position + (cs.length + 1)) found rest := by
  have hsigns : isCombinator quote = false ∧ quote ≠ ':' := by
    simp only [isQuote, Bool.or_eq_true, beq_iff_eq] at hquote
    obtain rfl | rfl := hquote <;> decide
  have hstring : Scan.Hides ⟨⟨some quote, false⟩, 0⟩ cs ∧ _ := hs.hides hquote
  rw [elementStart_cons, foundNext_of_ordinary hsigns.1 hsigns.2, Scan.start, Scan.next_quote hquote,
    elementStart_hidden hstring.1, hstring.2, Nat.add_assoc, Nat.add_comm 1]

private theorem elementStart_brackets {o : Char} (ho : opensBracket o = true)
    (hcs : Bracketed (fun _ => false) cs) (hc : closesBracket c = true) :
    elementStart .start position found (o :: (cs ++ c :: rest)) =
      elementStart .start (position + (cs.length + 2)) found rest := by
  have hsigns : isCombinator o = false ∧ o ≠ ':' := by
    simp only [opensBracket, Bool.or_eq_true, beq_iff_eq] at ho
    obtain rfl | rfl := ho <;> decide
  rw [elementStart_cons, foundNext_of_ordinary hsigns.1 hsigns.2, Scan.start, Scan.next_opens ho,
    elementStart_hidden (hcs.hides 0), hcs.after, elementStart_cons, foundNext_of_open rfl, Scan.next_closes hc]
  exact elementStart_congr (by omega)

/-- Once a compound has a pseudo-element, the rest of it is passed over. -/
private theorem Bracketed.elementStart (h : Bracketed stop cs) (hstop : stop = isCombinator) :
    elementStart .start position (some n) (cs ++ rest) =
      Style.elementStart .start (position + cs.length) (some n) rest := by
  induction h generalizing position with
  | nil => rfl
  | @char stop c cs hquote _ hopens hcloses hc _ ih =>
    rw [List.cons_append, elementStart_cons, foundNext_some (hstop ▸ hc), Scan.start,
      Scan.next_closed hquote hopens hcloses, ← Scan.start, ih hstop, List.length_cons, Nat.add_assoc,
      Nat.add_comm 1]
  | string hquote hs _ ih =>
    rw [List.cons_append, List.append_assoc, elementStart_string hquote hs, ih hstop, List.length_cons,
      List.length_append]
    exact elementStart_congr (by omega)
  | brackets ho hinner hc _ _ ih =>
    rw [List.cons_append, List.append_assoc, List.cons_append, elementStart_brackets ho hinner hc, ih hstop,
      List.length_cons, List.length_append, List.length_cons]
    exact elementStart_congr (by omega)

/-! Compounds. -/

/-- The head of a compound: types, classes, identifiers, attributes in brackets and pseudo-classes, which
may have arguments in brackets, but no combinators and no pseudo-elements. -/
inductive Head : List Char → Prop where
  | nil : Head []
  | char {c : Char} {cs : List Char} (hquote : isQuote c = false) (hescape : c ≠ '\\')
    (hopens : opensBracket c = false) (hcloses : closesBracket c = false)
    (hcombinator : isCombinator c = false) (hcolon : c ≠ ':') (h : Head cs) : Head (c :: cs)
  | string {quote : Char} {s cs : List Char} (hquote : isQuote quote = true) (hs : Quoted quote s)
    (h : Head cs) : Head (quote :: (s ++ cs))
  | brackets {o c : Char} {inner cs : List Char} (ho : opensBracket o = true)
    (hinner : Bracketed (fun _ => false) inner) (hc : closesBracket c = true) (h : Head cs) :
    Head (o :: (inner ++ c :: cs))
  | pseudoClass {c : Char} {cs : List Char} (hc : c ≠ ':') (hname : ¬ NamesElement (c :: cs))
    (h : Head (c :: cs)) : Head (':' :: c :: cs)

/-- The tail of a compound: nothing, or a pseudo-element and whatever follows it without a combinator. -/
inductive Tail : List Char → Prop where
  | nil : Tail []
  | double {cs : List Char} (h : Bracketed isCombinator cs) : Tail (':' :: ':' :: cs)
  | single {cs : List Char} (hname : NamesElement cs) (h : Bracketed isCombinator cs) : Tail (':' :: cs)

structure Compound where
  head : List Char
  tail : List Char

namespace Compound

def text (p : Compound) : List Char := p.head ++ p.tail

structure WellFormed (p : Compound) : Prop where
  head : Head p.head
  tail : Tail p.tail

end Compound

structure Combinators (w : List Char) : Prop where
  ne : w ≠ []
  all : ∀ c ∈ w, isCombinator c = true

def leading (compounds : List (Compound × List Char)) : List Char :=
  compounds.flatMap fun p => p.1.text ++ p.2

private theorem isNameChar_of_combinator (h : isCombinator c = true) : isNameChar c = false := by
  simp only [isCombinator, Bool.or_eq_true, beq_iff_eq] at h
  obtain ((((rfl | rfl) | rfl) | rfl) | rfl) | rfl := h <;> decide

@[simp] theorem Scan.top_start : Scan.start.top = true := rfl

private theorem Scan.next_colon : Scan.next .start ':' = .start := rfl

private theorem Head.elementStart (h : Head cs) (hrest : EndsName rest) :
    elementStart .start position none (cs ++ rest) =
      Style.elementStart .start (position + cs.length) none rest := by
  induction h generalizing position with
  | nil => rfl
  | char hquote _ hopens hcloses hcombinator hcolon _ ih =>
    rw [List.cons_append, elementStart_cons, foundNext_of_ordinary hcombinator hcolon, Scan.start,
      Scan.next_closed hquote hopens hcloses, ← Scan.start, ih, List.length_cons, Nat.add_assoc,
      Nat.add_comm 1]
  | string hquote hs _ ih =>
    rw [List.cons_append, List.append_assoc, elementStart_string hquote hs, ih, List.length_cons,
      List.length_append]
    exact elementStart_congr (by omega)
  | brackets ho hinner hc _ ih =>
    rw [List.cons_append, List.append_assoc, List.cons_append, elementStart_brackets ho hinner hc, ih,
      List.length_cons, List.length_append, List.length_cons]
    exact elementStart_congr (by omega)
  | @pseudoClass c cs hc hname _ ih =>
    have hnone : namesElement (c :: cs ++ rest) = false := by
      rw [namesElement_append hrest]
      exact Bool.eq_false_iff.2 (mt namesElement_iff.1 hname)
    have hfound : foundNext .start position none ':' (c :: cs ++ rest) = none := by
      rw [foundNext, beginsElement, hnone]
      simp [isCombinator, hc]
    rw [List.cons_append, elementStart_cons, hfound, Scan.next_colon, ih]
    exact elementStart_congr (by simp only [List.length_cons]; omega)

private theorem Tail.endsName (h : Tail cs) (hrest : EndsName rest) : EndsName (cs ++ rest) := by
  cases h with
  | nil => exact hrest
  | double | single =>
    rintro _ ⟨⟩
    decide

private theorem Tail.elementStart (h : Tail cs) (hrest : EndsName rest) :
    elementStart .start position none (cs ++ rest) =
      Style.elementStart .start (position + cs.length) (if cs = [] then none else some position) rest := by
  cases h with
  | nil => rfl
  | @double cs h =>
    have hfound : foundNext .start position none ':' (':' :: (cs ++ rest)) = some position := rfl
    rw [List.cons_append, List.cons_append, elementStart_cons, hfound, Scan.next_colon, elementStart_cons,
      foundNext_some (by decide), Scan.next_colon, h.elementStart rfl, if_neg (List.cons_ne_nil _ _)]
    exact elementStart_congr (by simp only [List.length_cons]; omega)
  | @single cs hname h =>
    have hnames : namesElement (cs ++ rest) = true := by
      rw [namesElement_append hrest]
      exact namesElement_iff.2 hname
    have hfound : foundNext .start position none ':' (cs ++ rest) = some position := by
      rw [foundNext, beginsElement, hnames]
      simp [isCombinator]
    rw [List.cons_append, elementStart_cons, hfound, Scan.next_colon, h.elementStart rfl,
      if_neg (List.cons_ne_nil _ _)]
    exact elementStart_congr (by simp only [List.length_cons]; omega)

/-- Where the tail of a compound begins that begins at a position, if it has one. -/
def Compound.element? (p : Compound) (position : Nat) : Option Nat :=
  if p.tail = [] then none else some (position + p.head.length)

private theorem Compound.WellFormed.elementStart {p : Compound} (h : p.WellFormed)
    (hrest : EndsName rest) :
    elementStart .start position none (p.text ++ rest) =
      Style.elementStart .start (position + p.text.length) (p.element? position) rest := by
  have hends : EndsName (p.tail ++ rest) := h.tail.endsName hrest
  have hhead : Style.elementStart .start position none (p.head ++ (p.tail ++ rest)) = _ :=
    h.head.elementStart hends
  have htail : Style.elementStart .start (position + p.head.length) none (p.tail ++ rest) = _ :=
    h.tail.elementStart hrest
  rw [text, List.append_assoc, hhead, htail, List.length_append, Nat.add_assoc, element?]

/-! Selectors. -/

private theorem Combinators.elementStart (h : Combinators w) :
    elementStart .start position found (w ++ rest) =
      Style.elementStart .start (position + w.length) none rest := by
  obtain ⟨hne, hall⟩ := h
  induction w generalizing position found with
  | nil => exact absurd rfl hne
  | cons c w ih =>
    obtain ⟨hc, hw⟩ := List.forall_mem_cons.1 hall
    have hfound : foundNext .start position found c (w ++ rest) = none := by simp [foundNext, hc]
    have hnext : Scan.next .start c = .start := by
      simp only [isCombinator, Bool.or_eq_true, beq_iff_eq] at hc
      obtain ((((rfl | rfl) | rfl) | rfl) | rfl) | rfl := hc <;> rfl
    rw [List.cons_append, elementStart_cons, hfound, hnext]
    cases w with
    | nil => rfl
    | cons d w =>
      rw [ih (List.cons_ne_nil _ _) hw]
      exact elementStart_congr (by simp only [List.length_cons]; omega)

private theorem Combinators.endsName (h : Combinators w) : EndsName (w ++ rest) := by
  obtain ⟨c, w, rfl⟩ := List.exists_cons_of_ne_nil h.ne
  rintro _ ⟨⟩
  exact isNameChar_of_combinator (h.all c List.mem_cons_self)

/-- What is found in earlier compounds is forgotten. -/
private theorem elementStart_leading {compounds : List (Compound × List Char)}
    (h : ∀ p ∈ compounds, p.1.WellFormed ∧ Combinators p.2) :
    elementStart .start position none (leading compounds ++ rest) =
      elementStart .start (position + (leading compounds).length) none rest := by
  induction compounds generalizing position with
  | nil => rfl
  | cons p compounds ih =>
    obtain ⟨⟨hcompound, hcombinators⟩, hrest⟩ := List.forall_mem_cons.1 h
    rw [leading, List.flatMap_cons, ← leading, List.append_assoc, List.append_assoc,
      hcompound.elementStart hcombinators.endsName, hcombinators.elementStart, ih hrest]
    exact elementStart_congr (by simp only [List.length_append]; omega)

/-- An attribute is required of the last compound of a selector, between its head and its pseudo-element. -/
theorem scopeSelector_compounds {compounds : List (Compound × List Char)} {last : Compound}
    (hcompounds : ∀ p ∈ compounds, p.1.WellFormed ∧ Combinators p.2) (hlast : last.WellFormed)
    (attr : List Char) : scopeSelector attr (leading compounds ++ last.text) =
      leading compounds ++ last.head ++ '[' :: attr ++ ']' :: last.tail := by
  have hend : EndsName [] := nofun
  have hstart : elementStart .start 0 none (leading compounds ++ last.text) =
      last.element? (leading compounds).length := by
    have hfound : elementStart .start (leading compounds).length none (last.text ++ []) = _ :=
      hlast.elementStart hend
    rw [List.append_nil] at hfound
    rw [elementStart_leading hcompounds, Nat.zero_add, hfound]
    rfl
  rw [scopeSelector, hstart, Compound.element?, Compound.text]
  by_cases htail : last.tail = []
  · rw [if_pos htail, htail, List.append_nil]
  · rw [if_neg htail, ← List.append_assoc, ← List.length_append]
    simp only [List.take_left, List.drop_left]

/-! A selector with pseudo-elements of earlier compounds, and with colons in brackets and strings. -/

private theorem Head.plain (cs ds : List Char) (h : ∀ c ∈ cs, isQuote c = false ∧ c ≠ '\\' ∧
    opensBracket c = false ∧ closesBracket c = false ∧ isCombinator c = false ∧ c ≠ ':') (hds : Head ds) :
    Head (cs ++ ds) := by
  induction cs with
  | nil => exact hds
  | cons c cs ih =>
    obtain ⟨⟨hquote, hescape, hopens, hcloses, hcombinator, hcolon⟩, hcs⟩ := List.forall_mem_cons.1 h
    exact .char hquote hescape hopens hcloses hcombinator hcolon (ih hcs)

def sampleCompounds : List (Compound × List Char) :=
  [(⟨"a[b=\":before\"]".toList, "::after".toList⟩, "  >\n".toList),
    (⟨":is(p::before, q:hover)".toList, ":BEFORE".toList⟩, " + ".toList)]

def sampleLast : Compound := ⟨"e:before-x[f]".toList, ":First-Line:hover".toList⟩

private theorem wellFormed_sampleCompounds :
    ∀ p ∈ sampleCompounds, p.1.WellFormed ∧ Combinators p.2 := by
  have hvalue : Balanced (fun _ => false) "b=\":before\"".toList :=
    .plain "b=".toList _ (forall_mem_of_all rfl)
      (.string rfl (.plain ":before".toList _ (forall_mem_of_all rfl) .close) .nil)
  have hattribute : Head "a[b=\":before\"]".toList :=
    .plain "a".toList _ (forall_mem_of_all rfl) (.brackets rfl hvalue.bracketed rfl .nil)
  have hafter : Balanced isCombinator "after".toList := .plain "after".toList [] (forall_mem_of_all rfl) .nil
  have hlist : Balanced (fun _ => false) "p::before, q:hover".toList :=
    .plain "p::before, q:hover".toList [] (forall_mem_of_all rfl) .nil
  have his : Head ":is(p::before, q:hover)".toList :=
    .pseudoClass (by decide) (by decide +kernel)
      (.plain "is".toList _ (forall_mem_of_all rfl) (.brackets rfl hlist.bracketed rfl .nil))
  have hbefore : Balanced isCombinator "BEFORE".toList :=
    .plain "BEFORE".toList [] (forall_mem_of_all rfl) .nil
  simp only [sampleCompounds, List.forall_mem_cons]
  exact ⟨⟨⟨hattribute, .double hafter.bracketed⟩, ⟨by decide, forall_mem_of_all rfl⟩⟩,
    ⟨⟨his, .single (by decide +kernel) hbefore.bracketed⟩, ⟨by decide, forall_mem_of_all rfl⟩⟩, nofun⟩

private theorem wellFormed_sampleLast : sampleLast.WellFormed := by
  have hbrackets : Balanced (fun _ => false) "f".toList :=
    .plain "f".toList [] (forall_mem_of_all rfl) .nil
  have hhead : Head "e:before-x[f]".toList :=
    .plain "e".toList _ (forall_mem_of_all rfl) <|
      .pseudoClass (by decide) (by decide +kernel) <|
        .plain "before-x".toList _ (forall_mem_of_all rfl) (.brackets rfl hbrackets.bracketed rfl .nil)
  have hline : Balanced isCombinator "First-Line:hover".toList :=
    .plain "First-Line:hover".toList [] (forall_mem_of_all rfl) .nil
  exact ⟨hhead, .single (by decide +kernel) hline.bracketed⟩

theorem scopeSelector_compounds_sample :
    (∀ p ∈ sampleCompounds, p.1.WellFormed ∧ Combinators p.2) ∧ sampleLast.WellFormed ∧
      scopeSelector "s".toList
          "a[b=\":before\"]::after  >\n:is(p::before, q:hover):BEFORE + e:before-x[f]:First-Line:hover".toList =
        "a[b=\":before\"]::after  >\n:is(p::before, q:hover):BEFORE + e:before-x[f][s]:First-Line:hover".toList := by
  refine ⟨wellFormed_sampleCompounds, wellFormed_sampleLast, ?_⟩
  have hscoped := scopeSelector_compounds wellFormed_sampleCompounds wellFormed_sampleLast "s".toList
  refine (congrArg (scopeSelector "s".toList) ?_).trans (hscoped.trans ?_)
  · decide +kernel
  · decide +kernel

end LiveMarkup.Style
