import LiveMarkup.Proofs.Text.Cut
import LiveMarkup.Style.Rule
import Mathlib.Data.List.Chain

/-! Style sheets as rules written one after another, and that they are read as these rules. -/

namespace LiveMarkup.Style

variable {c quote : Char} {cs s t inner body intro name rest w : List Char} {p stop : Char → Bool}
  {depth : Nat}

/-! What the parts of rules are made of. -/

def isQuote (c : Char) : Bool := c == '"' || c == '\''

def isBrace (c : Char) : Bool := c == '\x7b' || c == '\x7d'

def opensBracket (c : Char) : Bool := c == '(' || c == '['

def closesBracket (c : Char) : Bool := c == ')' || c == ']'

/-- What follows the quote that begins a string, with the quote that ends it. -/
inductive Quoted (quote : Char) : List Char → Prop where
  | close : Quoted quote [quote]
  | escaped (c : Char) {cs : List Char} (h : Quoted quote cs) : Quoted quote ('\\' :: c :: cs)
  | char {c : Char} {cs : List Char} (hescape : c ≠ '\\') (hquote : c ≠ quote) (h : Quoted quote cs) :
    Quoted quote (c :: cs)

/-- A text of closed strings and balanced brackets, with neither braces nor backslashes outside
strings, and without the characters of `stop` outside strings and brackets. -/
inductive Balanced : (Char → Bool) → List Char → Prop where
  | nil {stop : Char → Bool} : Balanced stop []
  | char {stop : Char → Bool} {c : Char} {cs : List Char} (hquote : isQuote c = false)
    (hescape : c ≠ '\\') (hbrace : isBrace c = false) (hopens : opensBracket c = false)
    (hcloses : closesBracket c = false) (hstop : stop c = false) (h : Balanced stop cs) :
    Balanced stop (c :: cs)
  | string {stop : Char → Bool} {quote : Char} {s cs : List Char} (hquote : isQuote quote = true)
    (hs : Quoted quote s) (h : Balanced stop cs) : Balanced stop (quote :: (s ++ cs))
  | brackets {stop : Char → Bool} {o c : Char} {inner cs : List Char} (ho : opensBracket o = true)
    (hinner : Balanced (fun _ => false) inner) (hc : closesBracket c = true) (h : Balanced stop cs) :
    Balanced stop (o :: (inner ++ c :: cs))

/-- A text of closed strings and balanced braces, with no backslash outside strings. -/
inductive Block : List Char → Prop where
  | nil : Block []
  | char {c : Char} {cs : List Char} (hquote : isQuote c = false) (hescape : c ≠ '\\')
    (hbrace : isBrace c = false) (h : Block cs) : Block (c :: cs)
  | string {quote : Char} {s cs : List Char} (hquote : isQuote quote = true) (hs : Quoted quote s)
    (h : Block cs) : Block (quote :: (s ++ cs))
  | braces {inner cs : List Char} (hinner : Block inner) (h : Block cs) :
    Block ('\x7b' :: (inner ++ '\x7d' :: cs))

/-- No comment begins in the text. -/
def Unmarked (cs : List Char) : Prop := ¬ ['/', '*'] <:+: cs

instance (cs : List Char) : Decidable (Unmarked cs) := inferInstanceAs (Decidable (¬ ['/', '*'] <:+: cs))

/-- A text without comments and carriage returns. -/
structure Clean (cs : List Char) : Prop where
  unmarked : Unmarked cs
  single : '\r' ∉ cs

instance (cs : List Char) : Decidable (Clean cs) :=
  decidable_of_iff (¬ ['/', '*'] <:+: cs ∧ '\r' ∉ cs)
    ⟨fun h => ⟨h.1, h.2⟩, fun h => ⟨h.unmarked, h.single⟩⟩

/-- A text without white space at its ends. -/
structure Trimmed (cs : List Char) : Prop where
  first : ∀ c ∈ cs.head?, Text.isBlank c = false
  last : ∀ c ∈ cs.getLast?, Text.isBlank c = false

instance (cs : List Char) : Decidable (Trimmed cs) :=
  decidable_of_iff ((cs.head?.all fun c => !Text.isBlank c) = true ∧
      (cs.getLast?.all fun c => !Text.isBlank c) = true)
    ⟨fun h => ⟨by simpa [Option.all_eq_true] using h.1, by simpa [Option.all_eq_true] using h.2⟩, fun h =>
      ⟨by simpa [Option.all_eq_true] using h.first, by simpa [Option.all_eq_true] using h.last⟩⟩

/-- A selector, without the signs that stand after selectors. -/
structure Selector (s : List Char) : Prop where
  ne : s ≠ []
  trimmed : Trimmed s
  clean : Clean s
  balanced : Balanced (fun c => c == ';' || c == ',') s

/-- What stands before the block of an at-rule, after its sign. -/
structure Prelude (name : List Char) : Prop where
  trimmed : Trimmed ('@' :: name)
  clean : Clean name
  balanced : Balanced (· == ';') name

inductive Rule.WellFormed : Rule → Prop where
  | statement {t : List Char} (htrimmed : Trimmed (t ++ [';'])) (hclean : Clean t)
    (hbalanced : Balanced (· == ';') t) : WellFormed (.statement (t ++ [';']))
  | style {selectors : List (List Char)} {body : List Char} (hne : selectors ≠ [])
    (hselectors : ∀ s ∈ selectors, Selector s)
    (hsign : ∀ s ∈ selectors.head?, ∀ c ∈ s.head?, c ≠ '@') (htrimmed : Trimmed body)
    (hclean : Clean body) (hblock : Block body) : WellFormed (.style selectors body)
  | group {name : List Char} {rules : List Rule} (hprelude : Prelude name)
    (hgroup : groupNames.contains (atRuleName name) = true) (hrules : ∀ r ∈ rules, r.WellFormed) :
    WellFormed (.group ('@' :: name) rules)
  | verbatim {name body : List Char} (hprelude : Prelude name)
    (hgroup : groupNames.contains (atRuleName name) = false) (hclean : Clean body)
    (hblock : Block body) : WellFormed (.verbatim ('@' :: name) body)

/-! How rules are written. -/

def Blank (w : List Char) : Prop := ∀ c ∈ w, Text.isBlank c = true

instance (w : List Char) : Decidable (Blank w) :=
  decidable_of_iff (w.all Text.isBlank = true) List.all_eq_true

/-- Selectors with commas between them, and white space around these. -/
inductive Lists : List (List Char) → List Char → Prop where
  | single (s : List Char) : Lists [s] s
  | cons {s w w' cs : List Char} {ss : List (List Char)} (hw : Blank w) (hw' : Blank w')
    (h : Lists ss cs) : Lists (s :: ss) (s ++ (w ++ ',' :: (w' ++ cs)))

/-- Rules with white space before and between them and after the last one, and around their parts. -/
inductive Prints : List Rule → List Char → Prop where
  | nil {w : List Char} (hw : Blank w) : Prints [] w
  | statement {w text cs : List Char} {rs : List Rule} (hw : Blank w) (h : Prints rs cs) :
    Prints (.statement text :: rs) (w ++ (text ++ cs))
  | style {w ss w₁ w₂ body w₃ cs : List Char} {selectors : List (List Char)} {rs : List Rule}
    (hw : Blank w) (hs : Lists selectors ss) (hw₁ : Blank w₁) (hw₂ : Blank w₂) (hw₃ : Blank w₃)
    (h : Prints rs cs) : Prints (.style selectors body :: rs)
      (w ++ (ss ++ (w₁ ++ '\x7b' :: ((w₂ ++ (body ++ w₃)) ++ '\x7d' :: cs))))
  | group {w intro w' inner cs : List Char} {rules rs : List Rule} (hw : Blank w) (hw' : Blank w')
    (hinner : Prints rules inner) (h : Prints rs cs) :
    Prints (.group intro rules :: rs) (w ++ (intro ++ (w' ++ '\x7b' :: (inner ++ '\x7d' :: cs))))
  | verbatim {w intro w' body cs : List Char} {rs : List Rule} (hw : Blank w) (hw' : Blank w')
    (h : Prints rs cs) :
    Prints (.verbatim intro body :: rs) (w ++ (intro ++ (w' ++ '\x7b' :: (body ++ '\x7d' :: cs))))

/-! The search for a sign passes over strings and brackets. -/

/-- What stands before a text is part of what stands before the sign that is found in it. -/
def before {β : Type} (cs : List Char) (r : List Char × β) : List Char × β := (cs ++ r.1, r.2)

@[simp] theorem before_nil {β : Type} (r : List Char × β) : before [] r = r := rfl

theorem before_before {β : Type} (cs ds : List Char) (r : List Char × β) :
    before cs (before ds r) = before (cs ++ ds) r :=
  congrArg (·, r.2) (List.append_assoc ..).symm

private theorem map_before {β : Type} (cs ds : List Char) (o : Option (List Char × β)) :
    (o.map (before ds)).map (before cs) = o.map (before (cs ++ ds)) := by
  rw [Option.map_map]
  exact congrArg (Option.map · o) (funext (before_before cs ds))

theorem cutTop?_step {q : Scan} (h : (q.top && p c) = false) :
    cutTop? p q (c :: cs) = (cutTop? p (q.next c) cs).map (before [c]) := by
  rw [cutTop?, h]
  rfl

private theorem escape_ne_quote (h : isQuote quote = true) : '\\' ≠ quote := by
  rintro rfl
  exact absurd h (by decide)

theorem Quoting.next_closed : Quoting.none.next c = if isQuote c then ⟨some c, false⟩ else .none := by
  simp [Quoting.next, Quoting.none, isQuote]

theorem Scan.next_quoted {escaped : Bool} :
    Scan.next ⟨⟨some quote, escaped⟩, depth⟩ c = ⟨Quoting.next ⟨some quote, escaped⟩ c, depth⟩ := rfl

theorem Scan.next_closed (hquote : isQuote c = false) (hopens : opensBracket c = false)
    (hcloses : closesBracket c = false) : Scan.next ⟨.none, depth⟩ c = ⟨.none, depth⟩ := by
  simp only [opensBracket, closesBracket, Bool.or_eq_false_iff, beq_eq_false_iff_ne] at hopens hcloses
  simp [Scan.next, hopens, hcloses, Quoting.next_closed, hquote]

theorem Scan.next_opens (h : opensBracket c = true) :
    Scan.next ⟨.none, depth⟩ c = ⟨.none, depth + 1⟩ := by
  simp only [opensBracket, Bool.or_eq_true, beq_iff_eq] at h
  simp [Scan.next, Quoting.outside, Quoting.none, h]

theorem Scan.next_closes (h : closesBracket c = true) :
    Scan.next ⟨.none, depth⟩ c = ⟨.none, depth - 1⟩ := by
  simp only [closesBracket, Bool.or_eq_true, beq_iff_eq] at h
  have hopens : ¬ (c = '(' ∨ c = '[') := by
    rintro (rfl | rfl) <;> simp at h
  simp [Scan.next, Quoting.outside, Quoting.none, h, hopens]

theorem Scan.next_quote (h : isQuote quote = true) :
    Scan.next ⟨.none, depth⟩ quote = ⟨⟨some quote, false⟩, depth⟩ := by
  have hopens : ¬ (quote = '(' ∨ quote = '[') ∧ ¬ (quote = ')' ∨ quote = ']') := by
    constructor <;> rintro (rfl | rfl) <;> exact absurd h (by decide)
  simp [Scan.next, hopens, Quoting.next_closed, h]

namespace Scan

variable {q : Scan} {ds : List Char}

def after (q : Scan) (cs : List Char) : Scan := cs.foldl next q

@[simp] theorem after_nil : q.after [] = q := rfl

@[simp] theorem after_cons : q.after (c :: cs) = (q.next c).after cs := rfl

@[simp] theorem after_append : q.after (cs ++ ds) = (q.after cs).after ds := List.foldl_append

/-- Something is open wherever a character of the text stands. -/
def Hides (q : Scan) : List Char → Prop
  | [] => True
  | c :: cs => q.top = false ∧ (q.next c).Hides cs

theorem Hides.append (h : q.Hides cs) (h' : (q.after cs).Hides ds) : q.Hides (cs ++ ds) := by
  induction cs generalizing q with
  | nil => exact h'
  | cons c cs ih => exact ⟨h.1, ih h.2 h'⟩

end Scan

/-- A search that finds nothing goes on in the text that follows. -/
theorem cutTop?_append {q : Scan} (h : cutTop? p q cs = none) :
    cutTop? p q (cs ++ rest) = (cutTop? p (q.after cs) rest).map (before cs) := by
  induction cs generalizing q with
  | nil => exact (congrFun Option.map_id _).symm
  | cons c cs ih =>
    rw [cutTop?] at h
    split_ifs at h with hc
    rw [List.cons_append, cutTop?_step (Bool.eq_false_iff.2 hc), ih (Option.map_eq_none_iff.1 h), map_before]
    rfl

/-- Nothing is found in what is hidden. -/
private theorem Scan.Hides.cutTop? {q : Scan} (h : q.Hides cs) : cutTop? p q cs = none := by
  induction cs generalizing q with
  | nil => rfl
  | cons c cs ih =>
    rw [cutTop?_step (Bool.and_eq_false_iff.2 (.inl h.1)), ih h.2]
    rfl

theorem Quoted.hides (h : Quoted quote s) (hquote : isQuote quote = true) :
    Scan.Hides ⟨⟨some quote, false⟩, depth⟩ s ∧ Scan.after ⟨⟨some quote, false⟩, depth⟩ s = ⟨.none, depth⟩ := by
  induction h with
  | close =>
    have hnext : Scan.next ⟨⟨some quote, false⟩, depth⟩ quote = ⟨.none, depth⟩ := by
      simp [Scan.next_quoted, Quoting.next, Ne.symm (escape_ne_quote hquote)]
    exact ⟨⟨rfl, trivial⟩, hnext⟩
  | @escaped c cs h ih =>
    have hnext : (Scan.next ⟨⟨some quote, false⟩, depth⟩ '\\').next c = ⟨⟨some quote, false⟩, depth⟩ := rfl
    exact ⟨⟨rfl, rfl, hnext ▸ ih.1⟩, hnext ▸ ih.2⟩
  | @char c cs hescape hend h ih =>
    have hnext : Scan.next ⟨⟨some quote, false⟩, depth⟩ c = ⟨⟨some quote, false⟩, depth⟩ := by
      simp [Scan.next_quoted, Quoting.next, hescape, hend]
    rw [Scan.after_cons, Scan.Hides, hnext]
    exact ⟨⟨rfl, ih.1⟩, ih.2⟩

theorem Quoted.cutTop? (h : Quoted quote s) (hquote : isQuote quote = true) :
    cutTop? p ⟨⟨some quote, false⟩, depth⟩ (s ++ rest) =
      (Style.cutTop? p ⟨.none, depth⟩ rest).map (before s) := by
  obtain ⟨hhides, hafter⟩ := h.hides hquote
  rw [cutTop?_append hhides.cutTop?, hafter]

/-- The search passes over a balanced text, unless it is for what the text may hold. -/
private theorem Balanced.cutTop? (h : Balanced stop s)
    (hp : depth = 0 → ∀ c, p c = true → stop c = true ∨ isBrace c = true)
    (hsigns : ∀ c, p c = true → isQuote c = false ∧ opensBracket c = false) :
    cutTop? p ⟨.none, depth⟩ (s ++ rest) = (Style.cutTop? p ⟨.none, depth⟩ rest).map (before s) := by
  induction h generalizing depth rest with
  | nil => exact (congrFun Option.map_id _).symm
  | @char stop c cs hquote hescape hbrace hopens hcloses hstop h ih =>
    have hpass : (Scan.top ⟨.none, depth⟩ && p c) = false := by
      rw [Bool.and_eq_false_iff, or_iff_not_imp_left]
      intro htop
      have hdepth : depth = 0 := by simpa [Scan.top, Quoting.outside, Quoting.none] using htop
      refine Bool.eq_false_iff.2 fun hc => ?_
      obtain hc | hc := hp hdepth c hc
      · rw [hstop] at hc
        cases hc
      · rw [hbrace] at hc
        cases hc
    rw [List.cons_append, cutTop?_step hpass, Scan.next_closed hquote hopens hcloses, ih hp, map_before]
    rfl
  | @string stop quote s cs hquote hs h ih =>
    have hpass : (Scan.top ⟨.none, depth⟩ && p quote) = false :=
      Bool.and_eq_false_iff.2 (.inr (Bool.eq_false_iff.2 fun hc => by simp [(hsigns _ hc).1] at hquote))
    rw [List.cons_append, List.append_assoc, cutTop?_step hpass, Scan.next_quote hquote,
      hs.cutTop? hquote, ih hp, map_before, map_before]
    rfl
  | @brackets stop o c inner cs ho hinner hc h ihinner ih =>
    have hpass : (Scan.top ⟨.none, depth⟩ && p o) = false :=
      Bool.and_eq_false_iff.2 (.inr (Bool.eq_false_iff.2 fun hc => by simp [(hsigns _ hc).2] at ho))
    have hdeep : (Scan.top ⟨.none, depth + 1⟩ && p c) = false := by simp [Scan.top]
    rw [List.cons_append, List.append_assoc, cutTop?_step hpass, Scan.next_opens ho,
      ihinner (fun h => absurd h (Nat.succ_ne_zero _)), List.cons_append, cutTop?_step hdeep,
      Scan.next_closes hc, Nat.add_sub_cancel, ih hp, map_before, map_before, map_before]
    simp

/-! The search for the brace that closes a block passes over blocks. -/

theorem splitBlock_step {q : Quoting} (h : q.outside = false ∨ isBrace c = false) :
    splitBlock q depth (c :: cs) = before [c] (splitBlock (q.next c) depth cs) := by
  have hstep : (q.outside && c == '\x7d') = false ∧ (q.outside && c == '\x7b') = false := by
    obtain h | h := h
    · simp [h]
    · simp only [isBrace, Bool.or_eq_false_iff] at h
      simp [h]
  simp [splitBlock, hstep, before]

private theorem Quoted.splitBlock (h : Quoted quote s) (hquote : isQuote quote = true) :
    splitBlock ⟨some quote, false⟩ depth (s ++ rest) = before s (Style.splitBlock .none depth rest) := by
  induction h with
  | close =>
    have hnext : Quoting.next ⟨some quote, false⟩ quote = .none := by
      simp [Quoting.next, Ne.symm (escape_ne_quote hquote)]
    rw [List.singleton_append, splitBlock_step (.inl rfl), hnext]
  | @escaped c cs h ih =>
    have hnext : (Quoting.next ⟨some quote, false⟩ '\\').next c = ⟨some quote, false⟩ := rfl
    rw [List.cons_append, List.cons_append, splitBlock_step (.inl rfl), splitBlock_step (.inl rfl),
      hnext, ih, before_before, before_before]
    rfl
  | @char c cs hescape hend h ih =>
    have hnext : Quoting.next ⟨some quote, false⟩ c = ⟨some quote, false⟩ := by
      simp [Quoting.next, hescape, hend]
    rw [List.cons_append, splitBlock_step (.inl rfl), hnext, ih, before_before]
    rfl

/-- The search for a closing brace passes over the text. -/
def Passes (cs : List Char) : Prop :=
  ∀ depth rest, splitBlock .none depth (cs ++ rest) = before cs (splitBlock .none depth rest)

namespace Passes

variable {ds : List Char}

theorem nil : Passes [] := fun _ _ => rfl

theorem append (h : Passes cs) (h' : Passes ds) : Passes (cs ++ ds) := fun depth rest => by
  rw [List.append_assoc, h, h', before_before]

theorem char (hquote : isQuote c = false) (hbrace : isBrace c = false) (h : Passes cs) :
    Passes (c :: cs) := fun depth rest => by
  rw [List.cons_append, splitBlock_step (.inr hbrace), Quoting.next_closed, hquote,
    if_neg Bool.false_ne_true, h, before_before]
  rfl

theorem string (hquote : isQuote quote = true) (hs : Quoted quote s) (h : Passes cs) :
    Passes (quote :: (s ++ cs)) := fun depth rest => by
  have hbrace : isBrace quote = false := Bool.eq_false_iff.2 fun hb => by
    simp only [isBrace, Bool.or_eq_true, beq_iff_eq] at hb
    obtain rfl | rfl := hb <;> exact absurd hquote (by decide)
  rw [List.cons_append, splitBlock_step (.inr hbrace), Quoting.next_closed, if_pos hquote,
    List.append_assoc, hs.splitBlock hquote, h, before_before, before_before]
  rfl

private theorem braces (hinner : Passes inner) (h : Passes cs) :
    Passes ('\x7b' :: (inner ++ '\x7d' :: cs)) := fun depth rest => by
  have hopen (ds : List Char) : splitBlock .none depth ('\x7b' :: ds) =
      before ['\x7b'] (splitBlock .none (depth + 1) ds) := rfl
  have hclose (ds : List Char) : splitBlock .none (depth + 1) ('\x7d' :: ds) =
      before ['\x7d'] (splitBlock .none depth ds) := rfl
  rw [List.cons_append, hopen, List.append_assoc, hinner, List.cons_append, hclose, h, before_before,
    before_before, before_before]
  simp

end Passes

theorem Block.passes (h : Block cs) : Passes cs := by
  induction h with
  | nil => exact .nil
  | char hquote _ hbrace _ ih => exact .char hquote hbrace ih
  | string hquote hs _ ih => exact .string hquote hs ih
  | braces _ _ ihinner ih => exact .braces ihinner ih

private theorem passes_of_ordinary (h : ∀ c ∈ cs, isQuote c = false ∧ isBrace c = false) :
    Passes cs := by
  induction cs with
  | nil => exact .nil
  | cons c cs ih =>
    obtain ⟨⟨hquote, hbrace⟩, hcs⟩ := List.forall_mem_cons.1 h
    exact .char hquote hbrace (ih hcs)

private theorem Balanced.passes (h : Balanced stop cs) : Passes cs := by
  induction h with
  | nil => exact .nil
  | char hquote _ hbrace _ _ _ _ ih => exact .char hquote hbrace ih
  | string hquote hs _ ih => exact .string hquote hs ih
  | @brackets _ o c inner cs ho _ hc _ ihinner ih =>
    simp only [opensBracket, closesBracket, Bool.or_eq_true, beq_iff_eq] at ho hc
    have ho' : isQuote o = false ∧ isBrace o = false := by obtain rfl | rfl := ho <;> decide
    have hc' : isQuote c = false ∧ isBrace c = false := by obtain rfl | rfl := hc <;> decide
    exact .char ho'.1 ho'.2 (ihinner.append (.char hc'.1 hc'.2 ih))

/-! White space around parts. -/

private theorem trimStart_blank (hw : Blank w) : Text.trimStart (w ++ cs) = Text.trimStart cs :=
  List.dropWhile_append_of_pos hw

private theorem Trimmed.trimStart_append (h : Trimmed s) (hne : s ≠ []) :
    Text.trimStart (s ++ cs) = s ++ cs := by
  obtain ⟨c, s, rfl⟩ := List.exists_cons_of_ne_nil hne
  exact List.dropWhile_cons_of_neg (by simp [h.first c rfl])

theorem trimEnd_append (h : ∀ c ∈ s.getLast?, Text.isBlank c = false) (hw : Blank w) :
    Text.trimEnd (s ++ w) = s := by
  have hblank : (s ++ w).reverse.dropWhile Text.isBlank = s.reverse.dropWhile Text.isBlank := by
    rw [List.reverse_append]
    exact List.dropWhile_append_of_pos fun c hc => hw c (List.mem_reverse.1 hc)
  rw [Text.trimEnd, hblank]
  rcases List.eq_nil_or_concat s with rfl | ⟨s, c, rfl⟩
  · rfl
  · rw [List.concat_eq_append, List.reverse_append, List.reverse_singleton, List.singleton_append,
      List.dropWhile_cons_of_neg (by simp [h c (by simp)])]
    simp

private theorem Trimmed.trim (h : Trimmed s) {w' : List Char} (hw : Blank w) (hw' : Blank w') :
    Text.trim (w ++ (s ++ w')) = s := by
  rw [Text.trim, trimStart_blank hw]
  by_cases hne : s = []
  · subst hne
    rw [List.nil_append, ← List.append_nil w', trimStart_blank hw', Text.trimStart_nil,
      Text.trimEnd_nil]
  · rw [h.trimStart_append hne, trimEnd_append h.last hw']

theorem blank_nil : Blank [] := List.forall_mem_nil _

theorem Trimmed.trim_self (h : Trimmed s) : Text.trim s = s := by
  simpa using h.trim blank_nil blank_nil

theorem ne_of_blank {d : Char} (h : Text.isBlank c = true) (hd : Text.isBlank d = false) : c ≠ d := by
  rintro rfl
  rw [hd] at h
  cases h

theorem ordinary_of_blank (h : Text.isBlank c = true) :
    isQuote c = false ∧ isBrace c = false ∧ opensBracket c = false ∧ closesBracket c = false := by
  simp only [isQuote, isBrace, opensBracket, closesBracket, Bool.or_eq_false_iff, beq_eq_false_iff_ne]
  exact ⟨⟨ne_of_blank h (by decide), ne_of_blank h (by decide)⟩,
    ⟨ne_of_blank h (by decide), ne_of_blank h (by decide)⟩,
    ⟨ne_of_blank h (by decide), ne_of_blank h (by decide)⟩,
    ⟨ne_of_blank h (by decide), ne_of_blank h (by decide)⟩⟩

private theorem Blank.passes (hw : Blank w) : Passes w :=
  passes_of_ordinary fun _ hc => ⟨(ordinary_of_blank (hw _ hc)).1, (ordinary_of_blank (hw _ hc)).2.1⟩

/-! No comment begins in a text that is put together of parts without comments. -/

theorem Unmarked.append {ds : List Char} (h : Unmarked cs) (h' : Unmarked ds)
    (hseam : '/' ∉ cs.getLast? ∨ '*' ∉ ds.head?) : Unmarked (cs ++ ds) := by
  rw [Unmarked, List.infix_append_iff]
  rintro (hin | hin | ⟨l, r, heq, hl, hr⟩)
  · exact h hin
  · exact h' hin
  · match l with
    | [] => exact h' ((show ['/', '*'] = r from heq) ▸ hr.isInfix)
    | [_] =>
      cases heq
      obtain ⟨cs, rfl⟩ := hl
      obtain ⟨ds, rfl⟩ := hr
      simp at hseam
    | _ :: _ :: l =>
      cases l with
      | nil =>
        cases heq
        exact h hl.isInfix
      | cons => cases heq

theorem Blank.unmarked (hw : Blank w) : Unmarked w := fun h =>
  ne_of_blank (hw '/' (h.subset List.mem_cons_self)) (by decide) rfl

theorem unmarked_singleton : Unmarked [c] := fun h => absurd h.length_le (Nat.not_succ_le_self 1)

theorem Unmarked.cons (h : Unmarked cs) (hc : c ≠ '/') : Unmarked (c :: cs) :=
  unmarked_singleton.append h (.inl fun heq => hc (Option.some.inj heq))

private theorem Unmarked.blank_append (hw : Blank w) (h : Unmarked cs) : Unmarked (w ++ cs) :=
  hw.unmarked.append h (.inl fun heq =>
    ne_of_blank (hw _ (List.mem_of_getLast? heq)) (by decide) rfl)

/-- A part stands between white space. -/
theorem Unmarked.between {w' : List Char} (hw : Blank w) (hs : Unmarked s) (hw' : Blank w')
    (hslash : c ≠ '/') (hstar : c ≠ '*') (h : Unmarked cs) :
    Unmarked (w ++ (s ++ (w' ++ c :: cs))) := by
  refine .blank_append hw (hs.append (.blank_append hw' (h.cons hslash)) (.inr fun heq => ?_))
  cases w' with
  | nil => exact hstar (Option.some.inj heq)
  | cons d w' => exact ne_of_blank (hw' d List.mem_cons_self) (by decide) (Option.some.inj heq)

theorem stripComments_none (h : Text.cut? ['/', '*'] cs = none) : stripComments cs = cs := by
  rw [stripComments]
  split
  · rfl
  · next heq => cases h.symm.trans heq

/-- Without comments, all of the text is kept. -/
theorem stripComments_eq (h : Unmarked cs) : stripComments cs = cs :=
  stripComments_none (Text.cut?_eq_none h)

private theorem Lists.unmarked {selectors : List (List Char)} (h : Lists selectors cs)
    (hs : ∀ s ∈ selectors, Selector s) : Unmarked cs := by
  induction h with
  | single s => exact (hs s List.mem_cons_self).clean.unmarked
  | @cons s w w' cs ss hw hw' h ih =>
    obtain ⟨hs, hss⟩ := List.forall_mem_cons.1 hs
    exact .between blank_nil hs.clean.unmarked hw (by decide) (by decide) (.blank_append hw' (ih hss))

private theorem Prelude.unmarked (h : Prelude name) : Unmarked ('@' :: name) :=
  h.clean.unmarked.cons (by decide)

theorem Prints.unmarked {rules : List Rule} (h : Prints rules cs) (hrules : ∀ r ∈ rules, r.WellFormed) :
    Unmarked cs := by
  induction h with
  | nil hw => exact hw.unmarked
  | statement hw h ih =>
    obtain ⟨hr, hrs⟩ := List.forall_mem_cons.1 hrules
    cases hr with
    | statement _ hclean =>
      simpa using .between hw hclean.unmarked blank_nil (by decide) (by decide) (ih hrs)
  | style hw hs hw₁ hw₂ hw₃ h ih =>
    obtain ⟨hr, hrs⟩ := List.forall_mem_cons.1 hrules
    cases hr with
    | style _ hselectors _ _ hclean =>
      refine .between hw (hs.unmarked hselectors) hw₁ (by decide) (by decide) ?_
      simpa using .between hw₂ hclean.unmarked hw₃ (by decide) (by decide) (ih hrs)
  | group hw hw' hinner h ihinner ih =>
    obtain ⟨hr, hrs⟩ := List.forall_mem_cons.1 hrules
    cases hr with
    | group hprelude _ hrules =>
      refine .between hw hprelude.unmarked hw' (by decide) (by decide) ?_
      simpa using .between blank_nil (ihinner hrules) blank_nil (by decide) (by decide) (ih hrs)
  | verbatim hw hw' h ih =>
    obtain ⟨hr, hrs⟩ := List.forall_mem_cons.1 hrules
    cases hr with
    | verbatim hprelude _ hclean =>
      refine .between hw hprelude.unmarked hw' (by decide) (by decide) ?_
      simpa using .between blank_nil hclean.unmarked blank_nil (by decide) (by decide) (ih hrs)

/-! The block of an at-rule ends where its rules do. -/

private theorem Lists.passes {selectors : List (List Char)} (h : Lists selectors cs)
    (hs : ∀ s ∈ selectors, Selector s) : Passes cs := by
  induction h with
  | single s => exact (hs s List.mem_cons_self).balanced.passes
  | @cons s w w' cs ss hw hw' h ih =>
    obtain ⟨hs, hss⟩ := List.forall_mem_cons.1 hs
    exact hs.balanced.passes.append
      (hw.passes.append (.char (by decide) (by decide) (hw'.passes.append (ih hss))))

private theorem Prelude.passes (h : Prelude name) : Passes ('@' :: name) :=
  .char (by decide) (by decide) h.balanced.passes

private theorem Prints.passes {rules : List Rule} (h : Prints rules cs)
    (hrules : ∀ r ∈ rules, r.WellFormed) :
    Passes cs := by
  induction h with
  | nil hw => exact hw.passes
  | statement hw h ih =>
    obtain ⟨hr, hrs⟩ := List.forall_mem_cons.1 hrules
    cases hr with
    | statement _ _ hbalanced =>
      exact hw.passes.append
        ((hbalanced.passes.append (.char (by decide) (by decide) .nil)).append (ih hrs))
  | style hw hs hw₁ hw₂ hw₃ h ih =>
    obtain ⟨hr, hrs⟩ := List.forall_mem_cons.1 hrules
    cases hr with
    | style _ hselectors _ _ _ hblock =>
      exact hw.passes.append ((hs.passes hselectors).append (hw₁.passes.append
        (.braces (hw₂.passes.append (hblock.passes.append hw₃.passes)) (ih hrs))))
  | group hw hw' hinner h ihinner ih =>
    obtain ⟨hr, hrs⟩ := List.forall_mem_cons.1 hrules
    cases hr with
    | group hprelude _ hrules =>
      exact hw.passes.append (hprelude.passes.append (hw'.passes.append
        (.braces (ihinner hrules) (ih hrs))))
  | verbatim hw hw' h ih =>
    obtain ⟨hr, hrs⟩ := List.forall_mem_cons.1 hrules
    cases hr with
    | verbatim hprelude _ _ hblock =>
      exact hw.passes.append (hprelude.passes.append (hw'.passes.append
        (.braces hblock.passes (ih hrs))))

/-! Rules are read where they stand. -/

/-- The search for a sign outside strings and brackets passes over the text. -/
def Skips (p : Char → Bool) (cs : List Char) : Prop :=
  ∀ rest, cutTop? p .start (cs ++ rest) = (cutTop? p .start rest).map (before cs)

namespace Skips

variable {ds : List Char}

theorem nil : Skips p [] := fun _ => (congrFun Option.map_id _).symm

theorem append (h : Skips p cs) (h' : Skips p ds) : Skips p (cs ++ ds) := fun rest => by
  rw [List.append_assoc, h, h', map_before]

theorem char (hquote : isQuote c = false) (hopens : opensBracket c = false)
    (hcloses : closesBracket c = false) (hp : p c = false) (h : Skips p cs) : Skips p (c :: cs) :=
  fun rest => by
    rw [List.cons_append, cutTop?_step (Bool.and_eq_false_iff.2 (.inr hp)), Scan.start,
      Scan.next_closed hquote hopens hcloses, ← Scan.start, h, map_before]
    rfl

/-- The sign that is looked for is found after the text. -/
theorem found (h : Skips p cs) (hc : p c = true) :
    cutTop? p .start (cs ++ c :: rest) = some (cs, c, rest) := by
  have hfirst : cutTop? p .start (c :: rest) = some ([], c, rest) := by
    rw [cutTop?, hc]
    rfl
  rw [h, hfirst]
  exact congrArg (fun ds => some (ds, c, rest)) (List.append_nil cs)

/-- No sign is found in the text. -/
theorem none_found (h : Skips p cs) : cutTop? p .start cs = none := by
  rw [← List.append_nil cs, h]
  rfl

end Skips

private theorem Balanced.skips (h : Balanced stop s)
    (hp : ∀ c, p c = true → stop c = true ∨ isBrace c = true)
    (hsigns : ∀ c, p c = true → isQuote c = false ∧ opensBracket c = false) : Skips p s :=
  fun _ => h.cutTop? (fun _ => hp) hsigns

private theorem Blank.skips (hw : Blank w) (hp : ∀ c, p c = true → Text.isBlank c = false) :
    Skips p w := by
  induction w with
  | nil => exact .nil
  | cons c w ih =>
    obtain ⟨hc, hw⟩ := List.forall_mem_cons.1 hw
    obtain ⟨hquote, -, hopens, hcloses⟩ := ordinary_of_blank hc
    refine .char hquote hopens hcloses (Bool.eq_false_iff.2 fun hpc => ?_) (ih hw)
    rw [hp c hpc] at hc
    cases hc

private theorem isStop_iff : isStop c = true ↔ c = ';' ∨ isBrace c = true := by
  simp only [isStop, isBrace, Bool.or_eq_true, beq_iff_eq]
  tauto

private theorem isStop_sign (h : isStop c = true) :
    Text.isBlank c = false ∧ isQuote c = false ∧ opensBracket c = false := by
  simp only [isStop, Bool.or_eq_true, beq_iff_eq] at h
  obtain (rfl | rfl) | rfl := h <;> decide

theorem Balanced.skips_stops (h : Balanced stop s) (hstop : stop ';' = true) : Skips isStop s :=
  h.skips (fun _ hc => (isStop_iff.1 hc).imp_left fun heq => by rw [heq, hstop])
    fun _ hc => (isStop_sign hc).2

private theorem Blank.skips_stops (hw : Blank w) :
    Skips isStop w := hw.skips fun _ hc => (isStop_sign hc).1

/-! Selectors are split at their commas. -/

/-- A selector that is read as it stands, between commas and before a block. -/
structure Readable (s : List Char) : Prop where
  ne : s ≠ []
  trimmed : Trimmed s
  commas : Skips (· == ',') s
  stops : Skips isStop s

theorem Balanced.skips_commas (h : Balanced stop s) (hstop : stop ',' = true) : Skips (· == ',') s := by
  refine h.skips (fun c hc => .inl ?_) fun c hc => ?_ <;> obtain rfl := beq_iff_eq.1 hc
  · exact hstop
  · decide

private theorem Selector.readable (h : Selector s) : Readable s :=
  ⟨h.ne, h.trimmed, h.balanced.skips_commas rfl, h.balanced.skips_stops rfl⟩

private theorem Blank.skips_commas (hw : Blank w) : Skips (· == ',') w :=
  hw.skips fun c hc => by
    obtain rfl := beq_iff_eq.1 hc
    decide

theorem splitTop_cut {separator : Char} {rest : List Char}
    (h : cutTop? (· == separator) .start cs = some (s, c, rest)) :
    splitTop separator cs = s :: splitTop separator rest := by
  rw [splitTop]
  split
  · next heq => cases h.symm.trans heq
  · next heq =>
    cases h.symm.trans heq
    rfl

theorem splitTop_whole {separator : Char} (h : cutTop? (· == separator) .start cs = none) :
    splitTop separator cs = [cs] := by
  rw [splitTop]
  split
  · rfl
  · next heq => cases h.symm.trans heq

private theorem Lists.splitTop {selectors : List (List Char)} (h : Lists selectors cs)
    (hs : ∀ s ∈ selectors, Readable s) (hw : Blank w) :
    (splitTop ',' (w ++ cs)).map Text.trim = selectors := by
  induction h generalizing w with
  | single s =>
    have hsel := hs s List.mem_cons_self
    rw [splitTop_whole (hw.skips_commas.append hsel.commas).none_found]
    simpa using hsel.trimmed.trim hw blank_nil
  | @cons s w₁ w₂ cs ss hw₁ hw₂ h ih =>
    obtain ⟨hsel, hss⟩ := List.forall_mem_cons.1 hs
    have hskips := hw.skips_commas.append (hsel.commas.append hw₁.skips_commas)
    have hfound : cutTop? _ .start (_ ++ ',' :: (w₂ ++ cs)) = _ := hskips.found rfl
    rw [List.append_assoc, List.append_assoc] at hfound
    rw [splitTop_cut hfound, List.map_cons, ih hss hw₂, hsel.trimmed.trim hw hw₁]

private theorem Lists.readSelectors {selectors : List (List Char)} (h : Lists selectors cs)
    (hs : ∀ s ∈ selectors, Readable s) : readSelectors cs = selectors := by
  have hsplit : (Style.splitTop ',' cs).map Text.trim = selectors := h.splitTop hs blank_nil
  rw [Style.readSelectors, hsplit, List.filter_eq_self]
  exact fun s hmem => by simp [(hs s hmem).ne]

private theorem Lists.skips_stops {selectors : List (List Char)} (h : Lists selectors cs)
    (hs : ∀ s ∈ selectors, Readable s) : Skips isStop cs := by
  induction h with
  | single s => exact (hs s List.mem_cons_self).stops
  | @cons s w w' cs ss hw hw' h ih =>
    obtain ⟨hs, hss⟩ := List.forall_mem_cons.1 hs
    exact hs.stops.append (hw.skips_stops.append
      (.char rfl rfl rfl rfl (hw'.skips_stops.append (ih hss))))

/-- A list of selectors begins as the first one does. -/
private theorem Lists.head? {selectors : List (List Char)} (h : Lists selectors cs)
    (hs : ∀ s ∈ selectors, Readable s) : cs.head? = selectors.head?.bind List.head? := by
  cases h with
  | single s => rfl
  | @cons s w w' cs ss =>
    obtain ⟨c, s, rfl⟩ := List.exists_cons_of_ne_nil (hs s List.mem_cons_self).ne
    rfl

private theorem Lists.ne_nil {selectors : List (List Char)} (h : Lists selectors cs)
    (hs : ∀ s ∈ selectors, Readable s) : cs ≠ [] := by
  cases h with
  | single => exact (hs _ List.mem_cons_self).ne
  | cons => simp

private theorem Lists.trimmed {selectors : List (List Char)} (h : Lists selectors cs)
    (hs : ∀ s ∈ selectors, Readable s) : Trimmed cs := by
  refine ⟨fun c hc => ?_, ?_⟩
  · rw [h.head? hs] at hc
    obtain ⟨s, hs', hc⟩ := Option.bind_eq_some_iff.1 hc
    exact (hs s (List.mem_of_mem_head? hs')).trimmed.first c hc
  · induction h with
    | single s => exact (hs s List.mem_cons_self).trimmed.last
    | @cons s w w' cs ss hw hw' h ih =>
      obtain ⟨hsel, hss⟩ := List.forall_mem_cons.1 hs
      have hlast : (s ++ (w ++ ',' :: (w' ++ cs))).getLast? = cs.getLast? := by
        have happend : s ++ (w ++ ',' :: (w' ++ cs)) = (s ++ (w ++ ',' :: w')) ++ cs := by simp
        rw [happend, List.getLast?_append_of_ne_nil _ (h.ne_nil hss)]
      rw [hlast]
      exact ih hss

/-! Rules are read one after another. -/

def blockRule (intro block : List Char) : Rule :=
  match intro with
  | '@' :: name =>
    if groupNames.contains (atRuleName name) then .group intro (readRules block)
    else .verbatim intro block
  | _ => .style (readSelectors intro) (Text.trim block)

theorem blockRule_style {block : List Char} (h : ∀ c ∈ intro.head?, c ≠ '@') :
    blockRule intro block = .style (readSelectors intro) (Text.trim block) := by
  cases intro with
  | nil => rfl
  | cons c cs =>
    rw [blockRule]
    rintro _ heq
    exact h c rfl (List.cons_eq_cons.1 heq).1

private theorem Prelude.skips_stops (h : Prelude name) : Skips isStop ('@' :: name) :=
  .char rfl rfl rfl rfl (h.balanced.skips_stops rfl)

private theorem readRules_whole (h : cutTop? isStop .start (Text.trimStart cs) = none) :
    readRules cs = if (Text.trim cs).isEmpty then [] else [.statement (Text.trim cs)] := by
  rw [readRules]
  split
  · rfl
  · next heq => cases h.symm.trans heq

private theorem readRules_cut {ds : List Char}
    (h : cutTop? isStop .start (Text.trimStart cs) = some (s, c, ds)) :
    readRules cs =
      if c = ';' then .statement (Text.trim (s ++ [c])) :: readRules ds
      else if c = '\x7d' then readRules ds
      else blockRule (Text.trim s) (splitBlock .none 0 ds).1 :: readRules (splitBlock .none 0 ds).2 := by
  rw [readRules]
  split
  · next heq => cases h.symm.trans heq
  · next heq =>
    cases h.symm.trans heq
    rfl

/-- White space before a text is passed over. -/
theorem readRules_blank_append (hw : Blank w) : readRules (w ++ cs) = readRules cs := by
  have hstart : Text.trimStart (w ++ cs) = Text.trimStart cs := trimStart_blank hw
  have htrim : Text.trim (w ++ cs) = Text.trim cs := by rw [Text.trim, hstart, Text.trim]
  cases hcut : cutTop? isStop .start (Text.trimStart cs) with
  | none => rw [readRules_whole hcut, readRules_whole (hstart ▸ hcut), htrim]
  | some r => rw [readRules_cut hcut, readRules_cut (hstart ▸ hcut)]

theorem readRules_nil : readRules [] = [] := readRules_whole rfl

private theorem readRules_statement (hw : Blank w) (ht : Trimmed (t ++ [';']))
    (hb : Balanced (· == ';') t) :
    readRules (w ++ ((t ++ [';']) ++ cs)) = .statement (t ++ [';']) :: readRules cs := by
  have hfound : cutTop? isStop .start (Text.trimStart ((t ++ [';']) ++ cs)) = some (t, ';', cs) := by
    rw [ht.trimStart_append (by simp), List.append_assoc]
    exact (hb.skips_stops rfl).found rfl
  rw [readRules_blank_append hw, readRules_cut hfound, if_pos rfl, ht.trim_self]

theorem readRules_block {w' block : List Char} (hw : Blank w) (hne : intro ≠ []) (ht : Trimmed intro)
    (hskips : Skips isStop intro) (hw' : Blank w') (hblock : Passes block) :
    readRules (w ++ (intro ++ (w' ++ '\x7b' :: (block ++ '\x7d' :: cs)))) =
      blockRule intro block :: readRules cs := by
  have hfound : cutTop? isStop .start
      (Text.trimStart (intro ++ (w' ++ '\x7b' :: (block ++ '\x7d' :: cs)))) =
        some (intro ++ w', '\x7b', block ++ '\x7d' :: cs) := by
    rw [ht.trimStart_append hne, ← List.append_assoc]
    exact (hskips.append hw'.skips_stops).found rfl
  have hsplit : splitBlock .none 0 (block ++ '\x7d' :: cs) = (block, cs) := by
    rw [hblock]
    exact congrArg (·, cs) (List.append_nil block)
  have htrim : Text.trim (intro ++ w') = intro := ht.trim blank_nil hw'
  rw [readRules_blank_append hw, readRules_cut hfound, if_neg (by decide), if_neg (by decide), hsplit, htrim]

theorem readRules_style {ss w₁ w₂ w₃ : List Char} {selectors : List (List Char)} (hw : Blank w)
    (hs : Lists selectors ss) (hselectors : ∀ s ∈ selectors, Readable s)
    (hsign : ∀ s ∈ selectors.head?, ∀ c ∈ s.head?, c ≠ '@') (hw₁ : Blank w₁) (hw₂ : Blank w₂)
    (htrimmed : Trimmed t) (hblock : Passes t) (hw₃ : Blank w₃) :
    readRules (w ++ (ss ++ (w₁ ++ '\x7b' :: ((w₂ ++ (t ++ w₃)) ++ '\x7d' :: cs)))) =
      .style selectors t :: readRules cs := by
  have hrule : blockRule ss (w₂ ++ (t ++ w₃)) = .style selectors t := by
    rw [blockRule_style, hs.readSelectors hselectors, htrimmed.trim hw₂ hw₃]
    intro c hc
    rw [hs.head? hselectors] at hc
    obtain ⟨s, hs', hc⟩ := Option.bind_eq_some_iff.1 hc
    exact hsign s hs' c hc
  rw [readRules_block hw (hs.ne_nil hselectors) (hs.trimmed hselectors) (hs.skips_stops hselectors) hw₁
    (hw₂.passes.append (hblock.append hw₃.passes)), hrule]

/-- A style sheet is read as the rules that it is written of. -/
theorem Prints.readRules {rules : List Rule} (h : Prints rules cs)
    (hrules : ∀ r ∈ rules, r.WellFormed) : readRules cs = rules := by
  induction h with
  | @nil w hw => rw [← List.append_nil w, readRules_blank_append hw, readRules_nil]
  | statement hw h ih =>
    obtain ⟨hr, hrs⟩ := List.forall_mem_cons.1 hrules
    cases hr with
    | statement htrimmed _ hbalanced => rw [readRules_statement hw htrimmed hbalanced, ih hrs]
  | style hw hs hw₁ hw₂ hw₃ h ih =>
    obtain ⟨hr, hrs⟩ := List.forall_mem_cons.1 hrules
    cases hr with
    | style _ hselectors hsign htrimmed _ hblock =>
      rw [readRules_style hw hs (fun s hmem => (hselectors s hmem).readable) hsign hw₁ hw₂ htrimmed
        hblock.passes hw₃, ih hrs]
  | @group w intro w' inner cs rules rs hw hw' hinner h ihinner ih =>
    obtain ⟨hr, hrs⟩ := List.forall_mem_cons.1 hrules
    cases hr with
    | group hprelude hgroup hrules =>
      rw [readRules_block hw (List.cons_ne_nil _ _) hprelude.trimmed hprelude.skips_stops hw'
        (hinner.passes hrules), ih hrs, blockRule, if_pos hgroup, ihinner hrules]
  | verbatim hw hw' h ih =>
    obtain ⟨hr, hrs⟩ := List.forall_mem_cons.1 hrules
    cases hr with
    | verbatim hprelude hgroup _ hblock =>
      rw [readRules_block hw (List.cons_ne_nil _ _) hprelude.trimmed hprelude.skips_stops hw'
        hblock.passes, ih hrs, blockRule, if_neg (by rw [hgroup]; decide)]

end LiveMarkup.Style
