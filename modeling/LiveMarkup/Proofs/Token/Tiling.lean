import LiveMarkup.Proofs.Text.Cut
import LiveMarkup.Proofs.Token.Spelling
import Mathlib.Data.List.Chain

/-! The tokens of a template tile its source: each covers a spelling of it at the place it records, and
only white space in tags is left over. -/

namespace LiveMarkup

/-- A token, and the offsets of its first character and of the one after its last. -/
structure Span where
  lexeme : Lexeme
  start : Nat
  stop : Nat

/-- The token that is spelled `w` right after the characters `pre`. -/
def Span.after (pre w : List Char) (t : Token) : Span :=
  ⟨⟨t, Pos.start.after pre⟩, pre.length, pre.length + w.length⟩

/-- The span covers the character at the offset. -/
def Span.Contains (s : Span) (i : Nat) : Prop := s.start ≤ i ∧ i < s.stop

namespace Lexer

/-- Where a reader of templates is: in a tag, or outside of tags, where text may come or has just been. -/
inductive Side where
  | outside (text : Bool)
  | inside

/-- Which tokens come on a side, and the side after them. -/
inductive Passes : Side → Token → Side → Prop where
  | text {s : String} (hne : s ≠ "") (hno : ¬ ['\x7b', '\x7b'] <:+: s.toList) :
    Passes (.outside true) (.text s) (.outside false)
  | opening (text : Bool) : Passes (.outside text) (.symbol .openTag) .inside
  | code {t : Token} (ht : t.isCode = true) : Passes .inside t .inside
  | closing : Passes .inside (.symbol .closeTag) (.outside true)

/-- A reader of a source: its side, the characters it has read, and those that are left. -/
structure Reader where
  side : Side
  read : List Char
  left : List Char

/-- The reader gets from one state to another, and reads tokens on the way. -/
inductive Scans : Reader → List Span → Reader → Prop where
  | refl (r : Reader) : Scans r [] r
  | blank {c : Char} {pre cs : List Char} {spans : List Span} {r : Reader}
    (hc : Text.isBlank c = true) (h : Scans ⟨.inside, pre ++ [c], cs⟩ spans r) :
    Scans ⟨.inside, pre, c :: cs⟩ spans r
  | token {side side' : Side} {t : Token} {pre w cs : List Char} {spans : List Span} {r : Reader}
    (ht : Passes side t side') (hw : t.SpelledBy w) (hne : w ≠ [])
    (h : Scans ⟨side', pre ++ w, cs⟩ spans r) :
    Scans ⟨side, pre, w ++ cs⟩ (Span.after pre w t :: spans) r

variable {a b c : Reader} {spans spans' : List Span} {pre cs rest : List Char} {s : Span}

theorem Scans.trans (h : Scans a spans b) (h' : Scans b spans' c) : Scans a (spans ++ spans') c := by
  induction h with
  | refl => exact h'
  | blank hc _ ih => exact .blank hc (ih h')
  | token ht hw hne _ ih => exact .token ht hw hne (ih h')

/-! What the scanned tokens say of the source, which is what has been read and what is left. -/

/-- The span covers a spelling of its token, which stands at the place that the token records. -/
inductive Covers (source : List Char) : Span → Prop where
  | intro {pre w cs : List Char} {t : Token} (hsource : source = pre ++ (w ++ cs)) (hw : t.SpelledBy w)
    (hne : w ≠ []) : Covers source (Span.after pre w t)

theorem Scans.covers (h : Scans a spans b) (hs : s ∈ spans) : Covers (a.read ++ a.left) s := by
  induction h with
  | refl => cases hs
  | blank hc _ ih =>
    have hcovers := ih hs
    rwa [List.append_assoc] at hcovers
  | token ht hw hne _ ih =>
    rcases List.mem_cons.1 hs with rfl | hs
    · exact .intro rfl hw hne
    · have hcovers := ih hs
      rwa [List.append_assoc] at hcovers

private theorem Scans.le_start (h : Scans a spans b) (hs : s ∈ spans) : a.read.length ≤ s.start := by
  induction h with
  | refl => cases hs
  | blank hc _ ih =>
    have hle := ih hs
    rw [List.length_append] at hle
    exact Nat.le_of_add_right_le hle
  | token ht hw hne _ ih =>
    rcases List.mem_cons.1 hs with rfl | hs
    · exact Nat.le_refl _
    · have hle := ih hs
      rw [List.length_append] at hle
      exact Nat.le_of_add_right_le hle

theorem Scans.ordered (h : Scans a spans b) : spans.Pairwise fun s s' => s.stop ≤ s'.start := by
  induction h with
  | refl => exact .nil
  | blank hc _ ih => exact ih
  | token ht hw hne h ih =>
    refine .cons (fun s hs => ?_) ih
    have hle := h.le_start hs
    rwa [List.length_append] at hle

/-- Texts are not empty, and no tag begins in them. -/
private theorem Scans.texts {x : String} (h : Scans a spans b) (hs : s ∈ spans)
    (hx : s.lexeme.token = .text x) :
    x ≠ "" ∧ ¬ ['\x7b', '\x7b'] <:+: x.toList := by
  induction h with
  | refl => cases hs
  | blank hc _ ih => exact ih hs
  | token ht hw hne _ ih =>
    rcases List.mem_cons.1 hs with rfl | hs
    · cases hx
      cases ht with
      | text hne hno => exact ⟨hne, hno⟩
      | code ht => cases ht
    · exact ih hs

/-- No text comes where one has just been. -/
private theorem Scans.head_not_text (h : Scans a spans b) (ha : a.side = .outside false) :
    ∀ s ∈ spans.head?, ∀ x, s.lexeme.token ≠ .text x := by
  cases h with
  | refl => nofun
  | blank => cases ha
  | token ht =>
    cases ha
    rintro s ⟨⟩ x
    cases ht
    nofun

private theorem Scans.apart (h : Scans a spans b) : spans.IsChain fun s s' =>
    ¬ ((∃ x, s.lexeme.token = .text x) ∧ ∃ x, s'.lexeme.token = .text x) := by
  induction h with
  | refl => exact .nil
  | blank hc _ ih => exact ih
  | token ht hw hne h ih =>
    refine List.isChain_cons.2 ⟨fun s' hs' => ?_, ih⟩
    rintro ⟨⟨x, rfl⟩, y, hy⟩
    cases ht with
    | text => exact h.head_not_text rfl s' hs' y hy
    | code ht => cases ht

def BeforeClose (spans : List Span) (i : Nat) : Prop :=
  ∃ inner c after, spans = inner ++ c :: after ∧ (∀ s ∈ inner, s.lexeme.token.isCode = true) ∧
    c.lexeme.token = .symbol .closeTag ∧ i < c.start

/-- The offset is in a tag: after the braces that open it and before those that close it. -/
def InTag (spans : List Span) (i : Nat) : Prop :=
  ∃ before o after, spans = before ++ o :: after ∧ o.lexeme.token = .symbol .openTag ∧ o.stop ≤ i ∧
    BeforeClose after i

private theorem BeforeClose.cons {i : Nat} (h : BeforeClose spans i)
    (hs : s.lexeme.token.isCode = true) :
    BeforeClose (s :: spans) i := by
  obtain ⟨inner, c, after, rfl, hinner, hc, hi⟩ := h
  exact ⟨s :: inner, c, after, rfl, List.forall_mem_cons.2 ⟨hs, hinner⟩, hc, hi⟩

private theorem InTag.cons {i : Nat} (h : InTag spans i) (s : Span) : InTag (s :: spans) i := by
  obtain ⟨before, o, after, rfl, ho, hi, hclose⟩ := h
  exact ⟨s :: before, o, after, rfl, ho, hi, hclose⟩

/-- Who reads a tag and ends up outside has come to its closing braces. -/
theorem Scans.closes {i : Nat} (h : Scans a spans b) (ha : a.side = .inside) (hb : b.side ≠ .inside)
    (hi : i < a.read.length) : BeforeClose spans i := by
  induction h with
  | refl => exact absurd ha hb
  | blank hc _ ih => exact ih rfl hb (by rw [List.length_append]; exact Nat.lt_add_right _ hi)
  | token ht hw hne _ ih =>
    cases ha
    cases ht with
    | code ht => exact (ih rfl hb (by rw [List.length_append]; exact Nat.lt_add_right _ hi)).cons ht
    | closing => exact ⟨[], _, _, rfl, nofun, rfl, hi⟩

/-- What no token covers is white space in a tag. -/
private theorem Scans.gaps {i : Nat} {ch : Char} (h : Scans a spans b) (hb : b.side ≠ .inside)
    (hend : b.left = []) (hi : a.read.length ≤ i) (hch : (a.read ++ a.left)[i]? = some ch)
    (hnone : ∀ s ∈ spans, ¬ s.Contains i) :
    Text.isBlank ch = true ∧ (InTag spans i ∨ a.side = .inside ∧ BeforeClose spans i) := by
  -- A scan that starts in a tag has read the braces before it, so of a gap in that tag only the half up
  -- to the close is known until the induction comes to the braces.
  induction h with
  | refl r =>
    rw [hend, List.append_nil, List.getElem?_eq_none hi] at hch
    cases hch
  | @blank c pre cs spans r hc h ih =>
    dsimp only at hi hch ih ⊢
    rw [List.append_assoc, List.length_append] at ih
    obtain heq | hlt := Nat.eq_or_lt_of_le hi
    · rw [← heq, List.getElem?_append_right (Nat.le_refl _), Nat.sub_self] at hch
      cases hch
      refine ⟨hc, .inr ⟨rfl, h.closes rfl hb ?_⟩⟩
      rw [List.length_append]
      exact Nat.lt_succ_of_le (Nat.le_of_eq heq.symm)
    · exact ih hb hend hlt hch hnone
  | @token side side' t pre w cs spans r ht hw hne h ih =>
    dsimp only at hi hch ih ⊢
    rw [List.append_assoc, List.length_append] at ih
    obtain ⟨hspan, hnone⟩ := List.forall_mem_cons.1 hnone
    have hle : pre.length + w.length ≤ i := Nat.le_of_not_lt fun hlt => hspan ⟨hi, hlt⟩
    obtain ⟨hblank, htag | ⟨hside, hclose⟩⟩ := ih hb hend hle hch hnone
    · exact ⟨hblank, .inl (htag.cons _)⟩
    · refine ⟨hblank, ?_⟩
      cases ht with
      | text => cases hside
      | opening => exact .inl ⟨[], _, spans, rfl, rfl, hle, hclose⟩
      | code ht => exact .inr ⟨rfl, hclose.cons ht⟩
      | closing => cases hside

/-! Reading scans. -/

/-- The reader gets from `a` to what is left at a place outside of tags, and reads the tokens. -/
def Reads (a : Reader) (ls : List Lexeme) (p : Pos) (rest : List Char) : Prop :=
  ∃ pre spans, p = Pos.start.after pre ∧ spans.map Span.lexeme = ls ∧
    Scans a spans ⟨.outside true, pre, rest⟩

private theorem Reads.blank {ch : Char} {ls : List Lexeme} {p : Pos} (hc : Text.isBlank ch = true)
    (h : Reads ⟨.inside, pre ++ [ch], cs⟩ ls p rest) : Reads ⟨.inside, pre, ch :: cs⟩ ls p rest := by
  obtain ⟨pre', spans, hp, hls, hscans⟩ := h
  exact ⟨pre', spans, hp, hls, .blank hc hscans⟩

private theorem Reads.blanks {blanks : List Char} {ls : List Lexeme} {p : Pos}
    (hblanks : ∀ ch ∈ blanks, Text.isBlank ch = true)
    (h : Reads ⟨.inside, pre ++ blanks, cs⟩ ls p rest) : Reads ⟨.inside, pre, blanks ++ cs⟩ ls p rest := by
  induction blanks generalizing pre with
  | nil => rwa [List.append_nil] at h
  | cons ch blanks ih =>
    obtain ⟨hc, hblanks⟩ := List.forall_mem_cons.1 hblanks
    exact .blank hc (ih hblanks (by rwa [List.append_assoc]))

private theorem Reads.token {side side' : Side} {t : Token} {w : List Char} {ls : List Lexeme}
    {p : Pos} (ht : Passes side t side') (hw : t.SpelledBy w) (hne : w ≠ [])
    (h : Reads ⟨side', pre ++ w, cs⟩ ls p rest) :
    Reads ⟨side, pre, w ++ cs⟩ (⟨t, Pos.start.after pre⟩ :: ls) p rest := by
  obtain ⟨pre', spans, hp, hls, hscans⟩ := h
  exact ⟨pre', _, hp, by rw [List.map_cons, hls]; rfl, .token ht hw hne hscans⟩

theorem exists_of_map_eq_ok {α β : Type} {f : α → β} {x : Except CompileError α} {y : β}
    (h : x.map f = .ok y) : ∃ v, x = .ok v ∧ f v = y := by
  cases x with
  | error e => cases h
  | ok v => exact ⟨v, rfl, Except.ok.inj h⟩

private theorem code_reads {ctx : Context} {pos p : Pos} {r : Code} (h : code .tag ctx pos cs = .ok r)
    (ha : r.after = some (p, rest)) (hpos : pos = Pos.start.after pre) :
    Reads ⟨.inside, pre, cs⟩ r.lexemes p rest := by
  -- Line feeds and comments (the second, third and sixth case) are tokens of scripts only.
  fun_induction code .tag ctx pos cs generalizing r pre with
  | case1 => cases h; cases ha
  | case2 ctx pos c cs hc => cases hc.2
  | case3 ctx pos c cs hc => cases hc.2
  | case4 ctx pos c cs _ hc ih =>
    refine .blank hc (ih h ha ?_)
    rw [hpos, Pos.after_append]
    rfl
  | case5 ctx pos c cs _ _ hclose =>
    obtain ⟨-, -, rfl, hnext⟩ := hclose
    obtain ⟨cs, rfl⟩ := List.head?_eq_some_iff.1 hnext
    cases h
    cases ha
    rw [hpos]
    refine .token (w := ['\x7d', '\x7d']) .closing (List.mem_singleton.2 rfl) (List.cons_ne_nil _ _) ?_
    refine ⟨_, [], ?_, rfl, .refl _⟩
    rw [Pos.after_append]
    rfl
  | case6 ctx pos c cs _ _ _ hcomment => cases hcomment.1
  | case7 => cases h
  | case8 ctx pos c cs _ _ _ _ s hs ih =>
    obtain ⟨tail, htail, rfl⟩ := exists_of_map_eq_ok h
    obtain ⟨hspelled, hcode⟩ := splitToken_spelledBy hs
    obtain ⟨happend, hne⟩ := splitToken_append hs
    rw [← happend, hpos]
    refine .token (.code hcode) hspelled hne (ih htail ha ?_)
    rw [hpos, Pos.after_append]

theorem splitCloser?_spelledBy {pos : Pos} {s : Split Token} (h : splitCloser? pos cs = .ok (some s)) :
    s.value.SpelledBy s.spelling ∧ s.spelling ≠ [] ∧ s.value.isCode = true := by
  unfold splitCloser? at h
  split at h
  · split at h
    · dsimp only at h
      split at h
      · next hword =>
        cases h
        have hspelling := congrArg String.toList hword
        rw [splitIdentifier, String.toList_ofList] at hspelling
        exact ⟨List.mem_singleton.2 (congrArg (List.cons '/') hspelling), List.cons_ne_nil _ _, rfl⟩
      · split at h
        · next hword =>
          cases h
          have hspelling := congrArg String.toList hword
          rw [splitIdentifier, String.toList_ofList] at hspelling
          exact ⟨List.mem_singleton.2 (congrArg (List.cons '/') hspelling), List.cons_ne_nil _ _, rfl⟩
        · cases h
    · cases h
  · cases h

private theorem tagCode_reads {pos p : Pos} {r : Code} (h : tagCode pos cs = .ok r)
    (ha : r.after = some (p, rest)) (hpos : pos = Pos.start.after pre) :
    Reads ⟨.inside, pre, cs⟩ r.lexemes p rest := by
  unfold tagCode at h
  split at h
  · cases h
  · exact code_reads h ha hpos
  · next s hs =>
    obtain ⟨tail, htail, rfl⟩ := exists_of_map_eq_ok h
    obtain ⟨hspelled, hne, hcode⟩ := splitCloser?_spelledBy hs
    rw [← splitCloser?_append hs, hpos]
    refine .token (.code hcode) hspelled hne (code_reads htail ha ?_)
    rw [hpos, Pos.after_append]

theorem tag_reads {opening pos p : Pos} {ls : List Lexeme} (h : tag opening pos cs = .ok (ls, p, rest))
    (hpos : pos = Pos.start.after pre) : Reads ⟨.inside, pre, cs⟩ ls p rest := by
  unfold tag at h
  split at h
  · cases h
  · next r hr =>
    split at h
    · next ha =>
      cases h
      have hblanks : ∀ c ∈ cs.takeWhile Text.isBlank, Text.isBlank c = true :=
        fun c hc => List.mem_takeWhile_imp hc
      have hreads := Reads.blanks hblanks (tagCode_reads hr ha (by rw [hpos, Pos.after_append]))
      rwa [List.takeWhile_append_dropWhile] at hreads
    · cases h

/-- Markup up to a tag or the end. -/
private theorem scans_text {text : List Char} (pre cs : List Char)
    (hno : ¬ ['\x7b', '\x7b'] <:+: text) :
    ∃ spans after, spans.map Span.lexeme = textLexemes (Pos.start.after pre) text ∧
      Scans ⟨.outside true, pre, text ++ cs⟩ spans ⟨.outside after, pre ++ text, cs⟩ := by
  cases text with
  | nil =>
    rw [List.append_nil]
    exact ⟨[], true, rfl, .refl _⟩
  | cons c text =>
    have hne : String.ofList (c :: text) ≠ "" := fun heq => by cases String.ofList_inj.1 heq
    have hpasses := Passes.text hne (by rwa [String.toList_ofList])
    have hspelled : (Token.text (String.ofList (c :: text))).SpelledBy (c :: text) :=
      String.toList_ofList.symm
    exact ⟨_, false, rfl, .token hpasses hspelled nofun (.refl _)⟩

theorem template_scans {pos : Pos} {ts : List Lexeme} (h : template pos cs = .ok ts)
    (hpos : pos = Pos.start.after pre) :
    ∃ spans read text, spans.map Span.lexeme = ts ∧
      Scans ⟨.outside true, pre, cs⟩ spans ⟨.outside text, read, []⟩ := by
  fun_induction template pos cs generalizing pre ts with
  | case1 pos cs hcut =>
    cases h
    obtain ⟨spans, after, hls, hscans⟩ := scans_text pre []
      (Text.not_infix_of_cut?_eq_none hcut)
    rw [List.append_nil] at hscans
    exact ⟨spans, _, after, by rw [hls, hpos], hscans⟩
  | case2 => cases h
  | case3 pos cs text body hcut opening ls p rest htag =>
    rename_i ih
    -- The text, the braces with the rest of the tag, and what comes after the tag.
    obtain ⟨more, hmore, rfl⟩ := exists_of_map_eq_ok h
    have hopening : opening = Pos.start.after (pre ++ text) := by rw [Pos.after_append, ← hpos]
    obtain ⟨spans₁, after, hls₁, hscans₁⟩ := scans_text pre (['\x7b', '\x7b'] ++ body)
      (Text.not_infix_before nofun hcut)
    have hbody : opening.after ['\x7b', '\x7b'] = Pos.start.after (pre ++ text ++ ['\x7b', '\x7b']) := by
      rw [hopening, ← Pos.after_append]
    obtain ⟨pre₂, spans₂, hp, hls₂, hscans₂⟩ :=
      Reads.token (.opening after) (List.mem_singleton.2 rfl) nofun (tag_reads htag hbody)
    obtain ⟨spans₃, read, last, hls₃, hscans₃⟩ := ih hmore hp
    refine ⟨spans₁ ++ (spans₂ ++ spans₃), read, last, ?_, ?_⟩
    · rw [List.map_append, List.map_append, hls₁, hls₂, hls₃, hopening, hpos]
      rfl
    · rw [Text.cut?_eq_some hcut, List.append_assoc]
      exact hscans₁.trans (hscans₂.trans hscans₃)

end Lexer

/-! The places of offsets. -/

def lineAt (cs : List Char) (i : Nat) : Nat := (cs.take i).count '\n' + 1

/-- The column of an offset: one more than there are characters since the last line feed. -/
def columnAt (cs : List Char) (i : Nat) : Nat := ((cs.take i).reverse.takeWhile (· != '\n')).length + 1

theorem Pos.start_after (cs : List Char) :
    Pos.start.after cs = ⟨cs.count '\n' + 1, (cs.reverse.takeWhile (· != '\n')).length + 1⟩ := by
  induction cs using List.reverseRecOn with
  | nil => rfl
  | append_singleton cs c ih =>
    rw [Pos.after_append, ih, after_cons, after_nil, Pos.next, List.count_append, List.reverse_append,
      List.reverse_singleton, List.singleton_append]
    split
    · next hc =>
      subst hc
      rfl
    · next hc =>
      simp [hc]

/-- Tokens tile a source: their spans come one after the other, each covers a spelling of its token
and its token records where it begins, and what is between them is white space in tags. -/
structure Tiles (source : List Char) (spans : List Span) : Prop where
  ordered : spans.Pairwise fun s s' => s.stop ≤ s'.start
  within : ∀ s ∈ spans, s.start < s.stop ∧ s.stop ≤ source.length
  placed : ∀ s ∈ spans, s.lexeme.pos = ⟨lineAt source s.start, columnAt source s.start⟩
  spelled : ∀ s ∈ spans, s.lexeme.token.SpelledBy ((source.take s.stop).drop s.start)
  gaps : ∀ i c, source[i]? = some c → (∀ s ∈ spans, ¬ s.Contains i) →
    Text.isBlank c = true ∧ Lexer.InTag spans i
  texts : ∀ s ∈ spans, ∀ x, s.lexeme.token = .text x → x ≠ "" ∧ ¬ ['\x7b', '\x7b'] <:+: x.toList
  apart : spans.IsChain fun s s' =>
    ¬ ((∃ x, s.lexeme.token = .text x) ∧ ∃ x, s'.lexeme.token = .text x)

namespace Lexer

variable {source : List Char} {spans : List Span} {s : Span}

private theorem Covers.within (h : Covers source s) : s.start < s.stop ∧ s.stop ≤ source.length := by
  obtain @⟨pre, w, cs, t, rfl, -, hne⟩ := h
  have hpos := List.length_pos_iff.2 hne
  simp only [Span.after, List.length_append]
  omega

private theorem Covers.placed (h : Covers source s) :
    s.lexeme.pos = ⟨lineAt source s.start, columnAt source s.start⟩ := by
  obtain @⟨pre, w, cs, t, rfl, -, -⟩ := h
  rw [lineAt, columnAt, Span.after, List.take_left, Pos.start_after]

private theorem Covers.spelled (h : Covers source s) :
    s.lexeme.token.SpelledBy ((source.take s.stop).drop s.start) := by
  obtain @⟨pre, w, cs, t, rfl, hw, -⟩ := h
  have htake : (pre ++ (w ++ cs)).take (pre.length + w.length) = pre ++ w := by
    rw [← List.append_assoc, ← List.length_append, List.take_left]
  rw [Span.after, htake, List.drop_left]
  exact hw

/-- The tokens of a template tile its source. -/
theorem ofTemplate_tiles {source : String} {ts : List Lexeme} (h : ofTemplate source = .ok ts) :
    ∃ spans, spans.map Span.lexeme = ts ∧ Tiles source.toList spans := by
  obtain ⟨spans, read, text, hls, hscans⟩ := template_scans h (Pos.after_nil .start).symm
  refine ⟨spans, hls, ?_⟩
  exact {
    ordered := hscans.ordered
    within := fun s hs => (hscans.covers hs).within
    placed := fun s hs => (hscans.covers hs).placed
    spelled := fun s hs => (hscans.covers hs).spelled
    gaps := fun i c hc hnone => by
      obtain ⟨hblank, htag | ⟨hside, -⟩⟩ := hscans.gaps nofun rfl (Nat.zero_le _) hc hnone
      · exact ⟨hblank, htag⟩
      · cases hside
    texts := fun s hs x => hscans.texts hs
    apart := hscans.apart }

def lineAndTag : List Char := ['x', '\n'] ++ ['\x7b', '\x7b'] ++ ([' '] ++ ['a', ' ', '\x7d', '\x7d'])

private theorem ofTemplate_lineAndTag : ofTemplate (String.ofList lineAndTag) =
    .ok [⟨.text "x\n", ⟨1, 1⟩⟩, ⟨.symbol .openTag, ⟨2, 1⟩⟩, ⟨.name "a", ⟨2, 4⟩⟩,
      ⟨.symbol .closeTag, ⟨2, 6⟩⟩] := by
  have hcode : code .tag (.ofTag (.symbol .openTag)) ⟨2, 4⟩ ['a', ' ', '\x7d', '\x7d'] =
      .ok ⟨[⟨.name "a", ⟨2, 4⟩⟩, ⟨.symbol .closeTag, ⟨2, 6⟩⟩], some (⟨2, 8⟩, [])⟩ := by
    rw [code_token (s := ⟨.name "a", ['a'], [' ', '\x7d', '\x7d']⟩) (by decide) (by decide) rfl,
      code_blank (by decide), code_close rfl]
    rfl
  have htag : tag ⟨2, 1⟩ ⟨2, 3⟩ ([' '] ++ ['a', ' ', '\x7d', '\x7d']) = .ok (_, _, _) :=
    tag_of_code ⟨2, 1⟩ (List.all_eq_true.1 rfl) (by decide) rfl hcode rfl
  have hcut : Text.cut? ['\x7b', '\x7b'] lineAndTag =
      some (['x', '\n'], [' '] ++ ['a', ' ', '\x7d', '\x7d']) := rfl
  rw [ofTemplate, String.toList_ofList, template_tag .start hcut htag (template_nil _)]
  rfl

theorem ofTemplate_tiles_lineAndTag : ∃ spans, spans.map Span.lexeme =
    [⟨.text "x\n", ⟨1, 1⟩⟩, ⟨.symbol .openTag, ⟨2, 1⟩⟩, ⟨.name "a", ⟨2, 4⟩⟩,
      ⟨.symbol .closeTag, ⟨2, 6⟩⟩] ∧ Tiles (String.ofList lineAndTag).toList spans :=
  ofTemplate_tiles ofTemplate_lineAndTag

end Lexer

end LiveMarkup
