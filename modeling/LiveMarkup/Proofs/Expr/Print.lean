import LiveMarkup.Proofs.Expr.Reading
import Mathlib.Data.List.Forall2

/-! Printing expressions. Every part of an expression is printed in round brackets, and what is printed
is read as the same expression. -/

namespace LiveMarkup

def BinaryOp.symbol : BinaryOp → Symbol
  | or => .or
  | and => .and
  | equal => .equal
  | notEqual => .notEqual
  | greater => .greater
  | greaterEqual => .greaterEqual
  | less => .less
  | lessEqual => .lessEqual
  | add => .plus
  | sub => .minus
  | mul => .times
  | div => .divide
  | mod => .modulo

def UnaryOp.symbol : UnaryOp → Symbol
  | not => .not
  | negate => .minus
  | plus => .plus

def Count.symbol : Count → Symbol
  | up => .increment
  | down => .decrement

def CompoundOp.symbol : Option CompoundOp → Symbol
  | none => .assign
  | some .add => .addAssign
  | some .sub => .subAssign
  | some .mul => .mulAssign
  | some .div => .divAssign

@[simp] theorem BinaryOp.binary?_symbol (op : BinaryOp) : op.symbol.binary? = some op := by
  cases op <;> rfl

@[simp] theorem UnaryOp.unary?_symbol (op : UnaryOp) : op.symbol.unary? = some op := by
  cases op <;> rfl

@[simp] theorem Count.count?_symbol (step : Count) : step.symbol.count? = some step := by
  cases step <;> rfl

@[simp] theorem CompoundOp.assignment?_symbol (op : Option CompoundOp) :
    (symbol op).assignment? = some op := by
  rcases op with _ | op
  · rfl
  · cases op <;> rfl

namespace Expr

/-- What a printed token has to be. The keys of hashes and the names of members can be spelled by
different tokens. -/
inductive Mark where
  | token (t : Token)
  /-- The arrow of a lambda, at its place. -/
  | arrow (place : Pos)
  | key (k : String)
  | field (x : String)

/-- Whether a token is as the mark says. Only arrows have to be at a certain place. -/
def Mark.Fits : Mark → Lexeme → Prop
  | token t, l => l.token = t
  | arrow place, l => l = ⟨.symbol .arrow, place⟩
  | key k, l => hashKey? l.token = some k
  | field x, l => memberName? l.token = some x

/-- The tokens are as the marks say. -/
def Spells (ms : List Mark) (ts : List Lexeme) : Prop := List.Forall₂ Mark.Fits ms ts

def Mark.symbol (s : Symbol) : Mark := .token (.symbol s)

def inBrackets (ms : List Mark) : List Mark := .symbol .openRound :: (ms ++ [.symbol .closeRound])

def separated (mss : List (List Mark)) : List Mark := [Mark.symbol .comma].intercalate mss

/-- The parameters of a lambda. If `bare`, a single one stands without brackets. -/
def printParams (bare : Bool) : List String → List Mark
  | [x] => if bare then [.token (.name x)] else inBrackets [.token (.name x)]
  | xs => inBrackets (separated (xs.map fun x => [.token (.name x)]))

mutual

/-- The printed expression. All its parts stand in round brackets. -/
def print (bare : Bool) : Expr → List Mark
  | literal v => [.token (.literal v)]
  | name x => [.token (.name x)]
  | binary op left right =>
    inBrackets (print bare left) ++ .symbol op.symbol :: inBrackets (print bare right)
  | unary op operand => .symbol op.symbol :: inBrackets (print bare operand)
  | list items => .symbol .openSquare :: (separated (printAll bare items) ++ [.symbol .closeSquare])
  | hash entries => .symbol .openCurly :: (separated (printEntries bare entries) ++ [.symbol .closeCurly])
  | member target x => inBrackets (print bare target) ++ [.symbol .dot, .field x]
  | method target x args =>
    inBrackets (print bare target) ++ .symbol .dot :: .field x ::
      inBrackets (separated (printAll bare args))
  | index target key =>
    inBrackets (print bare target) ++ .symbol .openSquare ::
      (inBrackets (print bare key) ++ [.symbol .closeSquare])
  | call callee args => inBrackets (print bare callee) ++ inBrackets (separated (printAll bare args))
  | cond test yes no =>
    inBrackets (print bare test) ++ .symbol .question ::
      (inBrackets (print bare yes) ++ .symbol .colon :: inBrackets (print bare no))
  | lambda place params body => printParams bare params ++ .arrow place :: inBrackets (print bare body)
  | assign x op value =>
    .token (.name x) :: .symbol (CompoundOp.symbol op) :: inBrackets (print bare value)
  | count x step before =>
    if before then [.symbol step.symbol, .token (.name x)] else [.token (.name x), .symbol step.symbol]

def printAll (bare : Bool) : List Expr → List (List Mark)
  | [] => []
  | e :: es => inBrackets (print bare e) :: printAll bare es

def printEntries (bare : Bool) : List (String × Expr) → List (List Mark)
  | [] => []
  | (k, e) :: es => (.key k :: .symbol .colon :: inBrackets (print bare e)) :: printEntries bare es

end

variable {bare : Bool} {ms ms' : List Mark} {mss : List (List Mark)} {t : Lexeme}
  {ts rest rest' : List Lexeme} {e e' : Expr} {es : List Expr} {s close : Symbol} {p : Pos}

/-! What spells marks. -/

@[simp] theorem spells_nil : Spells [] ts ↔ ts = [] := List.forall₂_nil_left_iff

@[simp] theorem spells_cons {m : Mark} :
    Spells (m :: ms) ts ↔ ∃ t ts', m.Fits t ∧ Spells ms ts' ∧ ts = t :: ts' :=
  List.forall₂_cons_left_iff

theorem spells_append : Spells (ms ++ ms') ts ↔ ∃ t u, Spells ms t ∧ Spells ms' u ∧ ts = t ++ u := by
  induction ms generalizing ts with
  | nil => simp
  | cons m ms ih =>
    rw [List.cons_append, spells_cons]
    constructor
    · rintro ⟨t, ts', hm, hts', rfl⟩
      obtain ⟨u, v, hu, hv, rfl⟩ := ih.1 hts'
      exact ⟨t :: u, v, spells_cons.2 ⟨t, u, hm, hu, rfl⟩, hv, rfl⟩
    · rintro ⟨_, v, htu, hv, rfl⟩
      obtain ⟨t, u, hm, hu, rfl⟩ := spells_cons.1 htu
      exact ⟨t, u ++ v, hm, ih.2 ⟨u, v, hu, hv, rfl⟩, rfl⟩

theorem spells_token {token : Token} (h : Spells (.token token :: ms) ts) :
    ∃ p ts', Spells ms ts' ∧ ts = ⟨token, p⟩ :: ts' := by
  obtain ⟨⟨token', p⟩, ts', ht, hts', rfl⟩ := spells_cons.1 h
  cases ht
  exact ⟨p, ts', hts', rfl⟩

private theorem spells_last (h : Spells (ms ++ [.symbol s]) ts) :
    ∃ p ts', Spells ms ts' ∧ ts = ts' ++ [⟨.symbol s, p⟩] := by
  obtain ⟨t, u, ht, hu, rfl⟩ := spells_append.1 h
  obtain ⟨p, _, hnil, rfl⟩ := spells_token hu
  cases spells_nil.1 hnil
  exact ⟨p, t, ht, rfl⟩

private theorem spells_inBrackets (h : Spells (inBrackets ms) ts) : ∃ p q inner, Spells ms inner ∧
    ts = ⟨.symbol .openRound, p⟩ :: (inner ++ [⟨.symbol .closeRound, q⟩]) := by
  obtain ⟨p, _, hts, rfl⟩ := spells_token h
  obtain ⟨q, inner, hinner, rfl⟩ := spells_last hts
  exact ⟨p, q, inner, hinner, rfl⟩

private theorem separated_cons_cons (ms ms' : List Mark) (mss : List (List Mark)) :
    separated (ms :: ms' :: mss) = ms ++ .symbol .comma :: separated (ms' :: mss) := by
  simp [separated, List.intercalate]

/-! Printed expressions are derived. -/

def Prints (ms : List Mark) (e : Expr) : Prop :=
  ∀ ts rest, Spells ms ts → Clear Continues rest → Derives .expr (ts ++ rest) e rest

namespace Prints

/-- In round brackets it can be accessed. -/
private theorem term (h : Prints ms e) (hts : Spells (inBrackets ms) ts)
    (hrest : Clear (· = .symbol .arrow) rest) (ha : Derives (.accesses e) rest e' rest') :
    Derives .term (ts ++ rest) e' rest' := by
  obtain ⟨p, q, inner, hinner, rfl⟩ := spells_inBrackets hts
  have hexpr := h inner (⟨.symbol .closeRound, q⟩ :: rest) hinner (clear_of_symbol (by decide))
  simpa using hexpr.in_brackets hrest ha

/-- In round brackets it is an operand. -/
private theorem operand (h : Prints ms e) (hts : Spells (inBrackets ms) ts)
    (hrest : Clear Binds rest) :
    Derives .unary (ts ++ rest) e rest :=
  (h.term hts (hrest.mono fun _ h => .inr (.inr h))
    (.accessed (hrest.mono fun _ h => .inl h))).unary_of_term (hrest.mono fun _ h => .inr (.inl h))

/-- In round brackets it is still the same expression. -/
private theorem inBrackets (h : Prints ms e) : Prints (inBrackets ms) e := fun _ _ hts hrest =>
  (h.operand hts (hrest.mono fun _ h => h.continues)).expr_of_unary hrest

end Prints

/-- The first of the separated parts, and the others. -/
private theorem spells_separated (h : Spells (separated (ms :: mss)) ts) :
    (mss = [] ∧ Spells ms ts) ∨
    ∃ p first others, Spells ms first ∧ Spells (separated mss) others ∧ mss ≠ [] ∧
      ts = first ++ ⟨.symbol .comma, p⟩ :: others := by
  cases mss with
  | nil => exact .inl ⟨rfl, by simpa [separated, List.intercalate] using h⟩
  | cons ms' mss =>
    rw [separated_cons_cons] at h
    obtain ⟨first, _, hfirst, hu, rfl⟩ := spells_append.1 h
    obtain ⟨p, others, hothers, rfl⟩ := spells_token hu
    exact .inr ⟨p, first, others, hfirst, hothers, nofun, rfl⟩

/-- Separated expressions are a sequence. -/
private theorem derives_sequence (p : Pos) (rest : List Lexeme) (hclose : Closes (.symbol close))
    (h : List.Forall₂ Prints mss es) (hts : Spells (separated mss) ts) :
    Derives (.sequence close) (ts ++ ⟨.symbol close, p⟩ :: rest) es rest := by
  have hcontinues : ¬ Continues (.symbol close) := by
    rcases hclose with h | h <;> cases h <;> decide
  have hcomma : close ≠ .comma := by
    rcases hclose with h | h <;> cases h <;> decide
  have hitems {ts es rest} (h : Derives (.items close) ts es rest) :
      Derives (.sequence close) ts es rest :=
    .someItems ((h.not_closes rfl).mono fun _ h => h ▸ hclose) h
  induction h generalizing ts with
  | nil =>
    cases spells_nil.1 hts
    exact .noItems
  | cons he hes ih =>
    obtain ⟨rfl, hfirst⟩ | ⟨q, first, others, hfirst, hothers, -, rfl⟩ := spells_separated hts
    · cases hes
      exact hitems (.itemsLast hcomma (he _ _ hfirst (clear_of_symbol hcontinues)))
    · rw [List.append_assoc]
      exact hitems (.itemsMore (he _ _ hfirst (clear_of_symbol (by decide))) (ih hothers))

def PrintsEntry (ms : List Mark) (entry : String × Expr) : Prop :=
  ∃ ms', Prints ms' entry.2 ∧ ms = .key entry.1 :: .symbol .colon :: ms'

private theorem PrintsEntry.derives {k : String} {more : List (String × Expr)}
    (h : PrintsEntry ms (k, e)) (hts : Spells ms ts) (hs : ¬ Continues (.symbol s))
    (hmore : Derives .moreEntries (⟨.symbol s, p⟩ :: rest) more rest') :
    Derives .entries (ts ++ ⟨.symbol s, p⟩ :: rest) ((k, e) :: more) rest' := by
  obtain ⟨ms', he, rfl⟩ := h
  obtain ⟨t, _, hkey, hentry, rfl⟩ := spells_cons.1 hts
  obtain ⟨q, value, hvalue, rfl⟩ := spells_token hentry
  exact .entry hkey (he _ _ hvalue (clear_of_symbol hs)) hmore

/-- Separated keys with expressions are the entries of a hash. -/
private theorem derives_entries {entries : List (String × Expr)} (p : Pos) (rest : List Lexeme)
    (h : List.Forall₂ PrintsEntry mss entries) (hts : Spells (separated mss) ts) :
    Derives .entries (ts ++ ⟨.symbol .closeCurly, p⟩ :: rest) entries rest := by
  induction h generalizing ts with
  | nil =>
    cases spells_nil.1 hts
    exact .noEntries
  | cons he hes ih =>
    obtain ⟨rfl, hfirst⟩ | ⟨q, first, others, hfirst, hothers, -, rfl⟩ := spells_separated hts
    · cases hes
      exact he.derives hfirst (by decide) .entriesEnd
    · rw [List.append_assoc]
      exact he.derives hfirst (by decide) (.entriesMore (ih hothers))

/-! What is printed. -/

private theorem prints_literal (v : Literal) : Prints [.token (.literal v)] (.literal v) := by
  intro ts rest hts hrest
  obtain ⟨p, _, hnil, rfl⟩ := spells_token hts
  cases spells_nil.1 hnil
  exact Derives.expr_of_term
    (.literal (.accessed hrest.accesses)) hrest

private theorem prints_name (x : String) : Prints [.token (.name x)] (.name x) := by
  intro ts rest hts hrest
  obtain ⟨p, _, hnil, rfl⟩ := spells_token hts
  cases spells_nil.1 hnil
  exact (derives_name (hrest.mono fun _ h => h.continues)).expr_of_term hrest

private theorem names?_map_name (xs : List String) : names? (xs.map name) = some xs := by
  induction xs with
  | nil => rfl
  | cons x xs ih => rw [List.map_cons, names?, ih, Option.map_some]

/-- A lambda: its parameters stand before the arrow. -/
private theorem derives_lambda {xs : List String} {arrow : Pos}
    (hts : Spells (printParams bare xs) ts) (he : Derives .expr rest e rest') :
    Derives .term (ts ++ ⟨.symbol .arrow, arrow⟩ :: rest) (.lambda arrow xs e) rest' := by
  have hbrackets {mss : List (List Mark)} (hmss : List.Forall₂ Prints mss (xs.map name))
      (hts : Spells (inBrackets (separated mss)) ts) :
      Derives .term (ts ++ ⟨.symbol .arrow, arrow⟩ :: rest) (.lambda arrow xs e) rest' := by
    obtain ⟨p, q, inner, hinner, rfl⟩ := spells_inBrackets hts
    have hseq := derives_sequence q (⟨.symbol .arrow, arrow⟩ :: rest) (.inl rfl) hmss hinner
    simpa using .lambda hseq (names?_map_name xs) he
  have hall : List.Forall₂ Prints (xs.map fun x => [.token (.name x)]) (xs.map name) := by
    rw [List.forall₂_map_left_iff, List.forall₂_map_right_iff, List.forall₂_same]
    exact fun x _ => prints_name x
  unfold printParams at hts
  split at hts
  · next x =>
    cases bare with
    | true =>
      obtain ⟨p, _, hnil, rfl⟩ := spells_token hts
      cases spells_nil.1 hnil
      exact .lambdaOne he
    | false => exact hbrackets hall hts
  · exact hbrackets hall hts

section

variable {msl msr msk : List Mark} {left right key : Expr} {x : String}

private theorem prints_binary (op : BinaryOp) (hl : Prints msl left) (hr : Prints msr right) :
    Prints (inBrackets msl ++ .symbol op.symbol :: inBrackets msr) (.binary op left right) := by
  intro ts rest hts hrest
  obtain ⟨tsl, _, htsl, htail, rfl⟩ := spells_append.1 hts
  obtain ⟨p, tsr, htsr, rfl⟩ := spells_token htail
  rw [List.append_assoc, List.cons_append]
  have hjoins (least : Nat) : Clear (Joins least) rest := hrest.mono fun _ h => h.continues
  have hleft : Derives .unary (tsl ++ ⟨.symbol op.symbol, p⟩ :: (tsr ++ rest)) left _ :=
    hl.operand htsl (clear_of_symbol (by cases op <;> decide))
  have hright : Derives .unary (tsr ++ rest) right rest :=
    hr.operand htsr (hrest.mono fun _ h => h.continues)
  have hop : (Token.symbol op.symbol).symbol?.bind Symbol.binary? = some op := op.binary?_symbol
  refine .plain (.unconditional (.binary hleft (.operator hop (Nat.zero_le _)
    (.binary hright (.operand (hjoins _))) (.operand (hjoins _)))) ?_) ?_
  · exact hrest.mono fun _ => continues_of_question
  · exact hrest.mono fun _ h => h.continues

private theorem prints_unary (op : UnaryOp) (h : Prints ms e) :
    Prints (.symbol op.symbol :: inBrackets ms) (.unary op e) := by
  intro ts rest hts hrest
  obtain ⟨p, inner, hinner, rfl⟩ := spells_token hts
  have hoperand := h.operand hinner (hrest.mono fun _ h => h.continues)
  have hop : (Token.symbol op.symbol).symbol?.bind Symbol.unary? = some op := op.unary?_symbol
  exact Derives.expr_of_unary (.unary hop hoperand) hrest

private theorem prints_list (h : List.Forall₂ Prints mss es) :
    Prints (.symbol .openSquare :: (separated mss ++ [.symbol .closeSquare])) (.list es) := by
  intro ts rest hts hrest
  obtain ⟨p, _, htail, rfl⟩ := spells_token hts
  obtain ⟨q, inner, hinner, rfl⟩ := spells_last htail
  have hseq := derives_sequence q rest (.inr rfl) h hinner
  refine Derives.expr_of_term ?_ hrest
  simpa using Derives.list hseq (.accessed hrest.accesses)

private theorem prints_hash {entries : List (String × Expr)}
    (h : List.Forall₂ PrintsEntry mss entries) :
    Prints (.symbol .openCurly :: (separated mss ++ [.symbol .closeCurly])) (.hash entries) := by
  intro ts rest hts hrest
  obtain ⟨p, _, htail, rfl⟩ := spells_token hts
  obtain ⟨q, inner, hinner, rfl⟩ := spells_last htail
  have hentries := derives_entries q rest h hinner
  refine Derives.expr_of_term ?_ hrest
  simpa using Derives.hash hentries (.accessed hrest.accesses)

/-- What accesses an expression in round brackets. -/
private theorem prints_accessed (h : Prints ms e)
    (ha : ∀ ts rest, Spells ms' ts → Clear Continues rest →
      Clear (· = .symbol .arrow) (ts ++ rest) ∧ Derives (.accesses e) (ts ++ rest) e' rest) :
    Prints (inBrackets ms ++ ms') e' := by
  intro ts rest hts hrest
  obtain ⟨inner, access, hinner, haccess, rfl⟩ := spells_append.1 hts
  obtain ⟨harrow, haccess⟩ := ha access rest haccess hrest
  rw [List.append_assoc]
  exact (h.term hinner harrow haccess).expr_of_term hrest

private theorem prints_member (h : Prints ms e) :
    Prints (inBrackets ms ++ [.symbol .dot, .field x]) (.member e x) := by
  refine prints_accessed h fun ts rest hts hrest => ?_
  obtain ⟨p, _, htail, rfl⟩ := spells_token hts
  obtain ⟨t, _, ht, hnil, rfl⟩ := spells_cons.1 htail
  cases spells_nil.1 hnil
  have haccesses : Clear Accesses rest := hrest.accesses
  exact ⟨clear_of_symbol (by decide),
    .member ht (haccesses.mono fun _ h => .inr (.inr h)) (.accessed haccesses)⟩

private theorem prints_method (h : Prints ms e) (hargs : List.Forall₂ Prints mss es) :
    Prints (inBrackets ms ++ .symbol .dot :: .field x :: inBrackets (separated mss)) (.method e x es) := by
  refine prints_accessed h fun ts rest hts hrest => ?_
  obtain ⟨p, _, htail, rfl⟩ := spells_token hts
  obtain ⟨t, _, ht, hbrackets, rfl⟩ := spells_cons.1 htail
  obtain ⟨q, r, inner, hinner, rfl⟩ := spells_inBrackets hbrackets
  have hseq := derives_sequence r rest (.inl rfl) hargs hinner
  refine ⟨clear_of_symbol (by decide), ?_⟩
  simpa using Derives.method ht hseq (.accessed hrest.accesses)

private theorem prints_index (h : Prints ms e) (hkey : Prints msk key) :
    Prints (inBrackets ms ++ .symbol .openSquare :: (inBrackets msk ++ [.symbol .closeSquare]))
      (.index e key) := by
  refine prints_accessed h fun ts rest hts hrest => ?_
  obtain ⟨p, _, htail, rfl⟩ := spells_token hts
  obtain ⟨q, inner, hinner, rfl⟩ := spells_last htail
  have hk := hkey.inBrackets inner (⟨.symbol .closeSquare, q⟩ :: rest) hinner
    (clear_of_symbol (by decide))
  refine ⟨clear_of_symbol (by decide), ?_⟩
  simpa using Derives.index hk (.accessed hrest.accesses)

private theorem prints_call (h : Prints ms e) (hargs : List.Forall₂ Prints mss es) :
    Prints (inBrackets ms ++ inBrackets (separated mss)) (.call e es) := by
  refine prints_accessed h fun ts rest hts hrest => ?_
  obtain ⟨p, q, inner, hinner, rfl⟩ := spells_inBrackets hts
  have hseq := derives_sequence q rest (.inl rfl) hargs hinner
  refine ⟨clear_of_symbol (by decide), ?_⟩
  simpa using Derives.call hseq (.accessed hrest.accesses)

private theorem prints_cond {mst msy msn : List Mark} {test yes no : Expr} (ht : Prints mst test)
    (hy : Prints msy yes) (hn : Prints msn no) :
    Prints (inBrackets mst ++ .symbol .question :: (inBrackets msy ++ .symbol .colon :: inBrackets msn))
      (.cond test yes no) := by
  intro ts rest hts hrest
  obtain ⟨tst, _, htst, htail, rfl⟩ := spells_append.1 hts
  obtain ⟨p, _, houtcomes, rfl⟩ := spells_token htail
  obtain ⟨tsy, _, htsy, hotherwise, rfl⟩ := spells_append.1 houtcomes
  obtain ⟨q, tsn, htsn, rfl⟩ := spells_token hotherwise
  have htest : Derives .unary
      (tst ++ ⟨.symbol .question, p⟩ :: (tsy ++ ⟨.symbol .colon, q⟩ :: (tsn ++ rest))) test _ := ht.operand htst (clear_of_symbol (by decide))
  have hyes := hy.inBrackets tsy (⟨.symbol .colon, q⟩ :: (tsn ++ rest)) htsy (clear_of_symbol (by decide))
  have hno := hn.inBrackets tsn rest htsn hrest
  have hcond := Derives.cond (.binary htest (.operand (clear_of_symbol (by decide)))) hyes hno
  simpa using Derives.plain hcond (hrest.mono fun _ h => h.continues)

private theorem prints_lambda {xs : List String} (place : Pos) (h : Prints ms e) :
    Prints (printParams bare xs ++ .arrow place :: inBrackets ms) (.lambda place xs e) := by
  intro ts rest hts hrest
  obtain ⟨params, _, hparams, htail, rfl⟩ := spells_append.1 hts
  obtain ⟨t, body, ht, hbody, rfl⟩ := spells_cons.1 htail
  cases ht
  have he := h.inBrackets body rest hbody hrest
  simpa using (derives_lambda hparams he).expr_of_term hrest

private theorem prints_assign (x : String) (op : Option CompoundOp) (h : Prints ms e) :
    Prints (.token (.name x) :: .symbol (CompoundOp.symbol op) :: inBrackets ms) (.assign x op e) := by
  intro ts rest hts hrest
  obtain ⟨p, _, htail, rfl⟩ := spells_token hts
  obtain ⟨q, value, hvalue, rfl⟩ := spells_token htail
  have he := h.inBrackets value rest hvalue hrest
  have hsymbol : ¬ Binds (.symbol (CompoundOp.symbol op)) ∧ ¬ Joins 0 (.symbol (CompoundOp.symbol op)) ∧
      ¬ (.symbol (CompoundOp.symbol op) : Token) = .symbol .question := by
    rcases op with _ | op
    · decide
    · cases op <;> decide
  obtain ⟨hbinds, hjoins, hquestion⟩ := hsymbol
  have hname : Derives .unary (⟨.name x, p⟩ :: ⟨.symbol (CompoundOp.symbol op), q⟩ :: (value ++ rest))
      (.name x) _ :=
    (derives_name (clear_of_symbol hbinds)).unary_of_term
      (clear_of_symbol fun h => hbinds (.inr (.inl h)))
  exact .assign (.unconditional (.binary hname (.operand (clear_of_symbol hjoins)))
    (clear_of_symbol hquestion)) (CompoundOp.assignment?_symbol op) he

private theorem prints_count (x : String) (step : Count) (before : Bool) :
    Prints (if before then [.symbol step.symbol, .token (.name x)] else
      [.token (.name x), .symbol step.symbol]) (.count x step before) := by
  intro ts rest hts hrest
  have hstep : (Token.symbol step.symbol).symbol?.bind Symbol.count? = some step := step.count?_symbol
  cases before with
  | true =>
    obtain ⟨p, _, htail, rfl⟩ := spells_token hts
    obtain ⟨q, _, hnil, rfl⟩ := spells_token htail
    cases spells_nil.1 hnil
    exact Derives.expr_of_unary (.countBefore hstep) hrest
  | false =>
    obtain ⟨p, _, htail, rfl⟩ := spells_token hts
    obtain ⟨q, _, hnil, rfl⟩ := spells_token htail
    cases spells_nil.1 hnil
    have hclear : Clear Accesses (⟨.symbol step.symbol, q⟩ :: rest) ∧
        Clear (· = .symbol .arrow) (⟨.symbol step.symbol, q⟩ :: rest) := by
      cases step <;> exact ⟨clear_of_symbol (by decide), clear_of_symbol (by decide)⟩
    have hname : Derives .term (⟨.name x, p⟩ :: ⟨.symbol step.symbol, q⟩ :: rest) (.name x) _ :=
      .name hclear.2 (.accessed hclear.1)
    exact Derives.expr_of_unary (.countAfter nofun nofun hname hstep) hrest

end

mutual

/-- Printed expressions are derived. -/
private theorem prints_print (bare : Bool) : (e : Expr) → Prints (print bare e) e
  | literal v => prints_literal v
  | name x => prints_name x
  | binary op left right => prints_binary op (prints_print bare left) (prints_print bare right)
  | unary op operand => prints_unary op (prints_print bare operand)
  | list items => prints_list (prints_printAll bare items)
  | hash entries => prints_hash (prints_printEntries bare entries)
  | member target _ => prints_member (prints_print bare target)
  | method target _ args => prints_method (prints_print bare target) (prints_printAll bare args)
  | index target key => prints_index (prints_print bare target) (prints_print bare key)
  | call callee args => prints_call (prints_print bare callee) (prints_printAll bare args)
  | cond test yes no =>
    prints_cond (prints_print bare test) (prints_print bare yes) (prints_print bare no)
  | lambda place _ body => prints_lambda place (prints_print bare body)
  | assign x op value => prints_assign x op (prints_print bare value)
  | count x step before => prints_count x step before

theorem prints_printAll (bare : Bool) : (es : List Expr) → List.Forall₂ Prints (printAll bare es) es
  | [] => .nil
  | e :: es => .cons (prints_print bare e).inBrackets (prints_printAll bare es)

theorem prints_printEntries (bare : Bool) : (entries : List (String × Expr)) →
    List.Forall₂ PrintsEntry (printEntries bare entries) entries
  | [] => .nil
  | (_, e) :: entries =>
    .cons ⟨_, (prints_print bare e).inBrackets, rfl⟩ (prints_printEntries bare entries)

end

def Mark.lexeme : Mark → Lexeme
  | token t => ⟨t, .start⟩
  | arrow place => ⟨.symbol .arrow, place⟩
  | key k => ⟨.literal (.string k), .start⟩
  | field x => ⟨.name x, .start⟩

theorem spells_lexemes (ms : List Mark) : Spells ms (ms.map Mark.lexeme) := by
  refine List.forall₂_map_right_iff.2 (List.forall₂_same.2 fun m _ => ?_)
  cases m <;> rfl

/-- A printed expression is read as that expression, and whatever does not go on with it is left. Of
its tokens only the arrows have to be at their places. -/
theorem parse_print (bare : Bool) (e : Expr) (hts : Spells (print bare e) ts)
    (hrest : Clear Continues rest) : parse (ts ++ rest) = .ok (e, rest) := by
  rw [parse_eq]
  exact (prints_print bare e ts rest hts hrest).read

/-- A lambda, a hash with an element of what a call returns, and a conditional that is added to a
variable. -/
def sample : Expr :=
  list [lambda ⟨2, 7⟩ ["x"] (unary .negate (name "y")),
    hash [("k", index (call (name "f") [count "x" .up false]) (literal (.int 0)))],
    assign "a" (some .add) (cond (name "a") (name "b") (method (name "c") "d" [name "e"]))]

theorem parse_print_sample :
    Spells (print true sample) ((print true sample).map Mark.lexeme) ∧
      Clear Continues [⟨.symbol .closeTag, .start⟩] ∧
      parse ((print true sample).map Mark.lexeme ++ [⟨.symbol .closeTag, .start⟩]) =
        .ok (sample, [⟨.symbol .closeTag, .start⟩]) :=
  ⟨spells_lexemes _, clear_of_symbol (by decide),
    parse_print true sample (spells_lexemes _) (clear_of_symbol (by decide))⟩

end Expr

end LiveMarkup
