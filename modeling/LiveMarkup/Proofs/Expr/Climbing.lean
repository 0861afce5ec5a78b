import LiveMarkup.Proofs.Expr.Print

/-! Operators without brackets. A chain of operands is read as the only tree that has them in this order
and groups them by how tightly the operators between them bind, operators that bind alike from the left. -/

namespace LiveMarkup

/-- The operators, the loosest first. Those of one group bind alike. -/
def BinaryOp.groups : List (List BinaryOp) :=
  [[or], [and], [equal, notEqual], [greater, greaterEqual, less, lessEqual], [add, sub], [mul, div, mod]]

/-- The place of the group of an operator: the tighter it binds, the further back. -/
def BinaryOp.level (op : BinaryOp) : Nat := groups.findIdx (op ∈ ·)

private theorem BinaryOp.precedence_eq (op : BinaryOp) : op.precedence = op.level + 1 := by
  cases op <;> rfl

inductive Atom where
  | literal (v : Literal)
  | name (x : String)

namespace Atom

def token : Atom → Token
  | literal v => .literal v
  | name x => .name x

def expr : Atom → Expr
  | literal v => .literal v
  | name x => .name x

end Atom

/-- An operand without brackets: a constant or a variable after unary operators. -/
structure Operand where
  signs : List UnaryOp
  atom : Atom

structure Link where
  op : BinaryOp
  operand : Operand

namespace Operand

def marks (a : Operand) : List Expr.Mark :=
  a.signs.map (fun op => .symbol op.symbol) ++ [.token a.atom.token]

def expr (a : Operand) : Expr := a.signs.foldr .unary a.atom.expr

end Operand

namespace Link

def marks (links : List Link) : List Expr.Mark :=
  links.flatMap fun l => .symbol l.op.symbol :: l.operand.marks

def leaf (l : Link) : BinaryOp × Expr := (l.op, l.operand.expr)

end Link

namespace Expr

def operator? : Expr → Option BinaryOp
  | binary op _ _ => some op
  | _ => none

/-- A tree read from left to right: the first leaf, and the operators with the leaves after them. -/
def inOrder : Expr → Expr × List (BinaryOp × Expr)
  | binary op left right =>
    (left.inOrder.1, left.inOrder.2 ++ (op, right.inOrder.1) :: right.inOrder.2)
  | e => (e, [])

/-- To the left of an operator stands nothing that binds looser, to its right nothing that binds looser or
alike. -/
def Grouped : Expr → Prop
  | binary op left right =>
    (∀ op' ∈ left.operator?, op.level ≤ op'.level) ∧ (∀ op' ∈ right.operator?, op.level < op'.level) ∧
      left.Grouped ∧ right.Grouped
  | _ => True

/-- The tree has the operands and operators of the chain in order, and groups them. -/
structure Groups (e : Expr) (a : Operand) (links : List Link) : Prop where
  inOrder : e.inOrder = (a.expr, links.map Link.leaf)
  grouped : e.Grouped

variable {e e' left right : Expr} {a : Operand} {links : List Link} {ts rest : List Lexeme} {least n : Nat}

/-! A tree is determined by what it is from left to right. -/

private theorem le_level_of_mem (h : e.Grouped) (hn : ∀ op ∈ e.operator?, n ≤ op.level) :
    ∀ l ∈ e.inOrder.2, n ≤ l.1.level := by
  fun_induction inOrder e generalizing n with
  | case1 op left right ihleft ihright =>
    obtain ⟨hleft, hright, hgleft, hgright⟩ := h
    have hop : n ≤ op.level := hn op rfl
    intro l hl
    rcases List.mem_append.1 hl with hl | hl
    · exact ihleft hgleft (fun op' hop' => Nat.le_trans hop (hleft op' hop')) l hl
    · rcases List.mem_cons.1 hl with rfl | hl
      · exact hop
      · exact ihright hgright (fun op' hop' => Nat.le_trans hop (Nat.le_of_lt (hright op' hop'))) l hl
  | case2 => nofun

/-- The root is the last of the loosest operators, so there is one way only to cut at it. -/
private theorem cut_unique {before before' after after' : List (BinaryOp × Expr)}
    {x x' : BinaryOp × Expr} (hbefore : ∀ l ∈ before', x'.1.level ≤ l.1.level)
    (hafter : ∀ l ∈ after, x.1.level + 1 ≤ l.1.level) {more : List (BinaryOp × Expr)}
    (hmore : before' = before ++ more) (h : x :: after = more ++ x' :: after') :
    before = before' ∧ x = x' ∧ after = after' := by
  cases more with
  | nil =>
    obtain ⟨rfl, rfl⟩ := List.cons.inj h
    exact ⟨by rw [hmore, List.append_nil], rfl, rfl⟩
  | cons y more =>
    obtain ⟨rfl, rfl⟩ := List.cons.inj h
    have hle := hbefore x (hmore ▸ List.mem_append_right _ List.mem_cons_self)
    have hlt := hafter x' (List.mem_append_right _ List.mem_cons_self)
    omega

/-- A tree without operators is a leaf. -/
private theorem inOrder_of_eq_nil (h : e.inOrder.2 = []) : e.inOrder = (e, []) := by
  revert h
  fun_cases inOrder e with
  | case1 op left right => exact fun h => absurd h (by simp)
  | case2 => exact fun _ => rfl

/-- A tree with operators has a root. -/
private theorem exists_of_inOrder_ne_nil (h : e.inOrder.2 ≠ []) :
    ∃ op left right, e = .binary op left right := by
  revert h
  fun_cases inOrder e with
  | case1 op left right => exact fun _ => ⟨op, left, right, rfl⟩
  | case2 => exact fun h => absurd rfl h

private theorem Grouped.eq_of_inOrder (h : e.Grouped) (h' : e'.Grouped)
    (heq : e.inOrder = e'.inOrder) :
    e = e' := by
  fun_induction inOrder e generalizing e' with
  | case1 op left right ihleft ihright =>
    obtain ⟨op', left', right', rfl⟩ : ∃ op' left' right', e' = .binary op' left' right' :=
      exists_of_inOrder_ne_nil (heq ▸ by simp)
    obtain ⟨hleft, hright, hgleft, hgright⟩ := h
    obtain ⟨hleft', hright', hgleft', hgright'⟩ := h'
    rw [inOrder] at heq
    obtain ⟨hfirst, hlinks⟩ := Prod.mk.inj heq
    -- Both trees are cut at their roots, of which one cannot come before the other.
    have htight := le_level_of_mem (n := op.level + 1) hgright hright
    have htight' := le_level_of_mem (n := op'.level + 1) hgright' hright'
    have hcut : left.inOrder.2 = left'.inOrder.2 ∧ (op, right.inOrder.1) = (op', right'.inOrder.1) ∧
        right.inOrder.2 = right'.inOrder.2 := by
      rcases List.append_eq_append_iff.1 hlinks with ⟨more, hmore, hrest⟩ | ⟨more, hmore, hrest⟩
      · exact cut_unique (le_level_of_mem hgleft' hleft') htight hmore hrest
      · obtain ⟨h₁, h₂, h₃⟩ :=
          cut_unique (le_level_of_mem hgleft hleft) htight' hmore hrest
        exact ⟨h₁.symm, h₂.symm, h₃.symm⟩
    obtain ⟨hbefore, hroot, hafter⟩ := hcut
    obtain ⟨rfl, hsecond⟩ := Prod.mk.inj hroot
    rw [ihleft hgleft hgleft' (Prod.ext hfirst hbefore),
      ihright hgright hgright' (Prod.ext hsecond hafter)]
  | case2 e hleaf =>
    have hnil : e'.inOrder.2 = [] := (congrArg Prod.snd heq).symm
    exact congrArg Prod.fst (heq.trans (inOrder_of_eq_nil hnil))

/-! Operands. -/

/-- An operand is a leaf. -/
private theorem operand_leaf (a : Operand) :
    a.expr.operator? = none ∧ a.expr.inOrder = (a.expr, []) ∧ a.expr.Grouped := by
  obtain ⟨signs, atom⟩ := a
  cases signs with
  | cons op signs => exact ⟨rfl, rfl, trivial⟩
  | nil => cases atom <;> exact ⟨rfl, rfl, trivial⟩

private theorem derives_atom {x : Atom} {p : Pos} (hrest : Clear Binds rest) :
    Derives .unary (⟨x.token, p⟩ :: rest) x.expr rest := by
  have hcounts : Clear Counts rest := hrest.mono fun _ h => .inr (.inl h)
  cases x with
  | literal v => exact Derives.unary_of_term (.literal (.accessed (hrest.mono fun _ h => .inl h))) hcounts
  | name x => exact (derives_name hrest).unary_of_term hcounts

private theorem derives_operand (h : Spells a.marks ts) (hrest : Clear Binds rest) :
    Derives .unary (ts ++ rest) a.expr rest := by
  obtain ⟨signs, atom⟩ := a
  induction signs generalizing ts with
  | nil =>
    obtain ⟨p, _, hnil, rfl⟩ := spells_token h
    cases spells_nil.1 hnil
    exact derives_atom hrest
  | cons op signs ih =>
    obtain ⟨p, ts', hts', rfl⟩ := spells_token h
    exact .unary op.unary?_symbol (ih hts')

/-! The loop over operators. -/

/-- What is made of a left operand by operators that bind at least as tightly as `least`: those in `used`
have been taken in, and the next one binds looser. -/
structure Climbed (least : Nat) (left : Expr) (used unused : List Link) (e : Expr) : Prop where
  grouped : e.Grouped
  tight : ∀ op ∈ e.operator?, least ≤ op.precedence
  inOrder : e.inOrder = (left.inOrder.1, left.inOrder.2 ++ used.map Link.leaf)
  stops : ∀ l ∈ unused.head?, l.op.precedence < least

private theorem clear_links (h : Spells (Link.marks links) ts) (hrest : Clear Continues rest) :
    Clear Binds (ts ++ rest) := by
  cases links with
  | nil =>
    cases spells_nil.1 h
    exact hrest.mono fun _ h => h.continues
  | cons l links =>
    obtain ⟨p, ts', -, rfl⟩ := spells_token h
    exact clear_of_symbol (by cases l.op <;> decide)

/-- Nothing is taken in if the next operator binds looser. -/
theorem Climbed.refl (hleft : left.Grouped) (htight : ∀ op ∈ left.operator?, least ≤ op.precedence)
    (hstops : ∀ l ∈ links.head?, l.op.precedence < least) : Climbed least left [] links left where
  grouped := hleft
  tight := htight
  inOrder := by simp
  stops := hstops

/-- An operator has taken in its right operand, and the loop goes on with what they make. -/
private theorem Climbed.step {l : Link} {used used' unused unused' : List Link}
    (hright : Climbed (l.op.precedence + 1) l.operand.expr used unused right)
    (h : Climbed least (.binary l.op left right) used' unused' e) :
    Climbed least left (l :: used ++ used') unused' e where
  grouped := h.grouped
  tight := h.tight
  inOrder := by
    rw [h.inOrder, Expr.inOrder, hright.inOrder, (operand_leaf l.operand).2.1]
    simp [Link.leaf]
  stops := h.stops

/-- What the right operand leaves does not bind tighter than the operator. -/
private theorem grouped_binary {op : BinaryOp} (hleft : left.Grouped) (hright : right.Grouped)
    (hopleft : ∀ op' ∈ left.operator?, op.precedence ≤ op'.precedence)
    (hopright : ∀ op' ∈ right.operator?, op.precedence + 1 ≤ op'.precedence) :
    (binary op left right).Grouped := by
  simp only [BinaryOp.precedence_eq] at hopleft hopright
  exact ⟨fun op' h => Nat.le_of_succ_le_succ (hopleft op' h),
    fun op' h => Nat.le_of_succ_le_succ (hopright op' h), hleft, hright⟩

/-- The operators that follow a left operand are read up to one that binds looser than `least`. -/
private theorem derives_operators (least : Nat) (hts : Spells (Link.marks links) ts)
    (hrest : Clear Continues rest) (hleft : left.Grouped)
    (htight : ∀ op ∈ left.operator?, least ≤ op.precedence)
    (hnext : ∀ l ∈ links.head?, ∀ op ∈ left.operator?, l.op.precedence ≤ op.precedence) :
    ∃ e used unused ts', links = used ++ unused ∧ Spells (Link.marks unused) ts' ∧
      Derives (.operators least left) (ts ++ rest) e (ts' ++ rest) ∧ Climbed least left used unused e := by
  -- The right operand and what follows it are chains of their own, both of them shorter.
  induction hn : links.length using Nat.strongRecOn generalizing links ts least left with
  | ind n ih =>
    subst hn
    cases links with
    | nil =>
      cases spells_nil.1 hts
      refine ⟨left, [], [], [], rfl, hts, .operand (hrest.mono fun _ h => h.continues), ?_⟩
      exact .refl hleft htight nofun
    | cons l links =>
      obtain ⟨p, tail, htail, rfl⟩ := spells_token hts
      obtain ⟨operand, more, hoperand, hmore, rfl⟩ := spells_append.1 htail
      by_cases hle : least ≤ l.op.precedence
      · obtain ⟨hroot, -, hgrouped⟩ := operand_leaf l.operand
        obtain ⟨right, used, unused, ts₁, rfl, hunused, hright, hclimbed⟩ :=
          ih links.length (Nat.lt_succ_self _) (l.op.precedence + 1) hmore hgrouped
            (by rw [hroot]; nofun) (by rw [hroot]; nofun) rfl
        have hbinary := grouped_binary hleft hclimbed.grouped (hnext l rfl) hclimbed.tight
        have hlt : unused.length < (l :: (used ++ unused)).length := by
          rw [List.length_cons, List.length_append]
          omega
        obtain ⟨e, used', unused', ts₂, rfl, hunused', hrun, hclimbed'⟩ :=
          ih unused.length hlt least hunused hbinary
            (by rintro _ ⟨⟩; exact hle)
            (by rintro l' hl' _ ⟨⟩; exact Nat.le_of_lt_succ (hclimbed.stops l' hl')) rfl
        refine ⟨e, l :: used ++ used', unused', ts₂, by simp, hunused', ?_, hclimbed.step hclimbed'⟩
        rw [List.cons_append, List.append_assoc]
        exact .operator l.op.binary?_symbol hle
          (.binary (derives_operand hoperand (clear_links hmore hrest)) hright) hrun
      · have hjoins : ¬ Joins least (.symbol l.op.symbol) := by
          rintro ⟨op, hop, hleast⟩
          cases l.op.binary?_symbol.symm.trans hop
          exact hle hleast
        refine ⟨left, [], l :: links, _, rfl, hts, .operand (clear_of_symbol hjoins), ?_⟩
        refine .refl hleft htight ?_
        rintro _ ⟨⟩
        exact Nat.lt_of_not_le hle

/-- The tokens of a chain: an operand, and operators with further ones. -/
def chain (a : Operand) (links : List Link) : List Mark := a.marks ++ Link.marks links

/-- A chain before tokens that do not go on with it is read whole, as the only tree that has its operands
and operators in order and groups them. -/
theorem parse_chain (a : Operand) (links : List Link) (hts : Spells (chain a links) ts)
    (hrest : Clear Continues rest) :
    ∃ e, parse (ts ++ rest) = .ok (e, rest) ∧ e.Groups a links ∧ ∀ e', e'.Groups a links → e' = e := by
  obtain ⟨operand, tail, hoperand, htail, rfl⟩ := spells_append.1 hts
  obtain ⟨hroot, hleaf, hgrouped⟩ := operand_leaf a
  obtain ⟨e, used, unused, ts', rfl, hunused, hrun, hclimbed⟩ :=
    derives_operators 0 htail hrest hgrouped (by rw [hroot]; nofun) (by rw [hroot]; nofun)
  -- No operator binds looser than all others, so all have been used.
  obtain rfl : unused = [] := by
    cases unused with
    | nil => rfl
    | cons l unused => exact absurd (hclimbed.stops l rfl) (Nat.not_lt_zero _)
  cases spells_nil.1 hunused
  have hgroups : e.Groups a used := ⟨by rw [hclimbed.inOrder, hleaf]; rfl, hclimbed.grouped⟩
  refine ⟨e, ?_, by rwa [List.append_nil], fun e' h' => ?_⟩
  · have hunary := derives_operand hoperand (clear_links htail hrest)
    have hexpr : Derives .expr (operand ++ (tail ++ rest)) e rest :=
      .plain (.unconditional (.binary hunary hrun) (hrest.mono fun _ => continues_of_question))
        (hrest.mono fun _ h => h.continues)
    rw [List.append_assoc, parse_eq, hexpr.read]
  · rw [List.append_nil] at h'
    exact h'.grouped.eq_of_inOrder hgroups.grouped (h'.inOrder.trans hgroups.inOrder.symm)

/-- The tokens of `a - -b * c - 1 == !!d || e`. -/
def mixedChain : List Mark :=
  chain ⟨[], .name "a"⟩ [⟨.sub, [.negate], .name "b"⟩, ⟨.mul, [], .name "c"⟩,
    ⟨.sub, [], .literal (.int 1)⟩, ⟨.equal, [.not, .not], .name "d"⟩, ⟨.or, [], .name "e"⟩]

def mixedTree : Expr :=
  binary .or
    (binary .equal
      (binary .sub
        (binary .sub (name "a") (binary .mul (unary .negate (name "b")) (name "c")))
        (literal (.int 1)))
      (unary .not (unary .not (name "d"))))
    (name "e")

theorem parse_mixedChain :
    Spells mixedChain (mixedChain.map Mark.lexeme) ∧
      Clear Continues [⟨.symbol .closeTag, .start⟩] ∧
      parse (mixedChain.map Mark.lexeme ++ [⟨.symbol .closeTag, .start⟩]) =
        .ok (mixedTree, [⟨.symbol .closeTag, .start⟩]) := by
  have hts : Spells mixedChain (mixedChain.map Mark.lexeme) := spells_lexemes _
  have hrest : Clear Continues [⟨.symbol .closeTag, .start⟩] := clear_of_symbol (by decide)
  obtain ⟨e, hparse, -, hunique⟩ := parse_chain _ _ hts hrest
  have hgrouped : mixedTree.Grouped := by
    simp [mixedTree, Grouped, operator?, BinaryOp.level, BinaryOp.groups, List.findIdx_cons]
  exact ⟨hts, hrest, (hunique mixedTree ⟨rfl, hgrouped⟩) ▸ hparse⟩

end Expr

end LiveMarkup
