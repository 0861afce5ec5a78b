import Mathlib.Data.List.Basic
import LiveMarkup.Document.Basic
import LiveMarkup.Proofs.Forest.Release

/-! The head of a document that holds nothing but stylesheets. It can be read back from the head what
they are, a stylesheet that is added comes last, and nothing that is done outside the head changes
them. -/

namespace LiveMarkup

variable {α : Type}

/-! Adding a stylesheet. Nothing but a new last child of the head shows of it. -/

private theorem Forest.children_attach_of_ne {f : Forest α} {parent q : NodeId} (hq : q ≠ parent)
    (place : List NodeId → List NodeId) (id : NodeId) :
    (f.attach parent place id).children q = f.children q := by
  simp only [attach, children_modify, implies_true]
  simp only [children, node?_modify, if_neg hq]

namespace Document

open Forest

/-- The document `d'` is `d` with no more than new style elements at the end of the head. -/
structure Styled (d d' : Document α) (styles : List NodeId) : Prop
    extends Extended d.forest d'.forest d.head styles where
  root_eq : d'.root = d.root
  head_eq : d'.head = d.head
  body_eq : d'.body = d.body

theorem Styled.refl (d : Document α) : Styled d d [] :=
  ⟨⟨Nat.le_refl _, fun _ _ => rfl, fun _ _ => rfl, fun n _ => by simp, by simp⟩, rfl, rfl, rfl⟩

/-- A stylesheet that is added shows nowhere but in the head, as one style element. -/
theorem addStylesheet_styled (d : Document α) (attr css : String) :
    ∃ styles, Styled d (d.addStylesheet attr css) styles ∧ styles.length ≤ 1 ∧
      ∀ n ∈ styles,
        (d.addStylesheet attr css).forest.kind? n = some (.element "style" [(attr, "")] []) := by
  unfold addStylesheet
  split
  · exact ⟨[], .refl d, Nat.zero_le _, by simp⟩
  · obtain ⟨f, root, head, body⟩ := d
    simp only [plant, plantAll, create_fst]
    generalize hk : NodeKind.element "style" [(attr, "")] [] = kind
    have hlt (n : NodeId) (hn : f.Has n) : n ≠ f.nodes.size ∧ n ≠ f.nodes.size + 1 :=
      ⟨Nat.ne_of_lt hn, Nat.ne_of_lt (Nat.lt_succ_of_lt hn)⟩
    refine ⟨[f.nodes.size],
      ⟨⟨?_, fun n hn => ?_, fun n hn => ?_, fun n hn => ?_, ?_⟩, rfl, rfl, rfl⟩, Nat.le_refl _,
      fun n hn => ?_⟩
    · simp only [size_attach, size_create]
      exact Nat.le_add_right _ 2
    · simp only [kind?_attach, kind?_create, size_create, if_neg (hlt n hn).1, if_neg (hlt n hn).2]
    · rw [parent?_attach, if_neg (hlt n hn).1, parent?_attach, size_create, if_neg (hlt n hn).2,
        parent?_create, parent?_create]
      · simp [Has]
      · simp only [Has, size_attach, size_create]
        exact Nat.lt_add_of_pos_right Nat.two_pos
    · have hn' : n ≠ f.nodes.size := (hlt n hn).1
      by_cases hh : n = head
      · subst hh
        have hhas : f.nodes.size + 1 + 1 > n := Nat.lt_succ_of_lt (Nat.lt_succ_of_lt hn)
        rw [children_attach (by simpa [Has] using hhas), children_attach_of_ne hn', children_create,
          children_create]
      · rw [children_attach_of_ne hh, children_attach_of_ne hn', children_create, children_create,
          if_neg hh]
    · simp [Has]
    · rw [List.mem_singleton.1 hn, kind?_attach, kind?_attach, kind?_create, size_create,
        if_neg (Nat.ne_of_lt (Nat.lt_succ_self _)), kind?_create, if_pos rfl]

/-- A forest with a stylesheet more is linked. -/
theorem addStylesheet_linked {d : Document α} (hd : d.forest.Linked) (hh : d.forest.Has d.head)
    (attr css : String) : (d.addStylesheet attr css).forest.Linked := by
  unfold addStylesheet
  split
  · exact hd
  · obtain ⟨hg, -, hroot, hsize, -⟩ := plant_spec hd (.element "style" [(attr, "")] [] [.text css])
    have hhas := Nat.lt_of_lt_of_le (Nat.lt_add_of_pos_right (by simp [Html.depth])) hsize
    exact (attach_grown (hg d.head) hh (Nat.lt_irrefl _) hhas hroot).linked

end Document

/-! What is in the head. -/

namespace Forest

variable {f f' : Forest α}

/-- The node is a style element under an attribute, and there is nothing but the style text in it. -/
def IsSheet (f : Forest α) (sheet : String × String) (n : NodeId) : Prop :=
  f.kind? n = some (.element "style" [(sheet.1, "")] []) ∧
    ∃ t, f.children n = [t] ∧ f.kind? t = some (.text sheet.2) ∧ f.children t = []

private theorem has_of_kind? {n : NodeId} {kind : NodeKind α} (h : f.kind? n = some kind) :
    f.Has n := by
  by_contra hn
  rw [kind?, node?_eq_none.2 hn] at h
  cases h

variable {n : NodeId} {sheet : String × String}

/-- The element and its text are two nodes. -/
private theorem IsSheet.two_le (h : f.IsSheet sheet n) : 2 ≤ f.nodes.size := by
  obtain ⟨hkind, t, -, ht, -⟩ := h
  have hne : n ≠ t := by
    rintro rfl
    rw [hkind] at ht
    cases ht
  rcases Nat.lt_or_gt_of_ne hne with hlt | hlt
  · exact Nat.lt_of_le_of_lt (Nat.one_le_of_lt hlt) (has_of_kind? ht)
  · exact Nat.lt_of_le_of_lt (Nat.one_le_of_lt hlt) (has_of_kind? hkind)

private theorem IsSheet.filter_below (h : f.IsSheet sheet n) (k : Nat) :
    (n :: f.below (k + 1) n).filter (fun m => f.tag? m == some "style") = [n] := by
  obtain ⟨hkind, t, hc, ht, hnil⟩ := h
  have hbelow (k : Nat) : f.below k t = [] := by
    cases k with
    | zero => rfl
    | succ k => rw [below, hnil, List.flatMap_nil]
  have hn : f.tag? n = some "style" := by rw [tag?, hkind]
  have ht : f.tag? t = none := by rw [tag?, ht]
  rw [below, hc, List.flatMap_singleton, hbelow]
  simp [hn, ht]

private theorem IsSheet.textContent (h : f.IsSheet sheet n) : f.textContent n = sheet.2 := by
  obtain ⟨k, hk⟩ : ∃ k, f.nodes.size = k + 2 := ⟨f.nodes.size - 2, by have := h.two_le; omega⟩
  obtain ⟨hkind, t, hc, ht, hnil⟩ := h
  have htext : f.treesTo (k + 1) t = [.text sheet.2] := by
    rw [treesTo, hnil, ht]
  have htree : f.treesTo (k + 2) n = [.element "style" [(sheet.1, "")] [] [.text sheet.2]] := by
    rw [treesTo, hc, hkind, List.flatMap_singleton, htext]
  rw [Forest.textContent, trees, hk, htree]
  simp [Html.textContentOf, Html.textContent]

private theorem IsSheet.attributes (h : f.IsSheet sheet n) : f.attributes n = [(sheet.1, "")] := by
  rw [Forest.attributes, h.1]

theorem IsSheet.congr (h : f.IsSheet sheet n)
    (hn : f'.kind? n = f.kind? n ∧ f'.children n = f.children n)
    (ht : ∀ t ∈ f.children n, f'.kind? t = f.kind? t ∧ f'.children t = f.children t) :
    f'.IsSheet sheet n := by
  obtain ⟨hkind, t, hc, htext, hnil⟩ := h
  obtain ⟨hk, hc'⟩ := ht t (hc ▸ List.mem_singleton_self t)
  exact ⟨hn.1.trans hkind, t, hn.2.trans hc, hk.trans htext, hc'.trans hnil⟩

/-- A node is not below one that it is not and that its parent is not below. -/
theorem not_under_of_parent? {u p : NodeId} (hne : n ≠ u) (hp : f.parent? n = some p)
    (hu : ¬ f.Under u p) : ¬ f.Under u n := by
  intro h
  cases h with
  | self => exact hne rfl
  | up hq h =>
    cases hp.symm.trans hq
    exact hu h

end Forest

namespace Document

open Forest

variable {d d' d₁ d₂ : Document α} {n : NodeId}

/-- The head is a node, and all its children are stylesheets. -/
structure Wearing (d : Document α) : Prop where
  has : d.forest.Has d.head
  sheet : ∀ n ∈ d.forest.children d.head, ∃ sheet, d.forest.IsSheet sheet n

def sheetOf? (d : Document α) (n : NodeId) : Option (String × String) :=
  (d.forest.attributes n).head?.map fun a => (a.1, d.forest.textContent n)

private theorem sheetOf?_eq {sheet : String × String} (h : d.forest.IsSheet sheet n) :
    d.sheetOf? n = some sheet := by
  rw [sheetOf?, h.attributes, h.textContent]
  rfl

private theorem Wearing.styles_eq (h : Wearing d) : d.styles = d.forest.children d.head := by
  have hlower : Text.lower "style" = "style" := by decide +kernel
  obtain ⟨k, hk⟩ : ∃ k, d.forest.nodes.size = k + 1 :=
    ⟨d.forest.nodes.size - 1, (Nat.sub_add_cancel (Nat.zero_lt_of_lt h.has)).symm⟩
  have hone : ∀ n ∈ d.forest.children d.head,
      (n :: d.forest.below k n).filter (fun m => d.forest.tag? m == some "style") = [n] := by
    intro n hn
    obtain ⟨sheet, hs⟩ := h.sheet n hn
    obtain ⟨j, rfl⟩ : ∃ j, k = j + 1 := ⟨k - 1, by have := hs.two_le; omega⟩
    exact hs.filter_below j
  rw [styles, queryAll, hlower, descendants, hk, below, List.filter_flatMap]
  calc (d.forest.children d.head).flatMap
          (fun n => (n :: d.forest.below k n).filter fun m => d.forest.tag? m == some "style")
      = (d.forest.children d.head).flatMap (fun n => [n]) := List.flatMap_congr hone
    _ = d.forest.children d.head := List.flatMap_singleton' _

/-- The stylesheets are what the children of the head are read as. -/
private theorem Wearing.stylesheets_eq (h : Wearing d) :
    d.stylesheets = (d.forest.children d.head).filterMap d.sheetOf? := by
  rw [stylesheets, h.styles_eq]
  rfl

/-- The head has a stylesheet under an attribute if it is among those that are read. -/
private theorem Wearing.hasStylesheet_iff (h : Wearing d) (attr : String) :
    d.hasStylesheet attr = true ↔ attr ∈ d.stylesheets.map (·.1) := by
  rw [hasStylesheet, h.styles_eq, h.stylesheets_eq, List.any_eq_true, List.mem_map]
  constructor
  · rintro ⟨n, hn, ha⟩
    obtain ⟨sheet, hs⟩ := h.sheet n hn
    refine ⟨sheet, List.mem_filterMap.2 ⟨n, hn, sheetOf?_eq hs⟩, ?_⟩
    rw [hs.attributes] at ha
    simpa [Html.attribute?] using ha
  · rintro ⟨sheet, hsheet, rfl⟩
    obtain ⟨n, hn, he⟩ := List.mem_filterMap.1 hsheet
    obtain ⟨sheet', hs⟩ := h.sheet n hn
    rw [sheetOf?_eq hs] at he
    cases he
    refine ⟨n, hn, ?_⟩
    rw [hs.attributes]
    simp [Html.attribute?]

/-! Later documents. -/

/-- The document `d'` is a later one: the nodes are what they were, nothing has come into the head from
outside, and stylesheets have only been added. -/
structure Grows (d d' : Document α) : Prop where
  size_le : d.forest.nodes.size ≤ d'.forest.nodes.size
  kind : ∀ n, d.forest.Has n → d'.forest.kind? n = d.forest.kind? n
  head_eq : d'.head = d.head
  outdoors : ∀ n, d.forest.Has n → ¬ d.forest.Under d.head n → ¬ d'.forest.Under d'.head n
  sheets : d.stylesheets <+: d'.stylesheets

theorem Grows.refl (d : Document α) : Grows d d :=
  ⟨Nat.le_refl _, fun _ _ => rfl, rfl, fun _ _ h => h, List.prefix_refl _⟩

theorem Grows.has (h : Grows d d') (hn : d.forest.Has n) : d'.forest.Has n :=
  Nat.lt_of_lt_of_le hn h.size_le

theorem Grows.trans (h : Grows d d₁) (h' : Grows d₁ d₂) : Grows d d₂ where
  size_le := Nat.le_trans h.size_le h'.size_le
  kind n hn := (h'.kind n (h.has hn)).trans (h.kind n hn)
  head_eq := h'.head_eq.trans h.head_eq
  outdoors n hn hu := h'.outdoors n (h.has hn) (h.outdoors n hn hu)
  sheets := h.sheets.trans h'.sheets

/-- A node is the head, one of its children, or a child of one of these. -/
def Indoors (d : Document α) (n : NodeId) : Prop :=
  n = d.head ∨ n ∈ d.forest.children d.head ∨
    ∃ m ∈ d.forest.children d.head, n ∈ d.forest.children m

theorem Indoors.under (hl : d.forest.Linked) (h : d.Indoors n) : d.forest.Under d.head n := by
  rcases h with rfl | hn | ⟨m, hm, hn⟩
  · exact .self
  · exact .up (hl.mem_children.1 hn) .self
  · exact .up (hl.mem_children.1 hn) (.up (hl.mem_children.1 hm) .self)

theorem Indoors.has (hl : d.forest.Linked) (hh : d.forest.Has d.head) (h : d.Indoors n) :
    d.forest.Has n := by
  rcases h with rfl | hn | ⟨m, -, hn⟩
  · exact hh
  · exact hl.has_child hn
  · exact hl.has_child hn

/-- The document `d'` is a later one that differs only outside the head: what is in the head has its
children, and no node has a new parent in the head. -/
structure Steady (d d' : Document α) : Prop where
  size_le : d.forest.nodes.size ≤ d'.forest.nodes.size
  kind : ∀ n, d.forest.Has n → d'.forest.kind? n = d.forest.kind? n
  head_eq : d'.head = d.head
  children : ∀ n, d.Indoors n → d'.forest.children n = d.forest.children n
  parent? : ∀ n p, d.forest.Has n → d'.forest.parent? n = some p →
    d.forest.parent? n = some p ∨ d.forest.Has p ∧ ¬ d.forest.Under d.head p

/-- What is below the head afterwards was below it before. -/
private theorem Steady.under (h : Steady d d') (hl : d.forest.Linked) (hn : d.forest.Has n)
    (hu : d'.forest.Under d.head n) : d.forest.Under d.head n := by
  induction hu with
  | self => exact .self
  | up hp _ ih =>
    rcases h.parent? _ _ hn hp with hp | ⟨hhas, hout⟩
    · exact .up hp (ih (hl.has_parent hp))
    · exact absurd (ih hhas) hout

/-- The head wears the same as before. -/
theorem Steady.wearing (h : Steady d d') (hl : d.forest.Linked) (hw : Wearing d) :
    Wearing d' ∧ d'.stylesheets = d.stylesheets := by
  have hsame {n : NodeId} (hn : d.Indoors n) : d'.forest.kind? n = d.forest.kind? n ∧
      d'.forest.children n = d.forest.children n :=
    ⟨h.kind n (hn.has hl hw.has), h.children n hn⟩
  have hc : d'.forest.children d'.head = d.forest.children d.head := by
    rw [h.head_eq]
    exact h.children _ (.inl rfl)
  have hsheet {n : NodeId} {sheet : String × String} (hn : n ∈ d.forest.children d.head)
      (hs : d.forest.IsSheet sheet n) : d'.forest.IsSheet sheet n :=
    hs.congr (hsame (.inr (.inl hn))) fun t ht => hsame (.inr (.inr ⟨n, hn, ht⟩))
  have hw' : Wearing d' := by
    refine ⟨?_, fun n hn => ?_⟩
    · rw [h.head_eq]
      exact Nat.lt_of_lt_of_le hw.has h.size_le
    · rw [hc] at hn
      obtain ⟨sheet, hs⟩ := hw.sheet n hn
      exact ⟨sheet, hsheet hn hs⟩
  refine ⟨hw', ?_⟩
  rw [hw'.stylesheets_eq, hw.stylesheets_eq, hc]
  refine List.filterMap_congr fun n hn => ?_
  obtain ⟨sheet, hs⟩ := hw.sheet n hn
  rw [sheetOf?_eq hs, sheetOf?_eq (hsheet hn hs)]

theorem Steady.grows (h : Steady d d') (hl : d.forest.Linked) (hw : Wearing d) : Grows d d' where
  size_le := h.size_le
  kind := h.kind
  head_eq := h.head_eq
  outdoors _ hn hout hu := hout (h.under hl hn (h.head_eq ▸ hu))
  sheets := (h.wearing hl hw).2 ▸ List.prefix_refl _

/-! What is done outside the head. -/

variable {forest : Forest α}

/-- New nodes stand nowhere yet. -/
theorem steady_grown {p : NodeId} (hl : d.forest.Linked) (hh : d.forest.Has d.head)
    (g : Grown d.forest forest p []) : Steady d { d with forest } where
  size_le := g.size_le
  kind := g.kind
  head_eq := rfl
  children n hn := by
    have hc := g.children n (hn.has hl hh)
    simpa using hc
  parent? n p hn hp := .inl ((g.parent? n hn).symm.trans hp)

/-- Nodes that are not in the head move to a place that is not in the head. -/
theorem steady_moved {p : NodeId} {ids : List NodeId} {place : List NodeId → List NodeId}
    (hl : d.forest.Linked) (m : Moved d.forest forest p ids place) (hp : d.forest.Has p)
    (hout : ¬ d.forest.Under d.head p)
    (hids : ∀ n ∈ ids, ∀ q, d.forest.parent? n = some q → ¬ d.forest.Under d.head q) :
    Steady d { d with forest } where
  size_le := Nat.le_of_eq m.size.symm
  kind n _ := m.kind n
  head_eq := rfl
  children q hq := by
    have hne : q ≠ p := by
      rintro rfl
      exact hout (hq.under hl)
    have hstay : (d.forest.children q).filter (· ∉ ids) = d.forest.children q := by
      rw [List.filter_eq_self]
      intro n hn
      rw [decide_eq_true_iff]
      exact fun hmem => hids n hmem q (hl.mem_children.1 hn) (hq.under hl)
    exact (m.children q).trans ((if_neg hne).trans hstay)
  parent? n q _ hq := by
    have he : (if n ∈ ids then some p else d.forest.parent? n) = some q := (m.parent? n).symm.trans hq
    split at he
    · cases he
      exact .inr ⟨hp, hout⟩
    · exact .inl he

/-- Letting go leaves the head alone as long as it is held. -/
theorem steady_release (hl : d.forest.Linked) (hw : Wearing d) {held : List NodeId}
    (hh : d.head ∈ held) : Steady d { d with forest := d.forest.release held } := by
  have r := hl.release held
  have hstay {q : NodeId} (hq : d.forest.inUse held q = true) :
      (d.forest.release held).children q = d.forest.children q := by
    rw [r.children, List.filter_eq_self]
    intro n hn
    have hp := hl.mem_children.1 hn
    rw [decide_eq_true_iff, r.kept n, hp]
    rintro ⟨-, -, p, hp', hout⟩
    cases hp.symm.trans hp'
    rw [hq] at hout
    cases hout
  refine ⟨Nat.le_of_eq r.size.symm, fun n _ => r.kind n, rfl, fun q hq => ?_,
    fun n p _ hp => .inl (r.parent?_of_some hp)⟩
  rcases hq with rfl | hq | ⟨m, hm, hq⟩
  · exact hstay (inUse_of_mem hw.has hh)
  · obtain ⟨sheet, hs⟩ := hw.sheet q hq
    obtain ⟨k, hk⟩ : ∃ k, d.forest.nodes.size = k + 2 :=
      ⟨d.forest.nodes.size - 2, by have := hs.two_le; omega⟩
    refine hstay (inUse_iff.2 ⟨d.head, ?_, hh⟩)
    rw [path, hk, pathUp, hl.mem_children.1 hq]
    exact List.mem_cons_of_mem _ List.mem_cons_self
  · -- nothing is in the text of a stylesheet that could go
    obtain ⟨sheet, -, t, hc, -, hnil⟩ := hw.sheet m hm
    rw [hc, List.mem_singleton] at hq
    subst hq
    rw [r.children, hnil, List.filter_nil]

/-! Adding a stylesheet. -/

/-- A stylesheet that is missing becomes the last child of the head. -/
private theorem addStylesheet_new {attr : String} (hh : d.forest.Has d.head)
    (h : d.hasStylesheet attr = false) (css : String) :
    (d.addStylesheet attr css).forest.children d.head =
        d.forest.children d.head ++ [d.forest.nodes.size] ∧
      (d.addStylesheet attr css).forest.IsSheet (attr, css) d.forest.nodes.size := by
  obtain ⟨f, root, head, body⟩ := d
  have hhead : head ≠ f.nodes.size := Nat.ne_of_lt hh
  have htext : f.nodes.size + 1 ≠ f.nodes.size := Nat.succ_ne_self _
  have htext' : f.nodes.size + 1 ≠ head := Nat.ne_of_gt (Nat.lt_succ_of_lt hh)
  rw [addStylesheet, if_neg (by rw [h]; exact Bool.false_ne_true)]
  simp only [plant, plantAll, create_fst, size_create]
  generalize hE : NodeKind.element "style" [(attr, "")] [] = style
  have hnew : f.children f.nodes.size = [] := children_eq_nil (Nat.lt_irrefl _)
  have hnew' : f.children (f.nodes.size + 1) = [] := children_eq_nil (Nat.not_lt_of_le (Nat.le_succ _))
  have hhas {n : NodeId} (hn : n ≤ f.nodes.size) :
      ((f.create style).2.create (.text css)).2.Has n := by
    rw [Has, size_create, size_create]
    exact Nat.lt_succ_of_le (Nat.le_succ_of_le hn)
  refine ⟨?_, ?_, f.nodes.size + 1, ?_, ?_, ?_⟩
  · have hattached : (((f.create style).2.create (.text css)).2.attach f.nodes.size
        (· ++ [f.nodes.size + 1]) (f.nodes.size + 1)).Has head := by
      rw [Has, size_attach]
      exact hhas (Nat.le_of_lt hh)
    rw [children_attach hattached, if_pos rfl, children_attach_of_ne hhead, children_create,
      children_create]
  · rw [kind?_attach, kind?_attach, kind?_create, size_create, if_neg htext.symm, kind?_create,
      if_pos rfl, hE]
  · rw [children_attach_of_ne hhead.symm, children_attach (hhas (Nat.le_refl _)), if_pos rfl,
      children_create, children_create, hnew, List.nil_append]
  · rw [kind?_attach, kind?_attach, kind?_create, size_create, if_pos rfl]
  · rw [children_attach_of_ne htext', children_attach_of_ne htext, children_create, children_create,
      hnew']

/-- The head itself is neither a stylesheet nor the text of one. -/
private theorem Wearing.ne_head (hw : Wearing d) (hn : n ∈ d.forest.children d.head) :
    n ≠ d.head ∧ d.head ∉ d.forest.children n := by
  obtain ⟨sheet, hkind, t, hc, ht, hnil⟩ := hw.sheet n hn
  constructor
  · rintro rfl
    rw [hc, List.mem_singleton] at hn
    rw [← hn, hkind] at ht
    cases ht
  · intro hmem
    rw [hc, List.mem_singleton] at hmem
    rw [hmem, hnil] at hn
    cases hn

/-- The head wears one stylesheet more, behind all others, unless it wears one under the attribute
already. -/
theorem Wearing.addStylesheet (hw : Wearing d) (hl : d.forest.Linked) (attr css : String) :
    Wearing (d.addStylesheet attr css) ∧
      (d.addStylesheet attr css).stylesheets =
        if attr ∈ d.stylesheets.map (·.1) then d.stylesheets else d.stylesheets ++ [(attr, css)] := by
  by_cases hmem : attr ∈ d.stylesheets.map (·.1)
  · have hhas := (hw.hasStylesheet_iff attr).2 hmem
    rw [Document.addStylesheet, if_pos hhas, if_pos hmem]
    exact ⟨hw, rfl⟩
  · have hhas : d.hasStylesheet attr = false := by
      rw [Bool.eq_false_iff]
      exact fun h => hmem ((hw.hasStylesheet_iff attr).1 h)
    obtain ⟨hc, hlast⟩ := addStylesheet_new hw.has hhas css
    obtain ⟨styles, hs, -⟩ := addStylesheet_styled d attr css
    generalize d.addStylesheet attr css = d' at *
    have hold {n : NodeId} {sheet : String × String} (hn : n ∈ d.forest.children d.head)
        (hsheet : d.forest.IsSheet sheet n) : d'.forest.IsSheet sheet n := by
      have hsame {m : NodeId} (hm : d.forest.Has m) (hne : m ≠ d.head) :
          d'.forest.kind? m = d.forest.kind? m ∧ d'.forest.children m = d.forest.children m :=
        ⟨hs.kind m hm, (hs.children m hm).trans (if_neg hne)⟩
      obtain ⟨hne, hnot⟩ := hw.ne_head hn
      refine hsheet.congr (hsame (hl.has_child hn) hne) fun t ht => hsame (hl.has_child ht) ?_
      rintro rfl
      exact hnot ht
    have hc' : d'.forest.children d'.head = d.forest.children d.head ++ [d.forest.nodes.size] := by
      rw [hs.head_eq]
      exact hc
    have hw' : Wearing d' := by
      refine ⟨?_, fun n hn => ?_⟩
      · rw [hs.head_eq]
        exact Nat.lt_of_lt_of_le hw.has hs.size_le
      · rw [hc'] at hn
        rcases List.mem_append.1 hn with hn | hn
        · obtain ⟨sheet, hsheet⟩ := hw.sheet n hn
          exact ⟨sheet, hold hn hsheet⟩
        · rw [List.mem_singleton.1 hn]
          exact ⟨_, hlast⟩
    have hread : (d.forest.children d.head).filterMap d'.sheetOf? = d.stylesheets := by
      rw [hw.stylesheets_eq]
      refine List.filterMap_congr fun n hn => ?_
      obtain ⟨sheet, hsheet⟩ := hw.sheet n hn
      rw [sheetOf?_eq hsheet, sheetOf?_eq (hold hn hsheet)]
    refine ⟨hw', ?_⟩
    rw [if_neg hmem, hw'.stylesheets_eq, hc', List.filterMap_append, hread, List.filterMap_cons,
      sheetOf?_eq hlast, List.filterMap_nil]

/-- Adding a stylesheet is one way to go on. -/
theorem Wearing.addStylesheet_grows (hw : Wearing d) (hl : d.forest.Linked) (attr css : String) :
    Grows d (d.addStylesheet attr css) := by
  obtain ⟨styles, hs, -⟩ := addStylesheet_styled d attr css
  refine ⟨hs.size_le, hs.kind, hs.head_eq, fun n hn hout hu => hout ?_, ?_⟩
  · rw [hs.head_eq] at hu
    clear hout
    induction hu with
    | self => exact .self
    | up hp _ ih =>
      rw [hs.parent? _ hn] at hp
      exact .up hp (ih (hl.has_parent hp))
  · rw [(hw.addStylesheet hl attr css).2]
    split
    · exact List.prefix_refl _
    · exact List.prefix_append _ _

end Document

end LiveMarkup
