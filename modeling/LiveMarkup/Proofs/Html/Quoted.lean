import LiveMarkup.Html.Parser
import LiveMarkup.Proofs.Html.Mold

/-! Slots that are whole values of attributes between double quotes. What they are filled with shows in
the values of these attributes only: what trees are made of items does not depend on the values. -/

namespace LiveMarkup.Html

section Revalue

variable {α : Type} {g k : String × String → String}

def revalued (g : String × String → String) (a : String × String) : String × String := (a.1, g a)

mutual

def revalue (g : String × String → String) : Html α → Html α
  | .element tag attributes listeners children =>
    .element tag (attributes.map (revalued g)) listeners (revalueAll g children)
  | .text s => .text s
  | .comment s => .comment s

def revalueAll (g : String × String → String) : List (Html α) → List (Html α)
  | [] => []
  | t :: ts => t.revalue g :: revalueAll g ts

end

private theorem revalueAll_eq_map (ts : List (Html α)) : revalueAll g ts = ts.map (revalue g) := by
  induction ts with
  | nil => rw [revalueAll, List.map_nil]
  | cons t ts ih => rw [revalueAll, ih, List.map_cons]

private theorem revalueAll_reverse (ts : List (Html α)) :
    revalueAll g ts.reverse = (revalueAll g ts).reverse := by
  rw [revalueAll_eq_map, revalueAll_eq_map, List.map_reverse]

/-! Trees under construction. -/

def Item.revalue (g : String × String → String) : Item → Item
  | .opening tag attributes => .opening tag (attributes.map (revalued g))
  | .whole tag attributes content => .whole tag (attributes.map (revalued g)) content
  | i => i

namespace Builder

def revalueOpen (g : String × String → String) (e : OpenElement α) : OpenElement α :=
  ⟨e.tag, e.attributes.map (revalued g), revalueAll g e.before⟩

def revalue (g : String × String → String) (b : Builder α) : Builder α :=
  ⟨revalueAll g b.content, b.opened.map (revalueOpen g)⟩

variable {content : List (Html α)} {es : List (OpenElement α)}

private theorem revalue_closed (e : OpenElement α) (content : List (Html α)) :
    Html.element e.tag (e.attributes.map (revalued g)) [] (revalueAll g content).reverse ::
        revalueAll g e.before =
      revalueAll g (.element e.tag e.attributes [] content.reverse :: e.before) := by
  rw [revalueAll, Html.revalue, revalueAll_reverse]

private theorem close?_revalue (tag : String) :
    close? tag (revalueAll g content) (es.map (revalueOpen g)) =
      (close? tag content es).map (revalue g) := by
  induction es generalizing content with
  | nil => rfl
  | cons e es ih =>
    rw [List.map_cons, close?, close?, revalueOpen]
    dsimp only
    rw [revalue_closed]
    split
    · rfl
    · exact ih

private theorem add_revalue (b : Builder α) (i : Item) :
    (b.revalue g).add (i.revalue g) = (b.add i).revalue g := by
  cases i with
  | text s => rfl
  | comment s => rfl
  | declaration => rfl
  | opening tag attributes => rfl
  | whole tag attributes content =>
    rw [Item.revalue, add, add, revalue, revalue, revalueAll, Html.revalue]
    cases content <;> rfl
  | closing tag =>
    show (close? tag (b.revalue g).content (b.revalue g).opened).getD (b.revalue g) =
      ((close? tag b.content b.opened).getD b).revalue g
    rw [revalue, close?_revalue]
    cases close? tag b.content b.opened <;> rfl

private theorem finish_revalue : finish (revalueAll g content) (es.map (revalueOpen g)) =
    revalueAll g (finish content es) := by
  induction es generalizing content with
  | nil => exact (revalueAll_reverse content).symm
  | cons e es ih =>
    rw [List.map_cons, finish, finish, revalueOpen]
    dsimp only
    rw [revalue_closed]
    exact ih

end Builder

/-- Items with other values make up trees with other values. -/
private theorem ofItems_revalue (is : List Item) :
    ofItems (is.map (Item.revalue g)) = revalueAll g (ofItems is : List (Html α)) := by
  have hfold (b : Builder α) :
      (is.map (Item.revalue g)).foldl Builder.add (b.revalue g) = (is.foldl Builder.add b).revalue g := by
    induction is generalizing b with
    | nil => rfl
    | cons i is ih => rw [List.map_cons, List.foldl_cons, Builder.add_revalue, ih, List.foldl_cons]
  rw [ofItems, ofItems, ← Builder.finish_revalue]
  exact congrArg (fun b : Builder α => Builder.finish b.content b.opened) (hfold ⟨[], []⟩)

end Revalue

open Slotted

variable {ι α : Type} {u v : ι → List Char} {m w a b : Slotted ι} {p : Char ⊕ ι} {k : ι} {quote : Bool}
  {g : String × String → String}

/-- Every slot has a double quote on either side; `quote` says whether there is one before the text. -/
def Slotted.quotedAfter : Bool → Slotted ι → Bool
  | _, [] => true
  | _, .inl c :: m => quotedAfter (c == '"') m
  | quote, .inr _ :: m => quote && m.head?.any (·.getLeft? == some '"') && quotedAfter false m

def Slotted.quoted (m : Slotted ι) : Bool := m.quotedAfter false

private theorem before_of_quotedAfter (h : (a ++ p :: .inr k :: b).quotedAfter quote = true) :
    p = .inl '"' := by
  induction a generalizing quote with
  | nil =>
    cases p with
    | inl c =>
      simp only [List.nil_append, quotedAfter, Bool.and_eq_true, beq_iff_eq] at h
      rw [h.1.1]
    | inr j => simp [quotedAfter] at h
  | cons x a ih =>
    cases x with
    | inl c => exact ih h
    | inr j =>
      simp only [List.cons_append, quotedAfter, Bool.and_eq_true] at h
      exact ih h.2

private theorem after_of_quotedAfter (h : (a ++ .inr k :: p :: b).quotedAfter quote = true) :
    p = .inl '"' := by
  induction a generalizing quote with
  | nil =>
    simp only [List.nil_append, quotedAfter, List.head?_cons, Option.any_some, Bool.and_eq_true,
      beq_iff_eq] at h
    exact Sum.getLeft?_eq_some_iff.1 h.1.2
  | cons x a ih =>
    cases x with
    | inl c => exact ih h
    | inr j =>
      simp only [List.cons_append, quotedAfter, Bool.and_eq_true] at h
      exact ih h.2

private theorem exists_literal (h : ∀ k, .inr k ∉ w) : ∃ word, w = literal word := by
  induction w with
  | nil => exact ⟨[], rfl⟩
  | cons p w ih =>
    obtain ⟨word, rfl⟩ := ih fun k hk => h k (List.mem_cons_of_mem p hk)
    cases p with
    | inl c => exact ⟨c :: word, rfl⟩
    | inr k => exact absurd List.mem_cons_self (h k)

/-- A value with a slot is that slot, or there is a double quote in it. -/
private theorem Slotted.Encloses.cases (h : m.Encloses w) (hm : m.quoted = true) :
    (∃ word, w = literal word) ∨ (∃ k, .inr k ∈ m ∧ w = [.inr k]) ∨ .inl '"' ∈ w := by
  obtain hword | ⟨q, -, hq, before, after, rfl⟩ := h
  · exact .inl hword
  by_cases hslot : ∃ k, .inr k ∈ w
  · obtain ⟨k, hk⟩ := hslot
    obtain ⟨a, b, rfl⟩ := List.append_of_mem hk
    rcases List.eq_nil_or_concat a with rfl | ⟨a, p, rfl⟩
    · have hquote : .inl q = (.inl '"' : Char ⊕ ι) :=
        before_of_quotedAfter (a := before) (b := b ++ [.inl q] ++ after) (by simpa [Slotted.quoted] using hm)
      cases b with
      | nil => exact .inr (.inl ⟨k, by simp, rfl⟩)
      | cons r b =>
        have hafter : r = .inl '"' := after_of_quotedAfter (a := before ++ [.inl q])
          (b := b ++ [.inl q] ++ after) (by simpa [Slotted.quoted] using hm)
        exact .inr (.inr (by simp [hafter]))
    · have hp : p = .inl '"' := before_of_quotedAfter (a := before ++ .inl q :: a)
        (b := b ++ [.inl q] ++ after) (by simpa [Slotted.quoted] using hm)
      exact .inr (.inr (by simp [hp]))
  · exact .inl (exists_literal (not_exists.1 hslot))

/-- Slots in text are not left empty, so that there are none where all slots may be. -/
theorem Slotted.Within.exists_literal {n : Nat} (h : Within (fun _ => []) w (List.replicate n .text)) :
    ∃ word, w = literal word := by
  induction w generalizing n with
  | nil => exact ⟨[], rfl⟩
  | cons p w ih =>
    cases n with
    | zero => cases h
    | succ n =>
      rw [List.replicate_succ] at h
      obtain _ | ⟨hp, hw⟩ := h
      obtain ⟨word, rfl⟩ := ih hw
      cases hp with
      | literal c => exact ⟨c :: word, rfl⟩
      | text hne => exact absurd rfl hne

/-! Two fillings. -/

section Fillings

variable (hzones : ∀ s ∈ slotZones m, s.2 = .value) (hm : m.quoted = true)
  (hg : ∀ a : String × String, '"' ∈ a.2.toList → g a = "")
  (hu : ∀ name k, .inr k ∈ m → g (name, String.ofList (u k)) = "")
  (hv : ∀ name k, .inr k ∈ m → g (name, String.ofList (v k)) = "")

include hzones in
private theorem within_of_values (u : ι → List Char) : Within u m (zones (m.fill sample)) :=
  within_zones (fun s hs => by rw [hzones s hs]; decide) fun s hs htext => by
    rw [hzones s hs] at htext
    cases htext

include hm hg hu hv

private theorem revalued_of_encloses (hw : m.Encloses w) (name : String) :
    g (name, String.ofList (w.fill u)) = g (name, String.ofList (w.fill v)) := by
  obtain ⟨word, rfl⟩ | ⟨k, hk, rfl⟩ | hquote := hw.cases hm
  · rw [fill_literal, fill_literal]
  · rw [fill_inr, fill_inr, fill_nil, fill_nil, List.append_nil, List.append_nil, hu name k hk,
      hv name k hk]
  · have hmem (u : ι → List Char) : '"' ∈ (String.ofList (w.fill u)).toList := by
      rw [String.toList_ofList]
      exact List.mem_flatMap.2 ⟨_, hquote, List.mem_singleton_self _⟩
    exact (hg (name, _) (hmem u)).trans (hg (name, _) (hmem v)).symm

private theorem fillAttributes_revalued {as : List (String × Slotted ι)}
    (h : ∀ a ∈ as, m.Encloses a.2) :
    (fillAttributes u as).map (revalued g) = (fillAttributes v as).map (revalued g) := by
  rw [fillAttributes, fillAttributes, List.map_map, List.map_map]
  exact List.map_congr_left fun a ha =>
    congrArg (a.1, ·) (revalued_of_encloses hm hg hu hv (h a ha) a.1)

private theorem item_revalue {i : SlottedItem ι} (hvalues : ∀ a ∈ i.attributes, m.Encloses a.2)
    (hfits : i.Fits fun _ => []) : (i.fill u).revalue g = (i.fill v).revalue g := by
  cases i with
  | text w =>
    obtain ⟨word, rfl⟩ := Slotted.Within.exists_literal hfits
    rw [SlottedItem.fill, SlottedItem.fill, fill_literal, fill_literal]
  | comment s => rfl
  | declaration => rfl
  | opening tag as =>
    exact congrArg (Item.opening tag) (fillAttributes_revalued hm hg hu hv hvalues)
  | whole tag as content =>
    exact congrArg (Item.whole tag · content) (fillAttributes_revalued hm hg hu hv hvalues)
  | closing tag => rfl

include hzones

/-- Markup whose slots are whole values between double quotes is read alike whatever tame texts fill the
slots: it cannot be read for the same reason, or the trees are the same up to a change of the values that
makes those of the slots equal. -/
theorem parse_quoted (htu : Tame u) (htv : Tame v) :
    (parse (String.ofList (m.fill u)) : Except Malformed (List (Html α))).map (revalueAll g) =
      (parse (String.ofList (m.fill v))).map (revalueAll g) := by
  have hsample : Within sample m (zones (m.fill sample)) := within_of_values hzones sample
  obtain ⟨is, -, hvalues, hreads⟩ := items_slotted rfl hsample
  have hempty : Tame fun _ : ι => [] := fun _ => nofun
  have hfits := (hreads hempty (within_of_values hzones _)).1
  have hitems : (is.map (SlottedItem.fill u)).map (Item.revalue g) =
      (is.map (SlottedItem.fill v)).map (Item.revalue g) := by
    rw [List.map_map, List.map_map]
    exact List.map_congr_left fun i hi => item_revalue hm hg hu hv (hvalues i hi) (hfits i hi)
  rw [parse, parse, String.toList_ofList, String.toList_ofList,
    (hreads htu (within_of_values hzones u)).2, (hreads htv (within_of_values hzones v)).2]
  cases (items (m.fill sample)).2 with
  | some e => rfl
  | none =>
    show Except.ok (revalueAll g (ofItems _)) = Except.ok (revalueAll g (ofItems _))
    rw [← ofItems_revalue, ← ofItems_revalue, hitems]

end Fillings

end LiveMarkup.Html
