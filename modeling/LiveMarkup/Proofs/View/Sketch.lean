import LiveMarkup.Proofs.Html.Canonical
import LiveMarkup.Proofs.Html.Slotted

/-! Forests with slots for handlers: some attributes have no value of their own but a slot, which is
filled in the markup. -/

namespace LiveMarkup

abbrev SketchAttribute := String × (String ⊕ Nat)

inductive Sketch where
  | element (tag : String) (attributes : List SketchAttribute) (children : List Sketch)
  | text (s : String)
  | comment (s : String)

namespace Sketch

open Html (Slotted literal isVoid attributeText)
open Html.Slotted (fill)

variable {α : Type} {ι : Type}

mutual

def attributes : Sketch → List SketchAttribute
  | element _ attributes children => attributes ++ attributesAll children
  | text _ | comment _ => []

def attributesAll : List Sketch → List SketchAttribute
  | [] => []
  | n :: ns => n.attributes ++ attributesAll ns

end

def plainOf (attributes : List SketchAttribute) : List (String × String) :=
  attributes.filterMap fun a => a.2.getLeft?.map fun value => (a.1, value)

def slotsOf (attributes : List SketchAttribute) : List (String × Nat) :=
  attributes.filterMap fun a => a.2.getRight?.map fun k => (a.1, k)

def slots (ns : List Sketch) : List (String × Nat) := slotsOf (attributesAll ns)

def castAttribute (v : Nat → String) (a : SketchAttribute) : String × String :=
  (a.1, a.2.elim id v)

mutual

def cast (v : Nat → String) : Sketch → Html α
  | element tag attributes children =>
    .element tag (attributes.map (castAttribute v)) [] (castAll v children)
  | text s => .text s
  | comment s => .comment s

def castAll (v : Nat → String) : List Sketch → List (Html α)
  | [] => []
  | n :: ns => n.cast v :: castAll v ns

end

/-- An attribute as it is written, between double quotes. Nothing is replaced in a slot. -/
def attributeSource (a : SketchAttribute) : Slotted Nat :=
  literal (' ' :: (a.1.toList ++ ['=', '"'])) ++
    ((a.2.elim (fun value => literal (attributeText value).toList) fun k => [.inr k]) ++ literal ['"'])

mutual

def source : Sketch → Slotted Nat
  | element tag attributes children =>
    let opening := literal ('<' :: tag.toList) ++ (attributes.flatMap attributeSource ++ literal ['>'])
    if isVoid tag then opening
    else opening ++ (sourceAll children ++ literal ("</" ++ tag ++ ">").toList)
  | text s => literal s.toList
  | comment s => literal ("<!--" ++ s ++ "-->").toList

def sourceAll : List Sketch → Slotted Nat
  | [] => []
  | n :: ns => n.source ++ sourceAll ns

end

/-- The event of a handler: its name without `on`. -/
def eventOf (name : String) : String := String.ofList (name.toList.drop 2)

def marked : Option String → List (String × String) → List (String × String)
  | some name, attributes => Html.setAttribute name "" attributes
  | none, attributes => attributes

mutual

/-- The node with listeners in place of its slots, every element having a further attribute. -/
def wired (attr : Option String) (h : Nat → α) : Sketch → Html α
  | element tag attributes children =>
    .element tag (marked attr (plainOf attributes))
      ((slotsOf attributes).map fun s => (eventOf s.1, h s.2)) (wiredAll attr h children)
  | text s => .text s
  | comment s => .comment s

def wiredAll (attr : Option String) (h : Nat → α) : List Sketch → List (Html α)
  | [] => []
  | n :: ns => n.wired attr h :: wiredAll attr h ns

end

/-- Whether a name is `on` and the name of an event: a letter of a to z, then such letters, digits,
underscores and hyphens. -/
def namesHandler : List Char → Bool
  | 'o' :: 'n' :: c :: cs => c.isLower && cs.all fun d => d.isLower || d.isDigit || d == '_' || d == '-'
  | _ => false

/-! The markup. -/

private theorem fill_attributeSource {v : Nat → String} (hv : ∀ k, '"' ∉ (v k).toList)
    (a : SketchAttribute) : fill (fun k => (v k).toList) (attributeSource a) =
      (" " ++ (castAttribute v a).1 ++ "=\"" ++ attributeText (castAttribute v a).2 ++ "\"").toList := by
  obtain ⟨name, value | k⟩ := a
  · simp [attributeSource, castAttribute]
  · simp [attributeSource, castAttribute, Html.attributeText_eq (hv k)]

private theorem fill_attributes {v : Nat → String} (hv : ∀ k, '"' ∉ (v k).toList)
    (attributes : List SketchAttribute) :
    fill (fun k => (v k).toList) (attributes.flatMap attributeSource) =
      (String.join ((attributes.map (castAttribute v)).map fun a =>
        " " ++ a.1 ++ "=\"" ++ attributeText a.2 ++ "\"")).toList := by
  induction attributes with
  | nil => rfl
  | cons a as ih =>
    rw [List.flatMap_cons, Html.fill_append, fill_attributeSource hv, ih]
    simp

mutual

theorem fill_source {v : Nat → String} (hv : ∀ k, '"' ∉ (v k).toList) (n : Sketch) :
    fill (fun k => (v k).toList) n.source = (n.cast v : Html α).markup.toList := by
  match n with
  | text s => simp [source, cast, Html.markup]
  | comment s => simp [source, cast, Html.markup]
  | element tag attributes children =>
    have hopening : fill (fun k => (v k).toList) (literal ('<' :: tag.toList) ++
        (attributes.flatMap attributeSource ++ literal ['>'])) =
        (Html.openingTag tag (attributes.map (castAttribute v))).toList := by
      rw [Html.fill_append, Html.fill_append, fill_attributes hv, Html.openingTag]
      simp
    rw [source, cast, Html.markup]
    split
    · exact hopening
    · rw [Html.fill_append, hopening, Html.fill_append, fill_sourceAll hv children]
      simp

/-- The markup with texts in the slots is that of the forest with these texts. -/
theorem fill_sourceAll {v : Nat → String} (hv : ∀ k, '"' ∉ (v k).toList) (ns : List Sketch) :
    fill (fun k => (v k).toList) (sourceAll ns) = (Html.markupOf (castAll v ns : List (Html α))).toList := by
  match ns with
  | [] => rfl
  | n :: ns =>
    rw [sourceAll, Html.fill_append, fill_source hv n, fill_sourceAll hv ns, castAll, Html.markupOf,
      String.toList_append]

end

/-! The markup in segments. -/

def ofSegments (segments : List (List Char × ι)) : Slotted ι :=
  segments.flatMap fun s => literal s.1 ++ [.inr s.2]

theorem ofSegments_cons (s : List Char × ι) (segments : List (List Char × ι)) :
    ofSegments (s :: segments) = literal s.1 ++ (.inr s.2 :: ofSegments segments) := by
  rw [ofSegments, List.flatMap_cons, List.append_assoc, ofSegments]
  rfl

theorem fill_ofSegments (v : ι → List Char) (segments : List (List Char × ι)) :
    fill v (ofSegments segments) = segments.flatMap fun s => s.1 ++ v s.2 := by
  induction segments with
  | nil => rfl
  | cons s segments ih => simp [ofSegments_cons, ih]

def OpensHandler (cs : List Char) : Prop :=
  ∃ before name, cs = before ++ ' ' :: (name ++ ['=', '"']) ∧ namesHandler name = true

/-- Every slot is the value of a handler. -/
def Wirable (m : Slotted Nat) : Prop :=
  ∃ segments last, m = ofSegments segments ++ literal last ∧ ∀ s ∈ segments, OpensHandler s.1

private theorem OpensHandler.append {cs : List Char} (h : OpensHandler cs) (before : List Char) :
    OpensHandler (before ++ cs) := by
  obtain ⟨before', name, rfl, hname⟩ := h
  exact ⟨before ++ before', name, (List.append_assoc ..).symm, hname⟩

theorem OpensHandler.getLast?_eq {cs : List Char} (h : OpensHandler cs) : cs.getLast? = some '"' := by
  obtain ⟨before, name, rfl, -⟩ := h
  rw [← List.cons_append, ← List.append_assoc, List.getLast?_append]
  rfl

private theorem wirable_literal (cs : List Char) : Wirable (literal cs) := ⟨[], cs, rfl, nofun⟩

private theorem Wirable.append {m m' : Slotted Nat} (h : Wirable m) (h' : Wirable m') :
    Wirable (m ++ m') := by
  obtain ⟨segments, last, rfl, hsegments⟩ := h
  obtain ⟨segments', last', rfl, hsegments'⟩ := h'
  cases segments' with
  | nil => exact ⟨segments, last ++ last', by simp [ofSegments, literal], hsegments⟩
  | cons s segments' =>
    obtain ⟨hs, hsegments'⟩ := List.forall_mem_cons.1 hsegments'
    refine ⟨segments ++ (last ++ s.1, s.2) :: segments', last', by simp [ofSegments, literal], ?_⟩
    rw [List.forall_mem_append, List.forall_mem_cons]
    exact ⟨hsegments, hs.append last, hsegments'⟩

def slotsIn (m : Slotted ι) : List ι := m.filterMap Sum.getRight?

theorem slotsIn_append (m m' : Slotted ι) : slotsIn (m ++ m') = slotsIn m ++ slotsIn m' :=
  List.filterMap_append

theorem slotsIn_literal (cs : List Char) : slotsIn (literal cs : Slotted ι) = [] := by
  rw [slotsIn, literal, List.filterMap_map]
  exact List.filterMap_eq_nil_iff.2 fun _ _ => rfl

theorem slotsIn_ofSegments (segments : List (List Char × ι)) :
    slotsIn (ofSegments segments) = segments.map (·.2) := by
  induction segments with
  | nil => rfl
  | cons s segments ih =>
    rw [ofSegments_cons, slotsIn_append, slotsIn_literal]
    exact congrArg (s.2 :: ·) ih

/-! The attributes in the markup. -/

/-- The text is made of the attributes, in order, and texts without slots. -/
inductive Writes : List SketchAttribute → Slotted Nat → Prop where
  | literal (cs : List Char) : Writes [] (literal cs)
  | single (a : SketchAttribute) : Writes [a] (attributeSource a)
  | append {as bs : List SketchAttribute} {m m' : Slotted Nat} (h : Writes as m) (h' : Writes bs m') :
    Writes (as ++ bs) (m ++ m')

namespace Writes

variable {as : List SketchAttribute} {m : Slotted Nat}

theorem wirable (h : Writes as m) (hnames : ∀ s ∈ slotsOf as, namesHandler s.1.toList = true) :
    Wirable m := by
  induction h with
  | literal cs => exact wirable_literal cs
  | single a =>
    obtain ⟨name, value | k⟩ := a
    · exact (wirable_literal _).append ((wirable_literal _).append (wirable_literal _))
    · refine ⟨[(' ' :: (name.toList ++ ['=', '"']), k)], ['"'], by simp [ofSegments, attributeSource],
        fun s hs => ?_⟩
      obtain rfl := List.mem_singleton.1 hs
      exact ⟨[], name.toList, rfl, hnames (name, k) List.mem_cons_self⟩
  | append _ _ ih ih' =>
    rw [slotsOf, List.filterMap_append, List.forall_mem_append] at hnames
    exact (ih hnames.1).append (ih' hnames.2)

theorem slotsIn_eq (h : Writes as m) : slotsIn m = (slotsOf as).map (·.2) := by
  induction h with
  | literal cs => exact slotsIn_literal cs
  | single a =>
    rw [attributeSource, slotsIn_append, slotsIn_literal, slotsIn_append, slotsIn_literal,
      List.nil_append, List.append_nil]
    obtain ⟨name, value | k⟩ := a
    · exact slotsIn_literal _
    · rfl
  | append _ _ ih ih' =>
    rw [slotsIn_append, ih, ih', ← List.map_append, slotsOf, slotsOf, ← List.filterMap_append, slotsOf]

theorem infix_of_mem (h : Writes as m) {a : SketchAttribute} (ha : a ∈ as) : attributeSource a <:+: m := by
  induction h with
  | literal cs => cases ha
  | single b => rw [List.mem_singleton.1 ha]
  | append _ _ ih ih' =>
    rcases List.mem_append.1 ha with ha | ha
    · exact (ih ha).trans (List.prefix_append ..).isInfix
    · exact (ih' ha).trans (List.suffix_append ..).isInfix

private theorem of_attributes (as : List SketchAttribute) :
    Writes as (as.flatMap attributeSource) := by
  induction as with
  | nil => exact .literal []
  | cons a as ih => exact .append (.single a) ih

end Writes

/-! Canonical forests. -/

variable {v : Nat → String}

private theorem castAll_eq_nil {ns : List Sketch} (h : (castAll v ns : List (Html α)) = []) :
    ns = [] := by
  cases ns with
  | nil => rfl
  | cons n ns => cases h

/-- There are no slots in an element that holds text only. -/
theorem text_of_rawContent {tag : String} {ns : List Sketch}
    (h : Html.RawContent tag (castAll v ns : List (Html α))) : ns = [] ∨ ∃ s, ns = [text s] := by
  rcases h with h | ⟨s, h, -⟩
  · exact .inl (castAll_eq_nil h)
  · match ns with
    | [] => cases h
    | .text t :: ns =>
      rw [castAll, List.cons.injEq] at h
      exact .inr ⟨t, by rw [castAll_eq_nil h.2]⟩
    | .element .. :: ns | .comment .. :: ns =>
      rw [castAll, cast] at h
      cases h

mutual

theorem writes_source (n : Sketch) (h : Html.Canonical (n.cast v : Html α)) :
    Writes n.attributes n.source := by
  match n with
  | text s => exact .literal _
  | comment s => exact .literal _
  | element tag as children =>
    rw [cast] at h
    cases h with
    | element _ _ _ hvoid hraw hchildren _ =>
    have hopening : Writes as (literal ('<' :: tag.toList) ++
        (as.flatMap attributeSource ++ literal ['>'])) := by
      have h := Writes.append (.literal ('<' :: tag.toList)) (.append (.of_attributes as) (.literal ['>']))
      rwa [List.nil_append, List.append_nil] at h
    rw [source, attributes]
    split
    · next hv =>
      rw [castAll_eq_nil (hvoid hv), attributesAll, List.append_nil]
      exact hopening
    · have hinner : Writes (attributesAll children) (sourceAll children) := by
        by_cases ht : tag ∈ Html.rawTextTags
        · obtain rfl | ⟨s, rfl⟩ := text_of_rawContent (hraw ht)
          · exact .literal []
          · exact .append (.literal _) (.literal [])
        · exact writes_sourceAll children (hchildren ht)
      have h := hopening.append (hinner.append (.literal ("</" ++ tag ++ ">").toList))
      rwa [List.append_nil] at h

/-- The markup of a canonical forest has the attributes of the forest, in order. -/
theorem writes_sourceAll (ns : List Sketch)
    (h : ∀ n ∈ (castAll v ns : List (Html α)), Html.Canonical n) :
    Writes (attributesAll ns) (sourceAll ns) := by
  match ns with
  | [] => exact .literal []
  | n :: ns =>
    rw [castAll, List.forall_mem_cons] at h
    exact .append (writes_source n h.1) (writes_sourceAll ns h.2)

end

private theorem isText_cast (v w : Nat → String) (n : Sketch) :
    (n.cast v : Html α).isText = (n.cast w : Html α).isText := by
  cases n <;> rfl

private theorem castAll_eq_map (v : Nat → String) (ns : List Sketch) :
    (castAll v ns : List (Html α)) = ns.map (cast v) := by
  induction ns with
  | nil => rfl
  | cons n ns ih => rw [castAll, ih, List.map_cons]

theorem apart_castAll {w : Nat → String} {ns : List Sketch}
    (h : Html.Apart (castAll v ns : List (Html α))) : Html.Apart (castAll w ns : List (Html α)) := by
  rw [castAll_eq_map, Html.Apart, List.isChain_map] at h ⊢
  exact h.imp fun a b hab => by rwa [isText_cast w v a, isText_cast w v b]

private theorem canonicalAttributes_cast {w : Nat → String} (hw : ∀ k, '"' ∉ (w k).toList)
    {attributes : List SketchAttribute}
    (h : Html.CanonicalAttributes (attributes.map (castAttribute v))) :
    Html.CanonicalAttributes (attributes.map (castAttribute w)) := by
  have hnames (v : Nat → String) : (attributes.map (castAttribute v)).map (·.1) = attributes.map (·.1) := by
    rw [List.map_map]
    rfl
  refine ⟨fun a ha => ?_, fun a ha => ?_, ?_⟩
  · obtain ⟨b, hb, rfl⟩ := List.mem_map.1 ha
    exact h.names (castAttribute v b) (List.mem_map_of_mem hb)
  · obtain ⟨⟨name, value | k⟩, hb, rfl⟩ := List.mem_map.1 ha
    · exact h.values (castAttribute v (name, .inl value)) (List.mem_map_of_mem hb)
    · exact hw k
  · rw [hnames, ← hnames v]
    exact h.distinct

mutual

theorem canonical_cast {w : Nat → String} (hw : ∀ k, '"' ∉ (w k).toList) (n : Sketch)
    (h : Html.Canonical (n.cast v : Html α)) : Html.Canonical (n.cast w : Html α) := by
  match n with
  | text s => exact h
  | comment s => exact h
  | element tag attributes children =>
    rw [cast] at h ⊢
    cases h with
    | element htag hletter hattributes hvoid hraw hchildren hapart =>
    refine .element htag hletter (canonicalAttributes_cast hw hattributes) (fun hv => ?_) (fun ht => ?_)
      (fun ht => canonical_castAll hw children (hchildren ht)) fun ht => apart_castAll (hapart ht)
    · rw [castAll_eq_nil (hvoid hv), castAll]
    · have hcontent := hraw ht
      obtain rfl | ⟨s, rfl⟩ := text_of_rawContent hcontent
      · exact .inl rfl
      · exact hcontent

/-- Whether a forest is canonical does not depend on what is in its slots, if they have no double
quotes. -/
theorem canonical_castAll {w : Nat → String} (hw : ∀ k, '"' ∉ (w k).toList) (ns : List Sketch)
    (h : ∀ n ∈ (castAll v ns : List (Html α)), Html.Canonical n) :
    ∀ n ∈ (castAll w ns : List (Html α)), Html.Canonical n := by
  match ns with
  | [] => exact nofun
  | n :: ns =>
    rw [castAll, List.forall_mem_cons] at h ⊢
    exact ⟨canonical_cast hw n h.1, canonical_castAll hw ns h.2⟩

end

end Sketch

end LiveMarkup
