import LiveMarkup.Proofs.Html.Zones
import LiveMarkup.Text.Entity
import Mathlib.Data.List.Forall2

/-! Markup with slots: escaped texts in the place of its slots cannot change what it is read as. -/

namespace LiveMarkup.Html

variable {ι α : Type}

abbrev Slotted (ι : Type) := List (Char ⊕ ι)

def Slotted.fill (v : ι → List Char) (m : Slotted ι) : List Char :=
  m.flatMap (Sum.elim (fun c => [c]) v)

def literal (cs : List Char) : Slotted ι := cs.map .inl

def sample : ι → List Char := fun _ => ['x']

/-- The texts have none of the signs that end a text or a value. -/
def Tame (u : ι → List Char) : Prop := ∀ k, ∀ c ∈ u k, c ≠ '<' ∧ c ≠ '>' ∧ c ≠ '"' ∧ c ≠ '\''

/-- A slot may lie in text, where it may not be left empty, or in a value. -/
inductive Fits (u : ι → List Char) : Char ⊕ ι → Zone → Prop where
  | literal (c : Char) (z : Zone) : Fits u (.inl c) z
  | text {k : ι} (h : u k ≠ []) : Fits u (.inr k) .text
  | value (k : ι) : Fits u (.inr k) .value

/-- The characters and slots of a text lie in the zones. -/
abbrev Slotted.Within (u : ι → List Char) (m : Slotted ι) (zs : List Zone) : Prop :=
  List.Forall₂ (Fits u) m zs

open Slotted

variable {u v : ι → List Char} {m a b : Slotted ι} {cs pre rest after : List Char} {c : Char} {k : ι}
  {y zs : List Zone} {value : String}

@[simp] theorem fill_nil : fill u ([] : Slotted ι) = [] := rfl

@[simp] theorem fill_inl : fill u (.inl c :: m) = c :: fill u m := rfl

@[simp] theorem fill_inr : fill u (.inr k :: m) = u k ++ fill u m := rfl

@[simp] theorem fill_append : fill u (a ++ b) = fill u a ++ fill u b := List.flatMap_append

@[simp] theorem fill_literal : fill u (literal cs) = cs := by
  induction cs with
  | nil => rfl
  | cons c cs ih => exact congrArg (c :: ·) ih

theorem tame_sample : Tame (sample (ι := ι)) := by
  intro k c hc
  obtain rfl := List.mem_singleton.1 hc
  decide

private theorem fill_sample (m : Slotted ι) : fill sample m = m.map (Sum.elim id fun _ => 'x') := by
  induction m with
  | nil => rfl
  | cons p m ih => cases p <;> simp [ih, sample]

theorem length_fill_sample (m : Slotted ι) : (fill sample m).length = m.length := by
  rw [fill_sample, List.length_map]

/-- Where the filled text is cut, so is the text with slots. -/
private theorem exists_of_fill_append (h : fill sample m = pre ++ rest) :
    ∃ a b, m = a ++ b ∧ fill sample a = pre ∧ fill sample b = rest := by
  rw [fill_sample, List.map_eq_append_iff] at h
  obtain ⟨a, b, hm, ha, hb⟩ := h
  exact ⟨a, b, hm, by rw [fill_sample, ha], by rw [fill_sample, hb]⟩

theorem exists_of_fill_cons (h : fill sample m = c :: rest) :
    ∃ p b, m = p :: b ∧ fill sample [p] = [c] ∧ fill sample b = rest := by
  rw [fill_sample, List.map_eq_cons_iff] at h
  obtain ⟨p, b, hm, hp, hb⟩ := h
  exact ⟨p, b, hm, by rw [fill_sample, ← hp]; rfl, by rw [fill_sample, hb]⟩

private theorem not_mem_fill (hu : Tame u) (hc : c = '<' ∨ c = '>' ∨ c = '"' ∨ c = '\'')
    (h : c ∉ fill sample m) : c ∉ fill u m := by
  induction m with
  | nil => exact List.not_mem_nil
  | cons p m ih =>
    cases p with
    | inl d =>
      rw [fill_inl, List.mem_cons, not_or] at h ⊢
      exact ⟨h.1, ih h.2⟩
    | inr k =>
      rw [fill_inr, List.mem_append, not_or] at h ⊢
      refine ⟨fun hmem => ?_, ih h.2⟩
      obtain ⟨h₁, h₂, h₃, h₄⟩ := hu k c hmem
      rcases hc with rfl | rfl | rfl | rfl <;> contradiction

namespace Slotted.Within

theorem of_append (h : Within u (a ++ b) (y ++ zs)) (hlength : a.length = y.length) :
    Within u a y ∧ Within u b zs := by
  have htake := List.forall₂_take_append _ _ _ h
  have hdrop := List.forall₂_drop_append _ _ _ h
  rw [List.take_left' hlength] at htake
  rw [List.drop_left' hlength] at hdrop
  exact ⟨htake, hdrop⟩

/-- There are no slots where there is neither text nor value. -/
private theorem eq_literal {n : Nat} (h : Within u m (List.replicate n .markup)) :
    m = literal (fill sample m) := by
  induction n generalizing m with
  | zero => cases h; rfl
  | succ n ih =>
    rw [List.replicate_succ] at h
    cases h with
    | cons hp hm =>
      cases hp
      exact congrArg (_ :: ·) (ih hm)

/-- What has been read of a text that is neither text nor value stands as it is, however the slots
are filled. -/
theorem markup (h : Within sample m (skipped cs rest ++ zs)) (hm : fill sample m = cs)
    (hcs : cs = pre ++ rest) :
    ∃ m', m = literal pre ++ m' ∧ fill sample m' = rest ∧
      ∀ {u : ι → List Char}, Within u m (skipped cs rest ++ zs) → Within u m' zs := by
  obtain ⟨a, b, rfl, ha, hb⟩ := exists_of_fill_append (hm.trans hcs)
  have hlength : a.length = (skipped cs rest).length := by
    rw [← length_fill_sample, ha, skipped, List.length_replicate, hcs, List.length_append,
      Nat.add_sub_cancel]
  have hliteral := (h.of_append hlength).1.eq_literal
  rw [ha] at hliteral
  exact ⟨b, by rw [← hliteral], hb, fun h => (h.of_append hlength).2⟩

/-- So does what has been read after white space. -/
private theorem trimmed {w : List Char} (h : Within sample m (skipped cs rest ++ zs))
    (hm : fill sample m = cs) (hcs : Text.trimStart cs = w ++ rest) (hw : w ≠ []) :
    ∃ m', fill sample m' = rest ∧ literal w ++ m' <:+ m ∧ ∀ {u : ι → List Char},
      Text.trimStart (fill u m) = w ++ fill u m' ∧
        (Within u m (skipped cs rest ++ zs) → Within u m' zs) := by
  obtain ⟨blanks, hblanks, hall⟩ := exists_blanks cs
  have hstops := stops_trimStart cs
  rw [hcs, ← List.append_assoc] at hblanks
  obtain ⟨m', rfl, rfl, hkeep⟩ := h.markup hm hblanks
  refine ⟨m', rfl, ⟨literal blanks, ?_⟩, fun {u} => ⟨?_, hkeep⟩⟩
  · rw [literal, literal, literal, List.map_append, List.append_assoc]
  obtain ⟨d, w, rfl⟩ := List.exists_cons_of_ne_nil hw
  rw [hcs] at hstops
  rw [fill_append, fill_literal, List.append_assoc]
  exact Stops.trimStart_append (stops_cons.2 (stops_cons.1 hstops)) hall

/-- Text that does not begin with a slot begins with the same character however the slots are
filled. -/
private theorem head?_fill (h : Within sample m zs) (hz : ∀ z ∈ zs.head?, z = .markup)
    (u : ι → List Char) :
    (fill u m).head? = (fill sample m).head? := by
  cases h with
  | nil => rfl
  | cons hp =>
    cases hp with
    | literal => rfl
    | text => cases hz _ rfl
    | value => cases hz _ rfl

theorem head?_fill_tag (h : Within sample m (tagZones (fill sample m) ++ zs)) (u : ι → List Char) :
    (fill u m).head? = (fill sample m).head? := by
  by_cases hm : m = []
  · rw [hm]
    rfl
  · refine h.head?_fill (fun z hz => ?_) u
    have hne : fill sample m ≠ [] := by
      rwa [ne_eq, ← List.length_eq_zero_iff, length_fill_sample, List.length_eq_zero_iff]
    rw [head?_tagZones hne] at hz
    exact (Option.some.inj hz).symm

private theorem head?_fill_assigned
    (h : Within sample m (assignedZones (fill sample m) ++ (tagZones after ++ zs)))
    (hread : readAssigned (fill sample m) = .ok (value, after)) (u : ι → List Char) :
    (fill u m).head? = (fill sample m).head? := by
  by_cases hm : m = []
  · rw [hm]
    rfl
  · refine h.head?_fill (fun z hz => ?_) u
    have hne : fill sample m ≠ [] := by
      rwa [ne_eq, ← List.length_eq_zero_iff, length_fill_sample, List.length_eq_zero_iff]
    rw [head?_assignedZones hne hread] at hz
    exact (Option.some.inj hz).symm

end Slotted.Within

/-- A value stands in the text between quotes that do not occur in it, or it has no slots. -/
def Slotted.Encloses (m w : Slotted ι) : Prop :=
  (∃ word, w = literal word) ∨
    ∃ q, (q = '"' ∨ q = '\'') ∧ .inl q ∉ w ∧ .inl q :: (w ++ [.inl q]) <:+: m

theorem Slotted.Encloses.mono {w : Slotted ι} (h : a.Encloses w) (ha : a <:+ m) : m.Encloses w := by
  obtain hword | ⟨q, hq, hw, hin⟩ := h
  · exact .inl hword
  · exact .inr ⟨q, hq, hw, hin.trans ha.isInfix⟩

/-! Readers read the same of a text however its slots are filled. -/

theorem head?_append_congr (pre : List Char) (h : rest.head? = cs.head?) :
    (pre ++ rest).head? = (pre ++ cs).head? := by
  rw [List.head?_append, List.head?_append, h]

/-- A value between quotes keeps its slots. -/
private theorem readValue_slotted_quoted {q : Char} {word : List Char} (hq : q = '"' ∨ q = '\'')
    (hcs : Text.trimStart (fill sample m) = q :: (word ++ q :: after)) (hword : q ∉ word)
    (hm : Within sample m (quotedZones q (fill sample m) (word ++ q :: after) ++ zs)) :
    ∃ w m', fill sample w = word ∧ fill sample m' = after ∧ m' <:+ m ∧ m.Encloses w ∧
      ∀ {u : ι → List Char}, Tame u →
        Within u m (quotedZones q (fill sample m) (word ++ q :: after) ++ zs) →
        readValue (fill u m) = .ok (String.ofList (fill u w), fill u m') ∧ Within u m' zs := by
  rw [quotedZones_eq hword, List.append_assoc, List.append_assoc] at hm ⊢
  obtain ⟨m₁, hm₁, hsuffix, hstep⟩ := hm.trimmed rfl (w := [q]) hcs (List.cons_ne_nil _ _)
  obtain ⟨w, m₂, rfl, hw, hm₂⟩ := exists_of_fill_append hm₁
  have hlength : w.length = (List.replicate word.length Zone.value).length := by
    rw [← length_fill_sample, hw, List.length_replicate]
  have hquote := ((hstep.2 hm).of_append hlength).2
  obtain ⟨p, m', rfl, hp, hm'⟩ := exists_of_fill_cons hm₂
  obtain rfl : p = .inl q := by
    obtain _ | ⟨hfit, -⟩ := hquote
    cases hfit
    exact congrArg Sum.inl (List.singleton_inj.1 hp)
  have hrest : m' <:+ literal [q] ++ (w ++ .inl q :: m') :=
    ⟨literal [q] ++ (w ++ [.inl q]), by rw [List.append_assoc, List.append_assoc]; rfl⟩
  have hinside : .inl q :: (w ++ [.inl q]) <+: literal [q] ++ (w ++ .inl q :: m') :=
    ⟨m', by rw [List.cons_append, List.append_assoc]; rfl⟩
  have hquotes : .inl q ∉ w := fun hmem => hword <| by
    rw [← hw, fill_sample]
    exact List.mem_map_of_mem (f := Sum.elim id fun _ => 'x') hmem
  refine ⟨w, m', hw, hm', hrest.trans hsuffix,
    .inr ⟨q, hq, hquotes, hinside.isInfix.trans hsuffix.isInfix⟩, fun {u} hu h => ⟨?_, ?_⟩⟩
  · have htrim := (hstep (u := u)).1
    rw [fill_append, fill_inl] at htrim
    exact readValue_quoted hq htrim
      (not_mem_fill hu (by rcases hq with rfl | rfl <;> simp) (hw ▸ hword))
  · obtain _ | ⟨-, hrest⟩ := ((hstep.2 h).of_append hlength).2
    exact hrest

private theorem readValue_slotted (hread : readValue (fill sample m) = .ok (value, after))
    (hm : Within sample m (valueZones (fill sample m) ++ (tagZones after ++ zs))) :
    ∃ w m', value = String.ofList (fill sample w) ∧ fill sample m' = after ∧ m' <:+ m ∧
      m.Encloses w ∧ ∀ {u : ι → List Char}, Tame u →
        Within u m (valueZones (fill sample m) ++ (tagZones after ++ zs)) →
        readValue (fill u m) = .ok (String.ofList (fill u w), fill u m') ∧
          Within u m' (tagZones after ++ zs) := by
  obtain ⟨q, word, hq, hcs, hword, rfl⟩ | ⟨hbare, rfl, rfl⟩ := readValue_cases hread
  · have hzones : valueZones (fill sample m) = quotedZones q (fill sample m) (word ++ q :: after) := by
      rw [valueZones]
      rcases hq with rfl | rfl <;> simp only [hcs]
    rw [hzones] at hm ⊢
    obtain ⟨w, m', hw, hm', hrest⟩ := readValue_slotted_quoted hq hcs hword hm
    exact ⟨w, m', congrArg String.ofList hw.symm, hm', hrest⟩
  · obtain ⟨blanks, hcs, hall⟩ := exists_blanks (fill sample m)
    have htrimmed := stops_trimStart (fill sample m)
    rw [valueZones_bare hbare] at hm ⊢
    generalize Text.trimStart (fill sample m) = r at hm hcs hbare htrimmed ⊢
    have hword := List.all_eq_true.1 (List.all_takeWhile (p := fun c => !endsValue c) (l := r))
    have hstops := stops_dropWhile (fun c => !endsValue c) r
    have hr : r = (r.takeWhile fun c => !endsValue c) ++ r.dropWhile fun c => !endsValue c :=
      List.takeWhile_append_dropWhile.symm
    generalize r.takeWhile (fun c => !endsValue c) = word, r.dropWhile (fun c => !endsValue c) = after
      at hm hr hword hstops ⊢
    subst hr
    obtain ⟨m', rfl, rfl, hkeep⟩ := hm.markup rfl
      (show fill sample m = (blanks ++ word) ++ after by rw [hcs, List.append_assoc])
    refine ⟨literal word, m', by rw [fill_literal], rfl, List.suffix_append .., .inl ⟨word, rfl⟩,
      fun {u} hu h => ⟨?_, hkeep h⟩⟩
    have hhead := (hkeep hm).head?_fill_tag u
    have hwhole := head?_append_congr word hhead
    rw [fill_append, fill_literal, fill_literal, List.append_assoc,
      readValue_bare ((htrimmed.congr hwhole).trimStart_append hall) (hbare.congr hwhole),
      (hstops.congr hhead).takeWhile_append hword, (hstops.congr hhead).dropWhile_append hword]

private theorem readAssigned_slotted (hread : readAssigned (fill sample m) = .ok (value, after))
    (hm : Within sample m (assignedZones (fill sample m) ++ (tagZones after ++ zs))) :
    ∃ w m', value = String.ofList (fill sample w) ∧ fill sample m' = after ∧ m' <:+ m ∧
      m.Encloses w ∧ ∀ {u : ι → List Char}, Tame u →
        Within u m (assignedZones (fill sample m) ++ (tagZones after ++ zs)) →
        readAssigned (fill u m) = .ok (String.ofList (fill u w), fill u m') ∧
          Within u m' (tagZones after ++ zs) := by
  obtain ⟨rest, hrest⟩ | hstops := cons_or_stops '=' (Text.trimStart (fill sample m))
  · rw [readAssigned_equal hrest] at hread
    rw [assignedZones_equal hrest, List.append_assoc] at hm ⊢
    obtain ⟨m₁, rfl, hsuffix, hstep⟩ := hm.trimmed rfl (w := ['=']) hrest (List.cons_ne_nil _ _)
    obtain ⟨w, m', hvalue, hm', hafter, hw, hreads⟩ := readValue_slotted hread (hstep.2 hm)
    have hm₁ : m₁ <:+ m := (List.suffix_append _ m₁).trans hsuffix
    refine ⟨w, m', hvalue, hm', hafter.trans hm₁, hw.mono hm₁, fun {u} hu h => ?_⟩
    rw [readAssigned_equal hstep.1]
    exact hreads hu (hstep.2 h)
  · cases hread.symm.trans (readAssigned_none hstops)
    obtain ⟨blanks, hcs, hall⟩ := exists_blanks (fill sample m)
    have htrimmed := stops_trimStart (fill sample m)
    rw [assignedZones_none hstops] at hm ⊢
    generalize Text.trimStart (fill sample m) = r at hm hcs hstops htrimmed ⊢
    obtain ⟨m', rfl, rfl, hkeep⟩ := hm.markup rfl hcs
    refine ⟨[], m', rfl, rfl, List.suffix_append .., .inl ⟨[], rfl⟩,
      fun {u} hu h => ⟨?_, hkeep h⟩⟩
    have hhead := (hkeep hm).head?_fill_tag u
    have htrim : Text.trimStart (fill u (literal blanks ++ m')) = fill u m' := by
      rw [fill_append, fill_literal]
      exact (htrimmed.congr hhead).trimStart_append hall
    rw [readAssigned_none (by rw [htrim]; exact hstops.congr hhead), htrim]
    rfl

def fillAttributes (u : ι → List Char) (as : List (String × Slotted ι)) : List (String × String) :=
  as.map fun a => (a.1, String.ofList (fill u a.2))

theorem fillAttributes_nil (u : ι → List Char) :
    [] = fillAttributes u ([] : List (String × Slotted ι)) := rfl

private theorem isSome_attribute? {name : String} {attributes : List (String × String)} :
    (attribute? name attributes).isSome = true ↔ name ∈ attributes.map (·.1) := by
  rw [attribute?, Option.isSome_map, List.find?_isSome]
  simp

private theorem names_fillAttributes (u : ι → List Char) (as : List (String × Slotted ι)) :
    (fillAttributes u as).map (·.1) = as.map (·.1) := by
  rw [fillAttributes, List.map_map]
  rfl

/-- Whether an attribute is kept does not depend on the values, so it is kept with its slots. -/
private theorem exists_keepAttribute (as : List (String × Slotted ι)) (name : String)
    (w : Slotted ι) :
    ∃ as', (∀ a ∈ as', a ∈ as ∨ a = (name, w)) ∧ ∀ u : ι → List Char,
      (if (attribute? name (fillAttributes u as)).isSome then fillAttributes u as
        else setAttribute name (String.ofList (fill u w)) (fillAttributes u as)) =
        fillAttributes u as' := by
  by_cases hname : name ∈ as.map (·.1)
  · refine ⟨as, fun a ha => .inl ha, fun u => if_pos ?_⟩
    rwa [isSome_attribute?, names_fillAttributes]
  · refine ⟨as ++ [(name, w)], fun a ha => (List.mem_append.1 ha).imp_right List.mem_singleton.1,
      fun u => ?_⟩
    have hnew : name ∉ (fillAttributes u as).map (·.1) := by rwa [names_fillAttributes]
    rw [if_neg (by rwa [isSome_attribute?]), setAttribute_new hnew, fillAttributes, fillAttributes,
      List.map_append]
    rfl

/-- An opening tag keeps its attributes, in which the slots are part of values. -/
theorem readTagEnd_slotted {attributes : List (String × String)} {as : List (String × Slotted ι)}
    {t : TagEnd} (hread : readTagEnd attributes cs = .ok (t, after))
    (has : attributes = fillAttributes sample as) (hcs : fill sample m = cs)
    (hm : Within sample m (tagZones cs ++ zs)) :
    ∃ as' m', t.attributes = fillAttributes sample as' ∧ fill sample m' = after ∧ m' <:+ m ∧
      (∀ a ∈ as', a ∈ as ∨ m.Encloses a.2) ∧
      ∀ {u : ι → List Char}, Tame u → Within u m (tagZones cs ++ zs) →
        readTagEnd (fillAttributes u as) (fill u m) =
            .ok (⟨fillAttributes u as', t.selfClosing⟩, fill u m') ∧
          Within u m' zs := by
  fun_induction readTagEnd attributes cs generalizing as m with
  | case1 => cases hread
  | case2 attributes cs rest htrim =>
    cases hread
    rw [tagZones_end htrim] at hm ⊢
    obtain ⟨m', hm', hsuffix, hstep⟩ := hm.trimmed hcs (w := ['>']) htrim (List.cons_ne_nil _ _)
    exact ⟨as, m', has, hm', (List.suffix_append ..).trans hsuffix, fun a ha => .inl ha,
      fun _ h => ⟨readTagEnd_end hstep.1, hstep.2 h⟩⟩
  | case3 attributes cs rest htrim =>
    cases hread
    rw [tagZones_selfClosing htrim] at hm ⊢
    obtain ⟨m', hm', hsuffix, hstep⟩ := hm.trimmed hcs (w := ['/', '>']) htrim (List.cons_ne_nil _ _)
    exact ⟨as, m', has, hm', (List.suffix_append ..).trans hsuffix, fun a ha => .inl ha,
      fun _ h => ⟨readTagEnd_selfClosing hstep.1, hstep.2 h⟩⟩
  | case4 attributes cs rest hclose htrim ih =>
    have hstops : Stops (· == '>') rest := (cons_or_stops '>' rest).resolve_left (not_exists.2 hclose)
    rw [tagZones_slash htrim hstops, List.append_assoc] at hm ⊢
    obtain ⟨m₁, rfl, hsuffix, hstep⟩ := hm.trimmed hcs (w := ['/']) htrim (List.cons_ne_nil _ _)
    obtain ⟨as', m', has', hm', hafter, hvalues, hreads⟩ := ih hread has rfl (hstep.2 hm)
    have hm₁ : m₁ <:+ m := (List.suffix_append _ m₁).trans hsuffix
    refine ⟨as', m', has', hm', hafter.trans hm₁, fun a ha => (hvalues a ha).imp_right (·.mono hm₁),
      fun {u} hu h => ?_⟩
    rw [readTagEnd_slash hstep.1 (hstops.congr ((hstep.2 hm).head?_fill_tag u))]
    exact hreads hu (hstep.2 h)
  | case5 attributes cs c rest hclose _ hslash htrim hends ih =>
    obtain rfl := eq_equal_of_endsName htrim hends hclose hslash
    rw [tagZones_equal htrim, List.append_assoc] at hm ⊢
    obtain ⟨m₁, rfl, hsuffix, hstep⟩ := hm.trimmed hcs (w := ['=']) htrim (List.cons_ne_nil _ _)
    obtain ⟨as', m', has', hm', hafter, hvalues, hreads⟩ := ih hread has rfl (hstep.2 hm)
    have hm₁ : m₁ <:+ m := (List.suffix_append _ m₁).trans hsuffix
    refine ⟨as', m', has', hm', hafter.trans hm₁, fun a ha => (hvalues a ha).imp_right (·.mono hm₁),
      fun {u} hu h => ?_⟩
    rw [readTagEnd_equal hstep.1]
    exact hreads hu (hstep.2 h)
  | case6 => cases hread
  | case7 attributes cs c rest _ _ _ htrim hends name value after hvalue =>
    rename_i ih
    have hc : endsName c = false := Bool.eq_false_iff.2 hends
    obtain ⟨word, hword, hnames, hlower⟩ := exists_name_cons hc rest
    have hstops := stops_afterName (c :: rest)
    rw [tagZones_named htrim hc hvalue, List.append_assoc, List.append_assoc] at hm ⊢
    generalize afterName (c :: rest) = assigned at hm hword hstops hvalue ⊢
    obtain ⟨m₁, rfl, hsuffix, hstep⟩ := hm.trimmed hcs (w := c :: word)
      (htrim.trans (congrArg (c :: ·) hword)) (List.cons_ne_nil _ _)
    obtain ⟨w, m₂, rfl, hm₂, hsuffix₂, hw, hassigned⟩ := readAssigned_slotted hvalue (hstep.2 hm)
    obtain ⟨kept, hold, hkept⟩ := exists_keepAttribute as (lowerName (c :: rest)) w
    obtain ⟨as', m', has', hm', hafter, hvalues, hreads⟩ := ih hread (by rw [has]; exact hkept sample)
      hm₂ (hassigned tame_sample (hstep.2 hm)).2
    have hm₁ : m₁ <:+ m := (List.suffix_append _ m₁).trans hsuffix
    refine ⟨as', m', has', hm', (hafter.trans hsuffix₂).trans hm₁, fun a ha => ?_,
      fun {u} hu h => ?_⟩
    · rcases hvalues a ha with hmem | hin
      · obtain hkept | rfl := hold a hmem
        · exact .inl hkept
        · exact .inr (hw.mono hm₁)
      · exact .inr (hin.mono (hsuffix₂.trans hm₁))
    obtain ⟨hvalueu, hwithin⟩ := hassigned hu (hstep.2 h)
    have hstopsu := hstops.congr ((hstep.2 hm).head?_fill_assigned hvalue u)
    rw [readTagEnd_named hstep.1 hnames hstopsu hvalueu, ← hlower, hkept]
    exact hreads hu hwithin

end LiveMarkup.Html
