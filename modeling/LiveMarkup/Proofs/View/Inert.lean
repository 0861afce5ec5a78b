import LiveMarkup.Proofs.Eval.Shown
import LiveMarkup.Proofs.Html.Content
import LiveMarkup.Proofs.Html.Quoted
import LiveMarkup.Proofs.View.Shows
import LiveMarkup.Proofs.View.Trace
import LiveMarkup.Proofs.View.Wiring

/-! Strings in the place of values of attributes. Two outputs of a view that differ in such strings only
make the same trees with the same listeners, but for the values of attributes, unless one of the strings
is itself a placeholder of one of the functions. -/

namespace LiveMarkup

namespace Decimal

/-- A position has no signs but digits and a plus. -/
private theorem isDigit_of_readIndex? {cs : List Char} {n : Nat} (h : readIndex? cs = some n) :
    ∀ c ∈ cs, c.isDigit = true ∨ c = '+' := by
  have digits {ds : List Char} (hd : readNat? ds ≠ none) : ∀ c ∈ ds, c.isDigit = true := by
    intro c hc
    rw [readNat?] at hd
    split at hd
    · next hall => exact List.all_eq_true.1 (Bool.and_eq_true_iff.1 hall).2 c hc
    · exact absurd rfl hd
  obtain ⟨m, hm, -⟩ := Option.bind_eq_some_iff.1 h
  split at hm
  · intro c hc
    rcases List.mem_cons.1 hc with rfl | hc
    · exact .inr rfl
    · exact .inl (digits (by rw [hm]; exact Option.some_ne_none m) c hc)
  · exact fun c hc => .inl (digits (by rw [hm]; exact Option.some_ne_none m) c hc)

end Decimal

namespace Slot

open Html (Slotted literal revalue revalueAll revalued)

variable {α : Type} {handlers : List α} {a : String × String} {attributes : List (String × String)}
  {attr : Option String} {name : String}

def Refers (n : Nat) (s : String) : Prop :=
  ∃ k < n, (Text.dropPrefix? placeholder.toList s.toList).bind Decimal.readIndex? = some k

instance (n : Nat) (s : String) : Decidable (Refers n s) :=
  decidable_of_iff (((Text.dropPrefix? placeholder.toList s.toList).bind Decimal.readIndex?).any (· < n) = true)
    (by simp only [Refers, Option.any_eq_true, decide_eq_true_eq, and_comm])

private theorem refers_of_binding? {b : String × α} (h : binding? handlers a = some b) :
    Refers handlers.length a.2 := by
  unfold binding? at h
  split at h
  · cases h
  · cases h
  · obtain ⟨k, hk, hb⟩ := Option.bind_eq_some_iff.1 h
    obtain ⟨f, hf, -⟩ := Option.map_eq_some_iff.1 hb
    exact ⟨k, (List.getElem?_eq_some_iff.1 hf).1, hk⟩

private theorem mem_of_binding? {b : String × α} (h : binding? handlers a = some b) :
    b.2 ∈ handlers := by
  unfold binding? at h
  split at h
  · cases h
  · cases h
  · obtain ⟨k, -, hb⟩ := Option.bind_eq_some_iff.1 h
    obtain ⟨f, hf, rfl⟩ := Option.map_eq_some_iff.1 hb
    exact List.mem_of_getElem? hf

private theorem not_refers_of_quote {n : Nat} {s : String} (h : '"' ∈ s.toList) : ¬ Refers n s := by
  rintro ⟨k, -, hk⟩
  obtain ⟨rest, hrest, hread⟩ := Option.bind_eq_some_iff.1 hk
  rw [Text.dropPrefix?_eq_some hrest, List.mem_append] at h
  rcases h with h | h
  · exact absurd h (by decide)
  · rcases Decimal.isDigit_of_readIndex? hread _ h with h | h <;> exact absurd h (by decide)

/-- The value of an attribute if it stands for a listener. -/
def bound (handlers : List α) (a : String × String) : String :=
  if (binding? handlers a).isSome then a.2 else ""

private theorem bound_of_not_refers (h : ¬ Refers handlers.length a.2) : bound handlers a = "" := by
  rw [bound, if_neg]
  intro hsome
  obtain ⟨b, hb⟩ := Option.isSome_iff_exists.1 hsome
  exact h (refers_of_binding? hb)

/-- An attribute stands for the same listener without any other values. -/
private theorem binding?_bound (handlers : List α) (a : String × String) :
    binding? handlers (revalued (bound handlers) a) = binding? handlers a := by
  rw [revalued, bound]
  split
  · rfl
  · next h =>
    rw [binding?_plain (by decide)]
    exact (Option.not_isSome_iff_eq_none.1 h).symm

/-! Stamped trees. -/

/-- The trees without the values of attributes: tags, names of attributes, listeners, texts and comments
are as they were. -/
def withoutValues (ts : List (Html α)) : List (Html α) := revalueAll (fun _ => "") ts

theorem revalued_revalued {g : String × String → String} (a : String × String) :
    revalued (fun _ => "") (revalued g a) = revalued (fun _ => "") a := rfl

private theorem setAttribute_bound (name : String) (attributes : List (String × String)) :
    Html.setAttribute name "" (attributes.map (revalued (bound handlers))) =
      (Html.setAttribute name "" attributes).map (revalued (bound handlers)) := by
  have hempty : revalued (bound handlers) (name, "") = (name, "") := by
    rw [revalued, bound]
    split <;> rfl
  induction attributes with
  | nil => rw [List.map_nil, Html.setAttribute, List.map_singleton, hempty]
  | cons a as ih =>
    obtain ⟨n, v⟩ := a
    rw [List.map_cons, Html.setAttribute]
    by_cases hn : n = name
    · subst hn
      have hkey : (revalued (bound handlers) (n, v)).1 = n := rfl
      rw [if_pos hkey, Html.setAttribute, if_pos rfl, List.map_cons, hempty, hkey]
    · have hkey : ¬ (revalued (bound handlers) (n, v)).1 = name := hn
      rw [if_neg hkey, Html.setAttribute, if_neg hn, List.map_cons, ih]

private theorem filter_bound (attributes : List (String × String)) :
    ((attributes.map (revalued (bound handlers))).filter fun a => (binding? handlers a).isNone).map
        (revalued fun _ => "") =
      (attributes.filter fun a => (binding? handlers a).isNone).map (revalued fun _ => "") := by
  rw [List.filter_map, List.map_map]
  simp only [Function.comp_def, binding?_bound, revalued_revalued]

private theorem filterMap_bound (attributes : List (String × String)) :
    (attributes.map (revalued (bound handlers))).filterMap (binding? handlers) =
      attributes.filterMap (binding? handlers) := by
  rw [List.filterMap_map]
  simp only [Function.comp_def, binding?_bound]

mutual

theorem stamp_bound (t : Html α) :
    revalue (fun _ => "") (stamp attr handlers (t.revalue (bound handlers))) =
      revalue (fun _ => "") (stamp attr handlers t) := by
  match t with
  | .text s => rfl
  | .comment s => rfl
  | .element tag attributes listeners children =>
    have hchildren := stampAll_bound children
    rw [revalue, stamp.eq_def, stamp.eq_def]
    dsimp only
    cases attr with
    | none =>
      dsimp only
      rw [revalue, revalue, filter_bound, filterMap_bound, hchildren]
    | some name =>
      dsimp only
      rw [revalue, revalue, setAttribute_bound, filter_bound, filterMap_bound, hchildren]

/-- Stamping looks at the values that stand for listeners only. -/
private theorem stampAll_bound (ts : List (Html α)) :
    revalueAll (fun _ => "") (stampAll attr handlers (revalueAll (bound handlers) ts)) =
      revalueAll (fun _ => "") (stampAll attr handlers ts) := by
  match ts with
  | [] => rfl
  | t :: ts =>
    rw [revalueAll, stampAll, stampAll, revalueAll, revalueAll, stamp_bound t, stampAll_bound ts]

end

private theorem withoutValues_stampAll {ts us : List (Html α)}
    (h : revalueAll (bound handlers) ts = revalueAll (bound handlers) us) :
    withoutValues (stampAll attr handlers ts) = withoutValues (stampAll attr handlers us) := by
  rw [withoutValues, withoutValues, ← stampAll_bound ts, h, stampAll_bound us]

mutual

theorem mem_handlers_stamp {t : Html α} {b : String × α} (h : b ∈ (stamp attr handlers t).handlers) :
    b.2 ∈ handlers ∨ b ∈ t.handlers := by
  match t with
  | .text s => exact absurd h List.not_mem_nil
  | .comment s => exact absurd h List.not_mem_nil
  | .element tag attributes listeners children =>
    rw [stamp.eq_def] at h
    dsimp only at h
    rw [Html.handlers, List.mem_append, List.mem_append] at h
    rw [Html.handlers, List.mem_append]
    rcases h with (h | h) | h
    · exact .inr (.inl h)
    · obtain ⟨a, -, ha⟩ := List.mem_filterMap.1 h
      exact .inl (mem_of_binding? ha)
    · exact (mem_handlersOf_stampAll h).imp_right .inr

/-- Stamping adds listeners for the handlers only. -/
theorem mem_handlersOf_stampAll {ts : List (Html α)} {b : String × α}
    (h : b ∈ Html.handlersOf (stampAll attr handlers ts)) :
    b.2 ∈ handlers ∨ b ∈ Html.handlersOf ts := by
  match ts with
  | [] => exact absurd h List.not_mem_nil
  | t :: ts =>
    rw [stampAll, Html.handlersOf, List.mem_append] at h
    rw [Html.handlersOf, List.mem_append]
    rcases h with h | h
    · exact (mem_handlers_stamp h).imp_right .inl
    · exact (mem_handlersOf_stampAll h).imp_right .inr

end

/-- A placeholder stands for the value of a tag that is a function, with the name of an event in front of
it. -/
theorem mem_functions_fillSlots {escaped : Bool} {n : Nat} {slots : List (String × Value)} {f : Value}
    (h : f ∈ (fillSlots escaped n slots).2) :
    ∃ before, (before, f) ∈ slots ∧ f.isFunction = true ∧ isEventSlot before.toList = true := by
  induction slots generalizing n with
  | nil => exact absurd h List.not_mem_nil
  | cons slot slots ih =>
    obtain ⟨before, v⟩ := slot
    rw [fillSlots] at h
    split at h
    · next hslot =>
      rcases List.mem_cons.1 h with rfl | h
      · exact ⟨before, List.mem_cons_self, Bool.and_eq_true_iff.1 hslot⟩
      · obtain ⟨before', hmem, hf⟩ := ih h
        exact ⟨before', List.mem_cons_of_mem _ hmem, hf⟩
    · obtain ⟨before', hmem, hf⟩ := ih h
      exact ⟨before', List.mem_cons_of_mem _ hmem, hf⟩

/-! Two outputs. -/

def isPlain (c : Char) : Bool := Text.entity c == [c]

/-- There is no quote in the string, nor any other sign that markup gives a meaning. -/
def Plain (s : String) : Prop := ∀ c ∈ s.toList, isPlain c = true

instance (s : String) : Decidable (Plain s) :=
  decidable_of_iff (s.toList.all isPlain = true) List.all_eq_true

/-- The values are the same, or both are strings without signs that markup gives a meaning. -/
def Akin (v w : Value) : Prop := v = w ∨ ∃ a b, v = .string a ∧ w = .string b ∧ Plain a ∧ Plain b

def written (escaped : Bool) (v : Value) : List Char :=
  if escaped then Text.escape v.markup.toList else v.markup.toList

/-- What is written for a value in two outputs, with a slot if these are different strings. -/
def mergeValue (escaped : Bool) : Value → Value → Slotted (String × String)
  | .string a, .string b => if a = b then literal (written escaped (.string a)) else [.inr (a, b)]
  | v, _ => literal (written escaped v)

/-- The markup of two outputs with placeholders for listeners, which are numbered from `n` on, and with a
slot wherever the outputs have different strings. -/
def mergeSlots (escaped : Bool) (n : Nat) :
    List (String × Value) → List (String × Value) → Slotted (String × String)
  | (before, v) :: rest, (_, w) :: rest' =>
    literal before.toList ++
      if v.isFunction && isEventSlot before.toList then
        literal (mark n).toList ++ mergeSlots escaped (n + 1) rest rest'
      else mergeValue escaped v w ++ mergeSlots escaped n rest rest'
  | _, _ => []

/-- The markup of two outputs, with a slot wherever they have different strings. -/
def merge (escaped : Bool) (r r' : Rendered) : Slotted (String × String) :=
  mergeSlots escaped 0 r.slots r'.slots ++ literal r.last.toList

def left (p : String × String) : List Char := p.1.toList.filter isPlain

/-- The second string of a pair without signs that markup gives a meaning. -/
def right (p : String × String) : List Char := p.2.toList.filter isPlain

private theorem tame_filter (f : String × String → String) :
    Html.Tame fun p => (f p).toList.filter isPlain := by
  intro p c hc
  have hplain := (List.mem_filter.1 hc).2
  refine ⟨?_, ?_, ?_, ?_⟩ <;> (rintro rfl; exact absurd hplain (by decide))

private theorem Plain.filter_eq {s : String} (h : Plain s) : s.toList.filter isPlain = s.toList :=
  List.filter_eq_self.2 h

private theorem Plain.written_eq {s : String} (h : Plain s) (escaped : Bool) :
    written escaped (.string s) = s.toList.filter isPlain := by
  have hescape : Text.escape s.toList = s.toList := by
    have hmap : s.toList.map Text.entity = s.toList.map fun c => [c] :=
      List.map_congr_left fun c hc => beq_iff_eq.1 (h c hc)
    rw [Text.escape, List.flatMap, hmap, ← List.flatMap, List.flatMap_singleton']
  rw [h.filter_eq, written]
  split
  · exact hescape
  · rfl

private theorem fill_mergeValue {v w : Value} (h : Akin v w) (escaped : Bool) :
    (mergeValue escaped v w).fill left = written escaped v ∧
      (mergeValue escaped v w).fill right = written escaped w := by
  obtain rfl | ⟨a, b, rfl, rfl, ha, hb⟩ := h
  · unfold mergeValue
    split
    · next heq =>
      cases heq
      rw [if_pos rfl, Html.fill_literal]
      exact ⟨rfl, Html.fill_literal⟩
    · exact ⟨Html.fill_literal, Html.fill_literal⟩
  · rw [mergeValue]
    split
    · next heq => exact ⟨Html.fill_literal, heq ▸ Html.fill_literal⟩
    · rw [Html.fill_inr, Html.fill_inr, Html.fill_nil, Html.fill_nil, List.append_nil, List.append_nil,
        ha.written_eq, hb.written_eq]
      exact ⟨rfl, rfl⟩

private theorem Akin.isFunction_eq {v w : Value} (h : Akin v w) : w.isFunction = v.isFunction := by
  obtain rfl | ⟨a, b, rfl, rfl, -, -⟩ := h <;> rfl

private theorem Akin.eq_of_isFunction {v w : Value} (h : Akin v w) (hv : v.isFunction = true) :
    w = v := by
  obtain rfl | ⟨a, b, rfl, rfl, -, -⟩ := h
  · rfl
  · cases hv

/-- Each of the two outputs has the common markup, with its own strings in the slots, and the same
functions. -/
private theorem fillSlots_merge {l l' : List (String × Value)}
    (h : List.Forall₂ (fun a b => a.1 = b.1 ∧ Akin a.2 b.2) l l') (escaped : Bool) (n : Nat) :
    (fillSlots escaped n l).1.toList = (mergeSlots escaped n l l').fill left ∧
      (fillSlots escaped n l').1.toList = (mergeSlots escaped n l l').fill right ∧
      (fillSlots escaped n l').2 = (fillSlots escaped n l).2 := by
  have htext (v : Value) : (if escaped then String.ofList (Text.escape v.markup.toList)
      else v.markup).toList = written escaped v := by
    rw [written]
    split
    · exact String.toList_ofList
    · rfl
  induction h generalizing n with
  | nil => exact ⟨rfl, rfl, rfl⟩
  | @cons a b l l' hab _ ih =>
    obtain ⟨before, v⟩ := a
    obtain ⟨before', w⟩ := b
    obtain ⟨hbefore, hakin⟩ := hab
    obtain rfl : before = before' := hbefore
    have hakin : Akin v w := hakin
    rw [fillSlots, fillSlots, mergeSlots, hakin.isFunction_eq]
    split
    · next hslot =>
      obtain ⟨hleft, hright, hfunctions⟩ := ih (n + 1)
      have hw : w = v := hakin.eq_of_isFunction (Bool.and_eq_true_iff.1 hslot).1
      simp only [Html.fill_append, Html.fill_literal, String.toList_append, hleft, hright, hfunctions,
        hw, mark, List.append_assoc, and_self]
    · obtain ⟨hleft, hright, hfunctions⟩ := ih n
      obtain ⟨hv, hw⟩ := fill_mergeValue hakin escaped
      simp only [Html.fill_append, Html.fill_literal, String.toList_append, hleft, hright, hfunctions,
        hv, hw, htext, List.append_assoc, and_self]

private theorem fill_merge {r r' : Rendered} (h : r.Along Akin r') (escaped : Bool) :
    fill escaped r = (String.ofList ((merge escaped r r').fill left), (fill escaped r).2) ∧
      fill escaped r' = (String.ofList ((merge escaped r r').fill right), (fill escaped r).2) := by
  obtain ⟨hleft, hright, hfunctions⟩ := fillSlots_merge h.slots escaped 0
  rw [fill, fill, merge, Html.fill_append, Html.fill_append, Html.fill_literal, Html.fill_literal,
    ← hleft, ← hright, hfunctions, ← h.last, String.ofList_append, String.ofList_append,
    String.ofList_toList, String.ofList_toList, String.ofList_toList]
  exact ⟨rfl, rfl⟩

/-- The strings that differ are without signs that markup gives a meaning. -/
private theorem plain_of_mem_mergeSlots {escaped : Bool} {n : Nat} {l l' : List (String × Value)}
    (h : List.Forall₂ (fun a b => a.1 = b.1 ∧ Akin a.2 b.2) l l') {p : String × String}
    (hp : .inr p ∈ mergeSlots escaped n l l') : Plain p.1 ∧ Plain p.2 := by
  have hliteral {cs : List Char} : .inr p ∉ (literal cs : Slotted (String × String)) := by
    simp [literal]
  induction h generalizing n with
  | nil => exact absurd hp List.not_mem_nil
  | @cons a b l l' hab _ ih =>
    obtain ⟨before, v⟩ := a
    obtain ⟨before', w⟩ := b
    rw [mergeSlots, List.mem_append] at hp
    replace hp := hp.resolve_left hliteral
    split at hp
    · rw [List.mem_append] at hp
      exact ih (hp.resolve_left hliteral)
    · rcases List.mem_append.1 hp with hp | hp
      · obtain rfl | ⟨c, d, rfl, rfl, hc, hd⟩ := (hab.2 : Akin v w)
        · unfold mergeValue at hp
          split at hp
          · next heq =>
            cases heq
            rw [if_pos rfl] at hp
            exact absurd hp hliteral
          · exact absurd hp hliteral
        · rw [mergeValue] at hp
          split at hp
          · exact absurd hp hliteral
          · obtain rfl := Sum.inr.inj (List.mem_singleton.1 hp)
            exact ⟨hc, hd⟩
      · exact ih hp

private theorem plain_of_mem_merge {escaped : Bool} {r r' : Rendered} (h : r.Along Akin r')
    {p : String × String} (hp : .inr p ∈ merge escaped r r') : Plain p.1 ∧ Plain p.2 := by
  rcases List.mem_append.1 hp with hp | hp
  · exact plain_of_mem_mergeSlots h.slots hp
  · simp [literal] at hp

/-- Wherever the two outputs have different strings, these are whole values of attributes between double
quotes, and neither stands for one of the functions. -/
structure WholeValues (escaped : Bool) (r r' : Rendered) : Prop where
  zones : ∀ s ∈ Html.slotZones (merge escaped r r'), s.2 = .value
  quoted : (merge escaped r r').quoted = true
  unreferring : ∀ p ∈ (merge escaped r r').filterMap Sum.getRight?,
    ¬ Refers (fill escaped r).2.length p.1 ∧ ¬ Refers (fill escaped r).2.length p.2

instance (escaped : Bool) (r r' : Rendered) : Decidable (WholeValues escaped r r') :=
  decidable_of_iff
    ((∀ s ∈ Html.slotZones (merge escaped r r'), s.2 = .value) ∧ (merge escaped r r').quoted = true ∧
      ∀ p ∈ (merge escaped r r').filterMap Sum.getRight?,
        ¬ Refers (fill escaped r).2.length p.1 ∧ ¬ Refers (fill escaped r).2.length p.2)
    ⟨fun h => ⟨h.1, h.2.1, h.2.2⟩, fun h => ⟨h.zones, h.quoted, h.unreferring⟩⟩

end Slot

namespace Session

open Slot (Akin WholeValues withoutValues)

variable {s t : Session} {i : InstanceId} {inst inst' : Instance} {r r' : Rendered}

/-- Outputs that differ in whole values only make the same trees but for the values of attributes, or
their markup cannot be read for the same reason. -/
theorem treesFrom_along (hd : inst'.definition = inst.definition)
    (he : inst'.escaped = inst.escaped) (h : r.Along Akin r') (hw : WholeValues inst.escaped r r') :
    (treesFrom i inst r).map withoutValues = (treesFrom i inst' r').map withoutValues := by
  obtain ⟨hleft, hright⟩ := Slot.fill_merge h inst.escaped
  let handlers : List Handler := (Slot.fill inst.escaped r).2.map fun f => ⟨f, i⟩
  have hlength : handlers.length = (Slot.fill inst.escaped r).2.length := List.length_map _
  have hbound (name : String) (p : String × String) (hp : .inr p ∈ Slot.merge inst.escaped r r') :
      Slot.bound handlers (name, String.ofList (Slot.left p)) = "" ∧
        Slot.bound handlers (name, String.ofList (Slot.right p)) = "" := by
    obtain ⟨hplain, hplain'⟩ := Slot.plain_of_mem_merge h hp
    obtain ⟨hno, hno'⟩ := hw.unreferring p (List.mem_filterMap.2 ⟨.inr p, hp, rfl⟩)
    rw [← hlength] at hno hno'
    rw [Slot.left, Slot.right, hplain.filter_eq, hplain'.filter_eq, String.ofList_toList,
      String.ofList_toList]
    exact ⟨Slot.bound_of_not_refers hno, Slot.bound_of_not_refers hno'⟩
  have hparse := Html.parse_quoted (α := Handler) hw.zones hw.quoted
    (fun a ha => Slot.bound_of_not_refers (Slot.not_refers_of_quote ha))
    (fun name p hp => (hbound name p hp).1) (fun name p hp => (hbound name p hp).2)
    (Slot.tame_filter Prod.fst) (Slot.tame_filter Prod.snd)
  unfold treesFrom
  rw [hd, he, hleft, hright]
  dsimp only
  generalize Html.parse (String.ofList ((Slot.merge inst.escaped r r').fill Slot.left)) = x at *
  generalize Html.parse (String.ofList ((Slot.merge inst.escaped r r').fill Slot.right)) = y at *
  cases x with
  | error e =>
    cases y with
    | error e' =>
      cases hparse
      rfl
    | ok us => cases hparse
  | ok ts =>
    cases y with
    | error e => cases hparse
    | ok us => exact congrArg Except.ok (Slot.withoutValues_stampAll (Except.ok.inj hparse))

end Session

end LiveMarkup
