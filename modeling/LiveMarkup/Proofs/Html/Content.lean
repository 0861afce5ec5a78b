import LiveMarkup.Proofs.Html.Step
import Mathlib.Algebra.GroupWithZero.Nat

/-! What trees hold: the strings in them and the listeners. All strings of trees that have been read are
parts of the markup, and no two of them are the same part, so that what can be counted in them is no more
than what can be counted in the markup. -/

namespace LiveMarkup.Html

variable {α : Type} {f : String → Nat} {g : List Char → Nat} {cs after a b : List Char} {value : String}
  {attributes : List (String × String)}

mutual

/-- The names of tags and attributes, the values of attributes, the texts and the comments in a node. -/
def strings : Html α → List String
  | .element tag attributes _ children =>
    tag :: (attributes.flatMap fun a => [a.1, a.2]) ++ stringsOf children
  | .text s => [s]
  | .comment s => [s]

def stringsOf : List (Html α) → List String
  | [] => []
  | t :: ts => t.strings ++ stringsOf ts

end

mutual

def handlers : Html α → List (String × α)
  | .element _ _ listeners children => listeners ++ handlersOf children
  | .text _ => []
  | .comment _ => []

def handlersOf : List (Html α) → List (String × α)
  | [] => []
  | t :: ts => t.handlers ++ handlersOf ts

end

/-! Sums over what trees hold. -/

def weight (f : String → Nat) (attributes : List (String × String)) : Nat :=
  (attributes.map fun a => f a.1 + f a.2).sum

def load (f : String → Nat) (ts : List (Html α)) : Nat :=
  ((stringsOf ts).map f).sum + (handlersOf ts).length

theorem weight_cons (a : String × String) (attributes : List (String × String)) :
    weight f (a :: attributes) = f a.1 + f a.2 + weight f attributes := by
  rw [weight, List.map_cons, List.sum_cons, weight]

private theorem sum_strings (attributes : List (String × String)) :
    ((attributes.flatMap fun a => [a.1, a.2]).map f).sum = weight f attributes := by
  induction attributes with
  | nil => rfl
  | cons a as ih =>
    rw [List.flatMap_cons, List.map_append, List.sum_append, ih, weight_cons]
    simp

/-- Setting an attribute adds what is set at most. -/
theorem weight_setAttribute_le (key value : String) (attributes : List (String × String)) :
    weight f (setAttribute key value attributes) ≤ weight f attributes + (f key + f value) := by
  induction attributes with
  | nil =>
    rw [setAttribute, weight_cons, Nat.add_comm]
  | cons a as ih =>
    obtain ⟨k, v⟩ := a
    rw [setAttribute]
    split
    · rw [weight_cons, weight_cons]
      dsimp only
      omega
    · rw [weight_cons, weight_cons]
      omega

variable {tag s : String} {listeners : List (String × α)} {ts us children : List (Html α)}

private theorem load_nil : load f ([] : List (Html α)) = 0 := by simp [load, stringsOf, handlersOf]

theorem load_cons (t : Html α) (ts : List (Html α)) : load f (t :: ts) = load f [t] + load f ts := by
  simp only [load, stringsOf, handlersOf, List.map_append, List.sum_append, List.length_append,
    List.append_nil]
  omega

private theorem load_text : load f [(.text s : Html α)] = f s := by
  simp [load, stringsOf, handlersOf, strings, handlers]

private theorem load_comment : load f [(.comment s : Html α)] = f s := by
  simp [load, stringsOf, handlersOf, strings, handlers]

theorem load_element : load f [.element tag attributes listeners children] =
    f tag + weight f attributes + listeners.length + load f children := by
  simp only [load, stringsOf, handlersOf, strings, handlers, List.append_nil, List.cons_append,
    List.map_cons, List.map_append, List.sum_cons, List.sum_append, sum_strings, List.length_append]
  omega

private theorem load_append : load f (ts ++ us) = load f ts + load f us := by
  induction ts with
  | nil => rw [load_nil, Nat.zero_add, List.nil_append]
  | cons t ts ih =>
    rw [List.cons_append, load_cons, ih, load_cons t ts]
    omega

private theorem load_reverse : load f ts.reverse = load f ts := by
  induction ts with
  | nil => rfl
  | cons t ts ih =>
    rw [List.reverse_cons, load_append, ih, load_cons t ts]
    omega

/-! Trees under construction. -/

def Item.load (f : String → Nat) : Item → Nat
  | .text s => f s
  | .comment s => f s
  | .declaration => 0
  | .opening tag attributes => f tag + weight f attributes
  | .whole tag attributes content => f tag + weight f attributes + f (String.ofList content)
  | .closing _ => 0

namespace Builder

def openLoad (f : String → Nat) (e : OpenElement α) : Nat :=
  f e.tag + weight f e.attributes + Html.load f e.before

def load (f : String → Nat) (b : Builder α) : Nat :=
  Html.load f b.content + (b.opened.map (openLoad f)).sum

variable {content : List (Html α)} {e : OpenElement α} {es : List (OpenElement α)}

/-- Closing an element neither adds anything nor drops it. -/
private theorem load_closed :
    load f ⟨.element e.tag e.attributes [] content.reverse :: e.before, es⟩ =
      load f ⟨content, e :: es⟩ := by
  rw [load, load, load_cons, load_element, load_reverse, List.map_cons, List.sum_cons, openLoad,
    List.length_nil]
  dsimp only
  omega

private theorem load_close? {b : Builder α} (h : close? tag content es = some b) :
    load f b = load f ⟨content, es⟩ := by
  induction es generalizing content with
  | nil => cases h
  | cons e es ih =>
    rw [close?] at h
    split at h
    · cases h
      exact load_closed
    · exact (ih h).trans load_closed

private theorem load_add (b : Builder α) (i : Item) : load f (b.add i) ≤ load f b + i.load f := by
  cases i with
  | text s =>
    rw [add, load, load_cons, load_text, load, Item.load]
    dsimp only
    omega
  | comment s =>
    rw [add, load, load_cons, load_comment, load, Item.load]
    dsimp only
    omega
  | declaration => exact Nat.le_refl _
  | opening tag attributes =>
    rw [add, load, load_nil, List.map_cons, List.sum_cons, openLoad, load, Item.load]
    dsimp only
    omega
  | whole tag attributes raw =>
    rw [add, load, load_cons, load_element, load, Item.load, List.length_nil]
    dsimp only
    split
    · rw [load_nil]
      omega
    · rw [load_text]
      omega
  | closing tag =>
    rw [add]
    cases h : close? tag b.content b.opened with
    | none => exact Nat.le_add_right _ _
    | some b' => exact (load_close? h).le

private theorem load_finish : Html.load f (finish content es) = load f ⟨content, es⟩ := by
  induction es generalizing content with
  | nil =>
    rw [finish, load_reverse, load]
    rfl
  | cons e es ih => exact ih.trans load_closed

end Builder

/-- Trees hold no more than the items that they are made of, and listeners none. -/
private theorem load_ofItems (is : List Item) :
    load f (ofItems is : List (Html α)) ≤ (is.map (Item.load f)).sum := by
  have hfold (b : Builder α) : (is.foldl Builder.add b).load f ≤ b.load f + (is.map (Item.load f)).sum := by
    induction is generalizing b with
    | nil => exact Nat.le_refl _
    | cons i is ih =>
      have hi := b.load_add (f := f) i
      have his := ih (b.add i)
      rw [List.foldl_cons, List.map_cons, List.sum_cons]
      omega
  have hall := hfold ⟨[], []⟩
  have hempty : (⟨[], []⟩ : Builder α).load f = 0 := by rw [Builder.load, load_nil]; rfl
  rw [hempty, Nat.zero_add] at hall
  rw [ofItems, Builder.load_finish]
  exact hall

/-! Reading. -/

theorem cutText_append (cs : List Char) : (cutText cs).1 ++ (cutText cs).2 = cs := by
  induction cs with
  | nil => rfl
  | cons c cs ih =>
    rw [cutText]
    split
    · rfl
    · exact congrArg (c :: ·) ih

/-- What `f` counts in a string that is read is no more than what `g` counts in the part of the markup
that it has been read from, as it is or in lower case. -/
structure Counts (f : String → Nat) (g : List Char → Nat) : Prop where
  parts : ∀ a b, g a + g b ≤ g (a ++ b)
  plain : ∀ cs, f (String.ofList cs) ≤ g cs
  lower : ∀ cs, f (Text.lower (String.ofList cs)) ≤ g cs

namespace Counts

variable (h : Counts f g)

include h

private theorem nil : g [] = 0 := by
  have hparts := h.parts [] []
  rw [List.append_nil] at hparts
  omega

private theorem empty : f "" = 0 := Nat.le_zero.1 ((h.plain []).trans h.nil.le)

theorem suffix (hs : a <:+ b) : g a ≤ g b := by
  obtain ⟨before, rfl⟩ := hs
  exact (Nat.le_add_left ..).trans (h.parts before a)

private theorem cons (c : Char) (cs : List Char) :
    g cs ≤ g (c :: cs) := h.suffix (List.suffix_cons c cs)

private theorem trimStart (cs : List Char) :
    g (Text.trimStart cs) ≤ g cs := h.suffix (Text.trimStart_suffix cs)

private theorem name (cs : List Char) : f (lowerName cs) + g (afterName cs) ≤ g cs := by
  obtain ⟨name, hname, -, hlower⟩ := exists_name cs
  have hparts := h.parts name (afterName cs)
  rw [← hname] at hparts
  rw [hlower]
  have hle := h.lower name
  omega

private theorem readValue (hv : readValue cs = .ok (value, after)) : f value + g after ≤ g cs := by
  have htrim := h.trimStart cs
  obtain ⟨q, word, -, hcs, -, rfl⟩ | ⟨-, rfl, rfl⟩ := readValue_cases hv
  · have hword := h.plain word
    have hparts := h.parts word (q :: after)
    have hquote := h.cons q after
    rw [hcs] at htrim
    have hopen := h.cons q (word ++ q :: after)
    omega
  · generalize Text.trimStart cs = rest at htrim ⊢
    have hword := h.plain (rest.takeWhile fun c => !endsValue c)
    have hparts := h.parts (rest.takeWhile fun c => !endsValue c) (rest.dropWhile fun c => !endsValue c)
    rw [List.takeWhile_append_dropWhile] at hparts
    omega

private theorem readAssigned (hv : readAssigned cs = .ok (value, after)) :
    f value + g after ≤ g cs := by
  have htrim := h.trimStart cs
  obtain ⟨rest, hcs⟩ | hstops := cons_or_stops '=' (Text.trimStart cs)
  · rw [readAssigned_equal hcs] at hv
    rw [hcs] at htrim
    have hvalue := h.readValue hv
    have hequal := h.cons '=' rest
    omega
  · cases hv.symm.trans (readAssigned_none hstops)
    rw [h.empty, Nat.zero_add]
    exact htrim

private theorem readTagEnd {t : TagEnd} (ht : readTagEnd attributes cs = .ok (t, after)) :
    weight f t.attributes + g after ≤ weight f attributes + g cs := by
  fun_induction Html.readTagEnd attributes cs with
  | case1 => cases ht
  | case2 attributes cs rest hcs =>
    cases ht
    have htrim := h.trimStart cs
    have hsign := h.cons '>' after
    rw [hcs] at htrim
    dsimp only
    omega
  | case3 attributes cs rest hcs =>
    cases ht
    have htrim := h.trimStart cs
    have hsign := h.cons '>' after
    have hslash := h.cons '/' ('>' :: after)
    rw [hcs] at htrim
    dsimp only
    omega
  | case4 attributes cs rest _ hcs ih =>
    have htrim := h.trimStart cs
    have hslash := h.cons '/' rest
    rw [hcs] at htrim
    have hrest := ih ht
    omega
  | case5 attributes cs c rest _ _ _ hcs _ ih =>
    have htrim := h.trimStart cs
    have hsign := h.cons c rest
    rw [hcs] at htrim
    have hrest := ih ht
    omega
  | case6 => cases ht
  | case7 attributes cs c rest _ _ _ hcs _ name value after' hvalue ih =>
    have htrim := h.trimStart cs
    have hname : f name + g (afterName (c :: rest)) ≤ g (c :: rest) := h.name (c :: rest)
    have hassigned := h.readAssigned hvalue
    have hset : weight f (setAttribute name value attributes) ≤ weight f attributes + (f name + f value) :=
      weight_setAttribute_le name value attributes
    have hrest := ih ht
    rw [hcs] at htrim
    split at hrest <;> omega

private theorem readRawText (tag : String) (cs : List Char) :
    g (readRawText tag cs).1 + g (readRawText tag cs).2 ≤ g cs := by
  unfold Html.readRawText
  split
  · rw [h.nil]
    exact Nat.le_refl _
  · next content after hcut =>
    have hparts := h.parts content ("</".toList ++ tag.toList ++ after)
    have hcs : cs = content ++ ("</".toList ++ tag.toList ++ after) := by
      rw [Text.cut?_eq_some hcut, List.append_assoc content]
    rw [← hcs] at hparts
    split
    · next junk rest hend =>
      have hrest : rest <:+ after := ⟨junk ++ ['>'], (Text.cut?_eq_some hend).symm⟩
      have hsuffix := h.suffix (hrest.trans (List.suffix_append ("</".toList ++ tag.toList) after))
      dsimp only
      omega
    · exact hparts

private theorem readOpening {item : Item} (hr : readOpening cs = .ok (item, after)) :
    item.load f + g after ≤ g cs := by
  obtain ⟨t, rest, htag⟩ := exists_readTagEnd hr
  have hname := h.name cs
  have hattributes := h.readTagEnd htag
  have hnone : weight f [] = 0 := rfl
  cases hraw : holdsText (lowerName cs) t with
  | true =>
    cases hr.symm.trans (readOpening_raw htag hraw)
    have hcontent := h.readRawText (lowerName cs) rest
    have htext := h.plain (Html.readRawText (lowerName cs) rest).1
    rw [Item.load]
    omega
  | false =>
    cases hr.symm.trans (readOpening_plain htag hraw)
    have hempty : f (String.ofList []) = 0 := h.empty
    split <;> rw [Item.load] <;> omega

private theorem readItem {c : Char} {item : Item} (hr : readItem c cs = .ok (item, after)) :
    item.load f + g after ≤ g (c :: cs) := by
  cases readsItem_of_readItem hr with
  | @comment s _ hs =>
    have hparts := h.parts s ('-' :: '-' :: '>' :: after)
    have hbefore : s ++ '-' :: '-' :: '>' :: after <:+
        '<' :: '!' :: '-' :: '-' :: (s ++ '-' :: '-' :: '>' :: after) := ⟨['<', '!', '-', '-'], rfl⟩
    have hafter : after <:+ '-' :: '-' :: '>' :: after := ⟨['-', '-', '>'], rfl⟩
    have htext := h.plain s
    have hwhole := h.suffix hbefore
    have hrest := h.suffix hafter
    rw [Item.load]
    omega
  | @declaration junk =>
    have hafter : after <:+ '<' :: '!' :: (junk ++ '>' :: after) := ⟨'<' :: '!' :: (junk ++ ['>']), by simp⟩
    rw [Item.load, Nat.zero_add]
    exact h.suffix hafter
  | @closing name junk =>
    have hafter : after <:+ '<' :: '/' :: (name ++ (junk ++ '>' :: after)) :=
      ⟨'<' :: '/' :: (name ++ (junk ++ ['>'])), by simp⟩
    rw [Item.load, Nat.zero_add]
    exact h.suffix hafter
  | opening hletter hopening =>
    have hsign := h.cons '<' cs
    have hrest := h.readOpening hopening
    omega
  | text hsign =>
    have htext := h.plain (c :: (cutText cs).1)
    have hparts := h.parts (c :: (cutText cs).1) (cutText cs).2
    rw [List.cons_append, cutText_append] at hparts
    rw [Item.load]
    omega

private theorem items (cs : List Char) : ((items cs).1.map (Item.load f)).sum ≤ g cs := by
  fun_induction Html.items cs with
  | case1 => exact Nat.zero_le _
  | case2 => exact Nat.zero_le _
  | case3 c cs item rest hread r ih =>
    have hitem := h.readItem hread
    rw [List.map_cons, List.sum_cons]
    exact (Nat.add_le_add_left ih _).trans hitem

/-- Trees that are read hold no more than the markup that they have been read from. -/
theorem parse {markup : String} {trees : List (Html α)} (hp : parse markup = .ok trees) :
    load f trees ≤ g markup.toList := by
  have hitems := h.items markup.toList
  rw [Html.parse] at hp
  generalize Html.items markup.toList = r at *
  obtain ⟨is, e⟩ := r
  cases e with
  | none =>
    cases hp
    exact (load_ofItems is).trans hitems
  | some e => cases hp

end Counts

/-- There are no listeners in markup. -/
theorem handlersOf_parse {markup : String} {trees : List (Html α)} (hp : parse markup = .ok trees) :
    handlersOf trees = [] := by
  have hnothing : Counts (fun _ => 0) fun _ => 0 :=
    ⟨fun _ _ => Nat.le_refl 0, fun _ => Nat.le_refl 0, fun _ => Nat.le_refl 0⟩
  have hload := hnothing.parse hp
  rw [load] at hload
  exact List.eq_nil_of_length_eq_zero (by omega)

end LiveMarkup.Html
