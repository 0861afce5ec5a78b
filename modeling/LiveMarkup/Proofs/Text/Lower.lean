import LiveMarkup.Proofs.Text.Class
import LiveMarkup.Text.Case
import Mathlib.Data.List.Infix

/-! Words in texts whose letters may be of either case: in how many places of a text a word begins once
the text is in lower case, that neither cutting the text nor lowering a part of it makes them more, and that
the case of letters of ASCII does not show in the text in lower case. -/

namespace LiveMarkup.Text

variable {word cs a b before before' : List Char} {c d : Char}

private theorem toLower_of_not_isUpper (h : c.isUpper = false) : c.toLower = c :=
  dif_neg (of_decide_eq_false h)

def IsLowered (cs : List Char) : Prop := ∀ c ∈ cs, c.toNat < 0x80 ∧ c.isUpper = false

private theorem lowerAfter_cons_of_ne (h : c ≠ 'Σ') :
    lowerAfter before (c :: cs) = lowerChar c ++ lowerAfter (c :: before) cs := by
  rw [lowerAfter, if_neg h]

private theorem toNat_ofNat {n : Nat} (h : n.isValidChar) : (Char.ofNat n).toNat = n := by
  rw [Char.ofNat, dif_pos h]
  rfl

/-- The lower case of characters beyond ASCII is beyond ASCII, with one exception. -/
private theorem lowerRuns_beyond : ∀ r ∈ lowerRuns, 0x80 ≤ (r.first : Int) + r.shift ∨
    r.last = r.first ∧ (r.first : Int) + r.shift = 'k'.toNat := by
  decide +kernel

/-- The lower case of characters is a character. -/
private theorem lowerRuns_valid : ∀ r ∈ lowerRuns, (r.last : Int) + r.shift < 0xD800 ∨
    0xE000 ≤ (r.first : Int) + r.shift ∧ (r.last : Int) + r.shift < 0x110000 := by
  decide +kernel

/-- With that exception and one that keeps a part beyond ASCII, letters of ASCII are the lower case of none
but letters of ASCII. -/
private theorem lowerChar_beyond (hc : ¬ c.toNat < 0x80) (hd : d ∈ lowerChar c) :
    ¬ d.toNat < 0x80 ∨ d = 'k' ∨ d = 'i' ∧ '\u0307' ∈ lowerChar c := by
  rw [lowerChar, if_neg hc, mapCase] at hd ⊢
  split at hd
  · next e he =>
    have hall : ∀ e ∈ lowerExpansions, ((e.2.map Char.ofNat).all fun d =>
        decide (¬ d.toNat < 0x80 ∨ d = 'k' ∨ d = 'i' ∧ '\u0307' ∈ e.2.map Char.ofNat)) = true := by decide
    exact of_decide_eq_true (List.all_eq_true.1 (hall e (List.mem_of_find?_eq_some he)) d hd)
  · rw [List.mem_singleton, mapRun] at hd
    cases hr : lowerRuns.find? fun r => decide (r.first ≤ c.toNat) && decide (c.toNat ≤ r.last) &&
        (c.toNat - r.first) % r.step == 0 with
    | none =>
      rw [hr] at hd
      obtain rfl : d = c := hd
      exact .inl hc
    | some r =>
      rw [hr] at hd
      have hcovers := List.find?_some hr
      simp only [Bool.and_eq_true, decide_eq_true_eq] at hcovers
      have hchar : d = Char.ofNat ((c.toNat : Int) + r.shift).toNat := hd
      have hrun := lowerRuns_beyond r (List.mem_of_find?_eq_some hr)
      have hvalid : Nat.isValidChar ((c.toNat : Int) + r.shift).toNat := by
        have hends := lowerRuns_valid r (List.mem_of_find?_eq_some hr)
        unfold Nat.isValidChar
        omega
      have hmapped : d.toNat = ((c.toNat : Int) + r.shift).toNat := by
        rw [hchar, toNat_ofNat hvalid]
      obtain hbeyond | ⟨hlast, hk⟩ := hrun
      · exact .inl (by omega)
      · have hnat : d.toNat = 'k'.toNat := by omega
        exact .inr (.inl (Char.toNat_inj.1 hnat))

private theorem lowerChar_ne_nil (c : Char) : lowerChar c ≠ [] := by
  unfold lowerChar mapCase
  split
  · exact List.cons_ne_nil _ _
  · split
    · next e he =>
      have hall : ∀ e ∈ lowerExpansions, e.2.map Char.ofNat ≠ [] := by decide
      exact hall e (List.mem_of_find?_eq_some he)
    · exact List.cons_ne_nil _ _

/-- Only letters of ASCII become a `v`. -/
theorem toNat_of_v_mem_lowerChar (h : 'v' ∈ lowerChar c) : c.toNat < 0x80 := by
  by_contra hc
  obtain hv | hv | ⟨hv, -⟩ := lowerChar_beyond hc h <;> exact absurd hv (by decide)

/-- A capital sigma becomes one of two letters. -/
private theorem lowerAfter_sigma (before cs : List Char) :
    ∃ d, (d = 'ς' ∨ d = 'σ') ∧ lowerAfter before ('Σ' :: cs) = d :: lowerAfter ('Σ' :: before) cs := by
  rw [lowerAfter, if_pos rfl]
  split
  · exact ⟨'ς', .inl rfl, rfl⟩
  · exact ⟨'σ', .inr rfl, rfl⟩

private theorem lowerAfter_of_isLowered (h : IsLowered cs) : lowerAfter before cs = cs := by
  induction cs generalizing before with
  | nil => rfl
  | cons c cs ih =>
    obtain ⟨⟨hc, hupper⟩, hcs⟩ := List.forall_mem_cons.1 h
    have hne : c ≠ 'Σ' := by
      rintro rfl
      exact absurd hc (by decide)
    rw [lowerAfter_cons_of_ne hne, lowerChar, if_pos hc, ih hcs, toLower_of_not_isUpper hupper,
      List.singleton_append]

theorem toNat_of_toLower (h : c.toLower.toNat < 0x80) : c.toNat < 0x80 := by
  by_contra hc
  rw [toLower_of_not_isUpper (not_isUpper_of_toNat (.inr (by omega)))] at h
  exact hc h

/-- Only a text of letters and signs of ASCII has a lower case of these, without a `k`. -/
theorem lowerAfter_eq_iff (hword : ∀ d ∈ word, d.toNat < 0x80 ∧ d ≠ 'k') :
    lowerAfter before cs = word ↔ cs.map Char.toLower = word := by
  induction cs generalizing before word with
  | nil => rfl
  | cons c cs ih =>
    by_cases hascii : c.toNat < 0x80
    · have hne : c ≠ 'Σ' := by
        rintro rfl
        exact absurd hascii (by decide)
      rw [lowerAfter_cons_of_ne hne, lowerChar, if_pos hascii, List.singleton_append, List.map_cons]
      cases word with
      | nil => exact iff_of_false (List.cons_ne_nil _ _) (List.cons_ne_nil _ _)
      | cons d word =>
        rw [List.cons_eq_cons, List.cons_eq_cons]
        exact and_congr_right' (ih (List.forall_mem_cons.1 hword).2)
    · refine iff_of_false (fun h => ?_) fun h => ?_
      · by_cases hne : c = 'Σ'
        · subst hne
          obtain ⟨d, hd, hlower⟩ := lowerAfter_sigma before cs
          have hmem : d ∈ word := h ▸ hlower ▸ List.mem_cons_self
          rcases hd with rfl | rfl <;> exact absurd (hword _ hmem).1 (by decide)
        · rw [lowerAfter_cons_of_ne hne] at h
          have hall (d : Char) (hd : d ∈ lowerChar c) : d.toNat < 0x80 ∧ d ≠ 'k' :=
            hword d (h ▸ List.mem_append_left _ hd)
          obtain ⟨d, hd⟩ := List.exists_mem_of_ne_nil _ (lowerChar_ne_nil c)
          obtain hbeyond | hk | ⟨-, hi⟩ := lowerChar_beyond hascii hd
          · exact hbeyond (hall d hd).1
          · exact (hall d hd).2 hk
          · exact absurd (hall _ hi).1 (by decide)
      · have hmem : c.toLower ∈ word := h ▸ List.mem_cons_self
        exact hascii (toNat_of_toLower (hword _ hmem).1)

/-- Lower case leaves a text in lower case letters of ASCII and other signs of it as it is. -/
theorem lower_of_isLowered {s : String} (h : IsLowered s.toList) : lower s = s := by
  rw [lower, lowerAfter_of_isLowered h, String.ofList_toList]

/-- What a text begins with in lower case depends neither on what comes before the text nor on what
follows it, sigmas apart. -/
private theorem isPrefix_lowerAfter (hword : IsLowered word) (hcs : a <+: cs)
    (h : word <+: lowerAfter before a) : word <+: lowerAfter before' cs := by
  obtain ⟨b, rfl⟩ := hcs
  induction a generalizing word before before' with
  | nil =>
    rw [lowerAfter, List.prefix_nil] at h
    rw [h]
    exact List.nil_prefix
  | cons c a ih =>
    by_cases hc : c = 'Σ'
    · subst hc
      obtain ⟨d, hd, hlower⟩ := lowerAfter_sigma before a
      rw [hlower] at h
      cases word with
      | nil => exact List.nil_prefix
      | cons e word =>
        obtain rfl := (List.cons_prefix_cons.1 h).1
        have hascii := (hword e List.mem_cons_self).1
        rcases hd with rfl | rfl <;> exact absurd hascii (by decide)
    · rw [lowerAfter_cons_of_ne hc] at h
      rw [List.cons_append, lowerAfter_cons_of_ne hc]
      obtain ⟨rest, hrest⟩ := h
      obtain ⟨more, hmore, -⟩ | ⟨more, rfl, ha⟩ := List.append_eq_append_iff.1 hrest
      · exact (List.prefix_append word more).trans (hmore ▸ List.prefix_append ..)
      · have hmore : IsLowered more := fun e he => hword e (List.mem_append_right _ he)
        exact (List.prefix_append_right_inj _).2 (ih hmore ⟨rest, ha.symm⟩)

/-! Letters of ASCII in either case. -/

/-- Lower case of letters of ASCII leaves the characters beyond it as they are. -/
private theorem toLower_of_beyond (h : ¬ c.toNat < 0x80) : c.toLower = c :=
  toLower_of_not_isUpper (not_isUpper_of_toNat (.inr (by omega)))

/-- What is so of each character of ASCII and of those that are no letters in upper case. -/
theorem toLower_congr {α : Type} (f : Char → α) [DecidableEq α]
    (h : ∀ n < 0x80, f (Char.ofNat n).toLower = f (Char.ofNat n)) (c : Char) : f c.toLower = f c := by
  by_cases hc : c.toNat < 0x80
  · have hf := h c.toNat hc
    rwa [Char.ofNat_toNat] at hf
  · rw [toLower_of_beyond hc]

/-- Ranges that begin beyond ASCII do not matter to its characters. -/
private theorem inRanges_ascii (ranges : List (Nat × Nat)) {n : Nat} (h : n < 0x80) :
    inRanges (ranges.filter fun r => r.1 < 0x80) n = inRanges ranges n := by
  rw [Bool.eq_iff_iff, inRanges_iff, inRanges_iff]
  simp only [List.mem_filter, decide_eq_true_eq]
  constructor
  · rintro ⟨r, ⟨hr, -⟩, hends⟩
    exact ⟨r, hr, hends⟩
  · rintro ⟨r, hr, hends⟩
    exact ⟨r, ⟨hr, Nat.lt_of_le_of_lt hends.1 h⟩, hends⟩

private theorem inRanges_toLower {ranges : List (Nat × Nat)} (ascii : List (Nat × Nat))
    (hascii : ranges.filter (fun r => r.1 < 0x80) = ascii)
    (h : ∀ n < 0x80, inRanges ascii (Char.ofNat n).toLower.toNat = inRanges ascii (Char.ofNat n).toNat) (c : Char) :
    inRanges ranges c.toLower.toNat = inRanges ranges c.toNat := by
  by_cases hc : c.toNat < 0x80
  · have hlower : c.toLower.toNat < 0x80 :=
      of_decide_eq_true ((toLower_congr (fun c => decide (c.toNat < 0x80)) (by decide) c).trans
        (decide_eq_true hc))
    rw [← inRanges_ascii ranges hc, ← inRanges_ascii ranges hlower, hascii]
    exact toLower_congr (fun c => inRanges ascii c.toNat) h c
  · rw [toLower_of_beyond hc]

private theorem isCaseIgnorable_toLower (c : Char) :
    inRanges caseIgnorableRanges c.toLower.toNat = inRanges caseIgnorableRanges c.toNat :=
  inRanges_toLower [(0x27, 0x27), (0x2E, 0x2E), (0x3A, 0x3A), (0x5E, 0x5E), (0x60, 0x60)]
    (by decide +kernel) (by decide) c

private theorem isCased_toLower (c : Char) :
    inRanges casedRanges c.toLower.toNat = inRanges casedRanges c.toNat :=
  inRanges_toLower [(0x41, 0x5A), (0x61, 0x7A)] (by decide +kernel) (by decide) c

private theorem beginsCased_map_toLower (cs : List Char) :
    beginsCased (cs.map Char.toLower) = beginsCased cs := by
  have hdrop : (cs.map Char.toLower).dropWhile (fun c => inRanges caseIgnorableRanges c.toNat) =
      (cs.dropWhile fun c => inRanges caseIgnorableRanges c.toNat).map Char.toLower := by
    rw [List.dropWhile_map]
    congr 2
    exact funext isCaseIgnorable_toLower
  rw [beginsCased, beginsCased, hdrop]
  cases cs.dropWhile fun c => inRanges caseIgnorableRanges c.toNat with
  | nil => rfl
  | cons c cs => exact isCased_toLower c

private theorem lowerChar_toLower (c : Char) :
    lowerChar c.toLower = lowerChar c := toLower_congr lowerChar (by decide) c

/-- Lower case does not depend on the case of letters of ASCII. -/
private theorem lowerAfter_map_toLower (before cs : List Char) :
    lowerAfter (before.map Char.toLower) (cs.map Char.toLower) = lowerAfter before cs := by
  induction cs generalizing before with
  | nil => rfl
  | cons c cs ih =>
    have hsigma : c.toLower = 'Σ' ↔ c = 'Σ' :=
      decide_eq_decide.1 (toLower_congr (fun c => decide (c = 'Σ')) (by decide) c)
    rw [List.map_cons, lowerAfter, lowerAfter, ← List.map_cons, ih, beginsCased_map_toLower, beginsCased_map_toLower,
      lowerChar_toLower]
    simp only [hsigma]

/-- Texts that differ in nothing but the case of letters of ASCII have the same lower case. -/
theorem lower_congr (h : a.map Char.toLower = b.map Char.toLower) :
    lower (String.ofList a) = lower (String.ofList b) := by
  have ha := lowerAfter_map_toLower [] a
  rw [h, lowerAfter_map_toLower] at ha
  rw [lower, lower, String.toList_ofList, String.toList_ofList, ← ha]

/-! Places. -/

def occurrences (word : List Char) : List Char → Nat
  | [] => 0
  | c :: cs => (if word <+: c :: cs then 1 else 0) + occurrences word cs

/-- In how many places of a text a word begins if the text is written in lower case. -/
def mentions (word : List Char) : List Char → Nat
  | [] => 0
  | c :: cs => (if word <+: lowerAfter [] (c :: cs) then 1 else 0) + mentions word cs

private theorem ite_le_ite {p q : Prop} [Decidable p] [Decidable q] (h : p → q) :
    (if p then 1 else 0) ≤ if q then 1 else 0 := by
  split
  · next hp => rw [if_pos (h hp)]
  · exact Nat.zero_le _

/-- The parts of a text have no more places than the text. -/
theorem mentions_append_le (hword : IsLowered word) (a b : List Char) :
    mentions word a + mentions word b ≤ mentions word (a ++ b) := by
  induction a with
  | nil => rw [mentions, Nat.zero_add, List.nil_append]
  | cons c a ih =>
    rw [List.cons_append, mentions, mentions, Nat.add_assoc]
    exact Nat.add_le_add (ite_le_ite (isPrefix_lowerAfter hword (List.prefix_append ..))) ih

/-- A word in lower case is one in either case. -/
theorem occurrences_le_mentions (hword : IsLowered word) (cs : List Char) :
    occurrences word cs ≤ mentions word cs := by
  induction cs with
  | nil => exact Nat.le_refl 0
  | cons c cs ih =>
    rw [occurrences, mentions]
    refine Nat.add_le_add (ite_le_ite ?_) ih
    rintro ⟨rest, hrest⟩
    have hlower : word <+: lowerAfter [] word := by rw [lowerAfter_of_isLowered hword]
    exact isPrefix_lowerAfter hword ⟨rest, hrest⟩ hlower

/-- A text contains a word exactly if there is a place where it begins. -/
theorem occurrences_pos (hword : word ≠ []) : 0 < occurrences word cs ↔ word <:+: cs := by
  induction cs with
  | nil => simp [occurrences, hword]
  | cons c cs ih =>
    rw [occurrences, List.infix_cons_iff, ← ih]
    split
    · next h => exact iff_of_true (by omega) (.inl h)
    · next h => rw [Nat.zero_add, or_iff_right h]

/-- Where its first character is missing, a word does not begin. -/
private theorem occurrences_append_of_not_mem (hd : d ∉ a) (b : List Char) :
    occurrences (d :: word) (a ++ b) = occurrences (d :: word) b := by
  induction a with
  | nil => rfl
  | cons c a ih =>
    rw [List.mem_cons, not_or] at hd
    rw [List.cons_append, occurrences, if_neg fun h => hd.1 (List.cons_prefix_cons.1 h).1, ih hd.2,
      Nat.zero_add]

/-- Writing a text in lower case makes no further places, if the word begins with a letter that is the
lower case of none but letters of ASCII. -/
private theorem occurrences_lowerAfter_le (hword : IsLowered (d :: word))
    (hd : ∀ c, d ∈ lowerChar c → c.toNat < 0x80) (before cs : List Char) :
    occurrences (d :: word) (lowerAfter before cs) ≤ mentions (d :: word) cs := by
  induction cs generalizing before with
  | nil => exact Nat.le_refl 0
  | cons c cs ih =>
    rw [mentions]
    have hrest := ih (c :: before)
    by_cases hc : c = 'Σ'
    · subst hc
      obtain ⟨e, he, hlower⟩ := lowerAfter_sigma before cs
      have hne : d ∉ [e] := by
        intro hmem
        obtain rfl := List.mem_singleton.1 hmem
        have hascii := (hword d List.mem_cons_self).1
        rcases he with rfl | rfl <;> exact absurd hascii (by decide)
      have hsame : occurrences (d :: word) (e :: lowerAfter ('Σ' :: before) cs) =
          occurrences (d :: word) (lowerAfter ('Σ' :: before) cs) := occurrences_append_of_not_mem hne _
      rw [hlower, hsame]
      omega
    · by_cases hmem : d ∈ lowerChar c
      · have hascii := hd c hmem
        have hplace : d :: word <+: lowerAfter before (c :: cs) →
            d :: word <+: lowerAfter [] (c :: cs) := isPrefix_lowerAfter hword List.prefix_rfl
        have hlower : lowerAfter before (c :: cs) = lowerChar c ++ lowerAfter (c :: before) cs :=
          lowerAfter_cons_of_ne hc
        rw [lowerChar, if_pos hascii, List.singleton_append] at hlower
        rw [hlower] at hplace ⊢
        rw [occurrences]
        exact Nat.add_le_add (ite_le_ite hplace) hrest
      · rw [lowerAfter_cons_of_ne hc, occurrences_append_of_not_mem hmem]
        omega

theorem occurrences_lower_le (hword : IsLowered (d :: word))
    (hd : ∀ c, d ∈ lowerChar c → c.toNat < 0x80) (cs : List Char) :
    occurrences (d :: word) (lower (String.ofList cs)).toList ≤ mentions (d :: word) cs := by
  rw [lower, String.toList_ofList, String.toList_ofList]
  exact occurrences_lowerAfter_le hword hd [] cs

end LiveMarkup.Text
