import LiveMarkup.Text.Search
import Mathlib.Data.List.Infix

/-! Where a text is cut: at the first occurrence of the needle. -/

namespace LiveMarkup.Text

variable {needle cs before after : List Char}

theorem dropPrefix?_append (pre cs : List Char) : dropPrefix? pre (pre ++ cs) = some cs := by
  induction pre with
  | nil => rfl
  | cons p pre ih => simp only [List.cons_append, dropPrefix?, if_pos, ih]

/-- What follows a text that is long enough does not matter to whether it begins with another. -/
theorem dropPrefix?_append_of_le {pre : List Char} (h : pre.length ≤ cs.length) (more : List Char) :
    dropPrefix? pre (cs ++ more) = (dropPrefix? pre cs).map (· ++ more) := by
  induction pre generalizing cs with
  | nil => rfl
  | cons p pre ih =>
    cases cs with
    | nil => cases h
    | cons c cs =>
      rw [List.cons_append, dropPrefix?, dropPrefix?]
      split
      · exact ih (Nat.le_of_succ_le_succ h)
      · rfl

/-- Nor does what follows any text if it begins with a character that the other does not contain. -/
theorem dropPrefix?_append_of_not_mem {pre more : List Char} (h : ∀ c ∈ more.head?, c ∉ pre) :
    dropPrefix? pre (cs ++ more) = (dropPrefix? pre cs).map (· ++ more) := by
  induction pre generalizing cs with
  | nil => rfl
  | cons p pre ih =>
    cases cs with
    | nil =>
      cases more with
      | nil => rfl
      | cons c more =>
        have hne : p ≠ c := fun heq => h c rfl (by rw [heq]; exact List.mem_cons_self)
        exact if_neg hne
    | cons c cs =>
      rw [List.cons_append, dropPrefix?, dropPrefix?]
      split
      · exact ih fun c hc hmem => h c hc (List.mem_cons_of_mem _ hmem)
      · rfl

/-- What cannot be cut does not contain the needle. -/
theorem not_infix_of_cut?_eq_none (h : cut? needle cs = none) : ¬ needle <:+: cs := by
  induction cs with
  | nil =>
    rw [List.infix_nil]
    rintro rfl
    cases h
  | cons c cs ih =>
    rw [cut?] at h
    split at h
    · cases h
    · next hstart =>
      rw [List.infix_cons_iff]
      rintro (⟨rest, heq⟩ | hinfix)
      · rw [← heq, dropPrefix?_append] at hstart
        cases hstart
      · exact ih (Option.map_eq_none_iff.1 h) hinfix

theorem cut?_eq_none (h : ¬ needle <:+: cs) : cut? needle cs = none := by
  cases hcut : cut? needle cs with
  | none => rfl
  | some parts =>
    refine absurd ⟨parts.1, parts.2, ?_⟩ h
    exact (cut?_eq_some hcut).symm

/-- The text is cut at the first occurrence. -/
theorem not_infix_before (hneedle : needle ≠ []) (h : cut? needle cs = some (before, after)) :
    ¬ needle <:+: before := by
  induction cs generalizing before with
  | nil =>
    obtain ⟨rest, -, heq⟩ := Option.map_eq_some_iff.1 h
    cases heq
    rwa [List.infix_nil]
  | cons c cs ih =>
    rw [cut?] at h
    split at h
    · cases h
      rwa [List.infix_nil]
    · next hstart =>
      obtain ⟨⟨b, a⟩, hcut, heq⟩ := Option.map_eq_some_iff.1 h
      cases heq
      rw [List.infix_cons_iff]
      rintro (⟨rest, heq⟩ | hinfix)
      · rw [cut?_eq_some hcut, List.append_assoc, ← List.cons_append, ← heq, List.append_assoc,
          dropPrefix?_append] at hstart
        cases hstart
      · exact ih hcut hinfix

/-- No end of the needle begins it, but for the empty one and the whole: two occurrences do not
overlap. -/
def Borderless (needle : List Char) : Prop :=
  ∀ q ∈ needle.tails, q <+: needle → q = [] ∨ q = needle

instance (needle : List Char) : Decidable (Borderless needle) := List.decidableBAll _ _

/-- An occurrence with none before it is the first one, even if the text before it ends with a
beginning of the needle. -/
theorem cut?_append (needle : List Char) (hborder : Borderless needle) (hneedle : needle ≠ [])
    (h : ¬ needle <:+: before) :
    cut? needle (before ++ (needle ++ after)) = some (before, after) := by
  induction before with
  | nil =>
    obtain ⟨c, needle, rfl⟩ := List.exists_cons_of_ne_nil hneedle
    rw [List.nil_append, List.cons_append, cut?, ← List.cons_append, dropPrefix?_append]
  | cons c before ih =>
    rw [List.infix_cons_iff, not_or] at h
    obtain ⟨hstart, hbefore⟩ := h
    rw [List.cons_append, cut?, ih hbefore]
    split
    · next rest hrest =>
      have heq := dropPrefix?_eq_some hrest
      rw [← List.cons_append, List.append_eq_append_iff] at heq
      obtain ⟨q, hq, hafter⟩ | ⟨q, hq, -⟩ := heq
      · -- The needle would begin before the occurrence and end within it.
        have hbegins : q <+: needle := List.prefix_of_prefix_length_le ⟨_, hafter.symm⟩
          (List.prefix_append _ _) (by rw [hq, List.length_append]; exact Nat.le_add_left _ _)
        obtain rfl | rfl := hborder q ((List.mem_tails _ _).2 ⟨_, hq.symm⟩) hbegins
        · exact absurd ⟨[], by rw [List.append_nil, hq, List.append_nil]⟩ hstart
        · have hlength := congrArg List.length hq
          rw [List.length_append, List.length_cons] at hlength
          omega
      · exact absurd ⟨q, hq.symm⟩ hstart
    · rfl

/-- The first occurrence stays the first one whatever follows. -/
theorem cut?_append_right (h : cut? needle cs = some (before, after)) (more : List Char) :
    cut? needle (cs ++ more) = some (before, after ++ more) := by
  induction cs generalizing before with
  | nil =>
    obtain ⟨rest, hrest, heq⟩ := Option.map_eq_some_iff.1 h
    cases heq
    obtain ⟨rfl, rfl⟩ := List.append_eq_nil_iff.1 (dropPrefix?_eq_some hrest).symm
    cases more <;> rfl
  | cons c cs ih =>
    rw [cut?] at h
    rw [List.cons_append, cut?, ← List.cons_append]
    split at h
    · next rest hrest =>
      cases h
      rw [dropPrefix?_eq_some hrest, List.append_assoc, dropPrefix?_append]
    · next hnone =>
      obtain ⟨⟨b, a⟩, hcut, heq⟩ := Option.map_eq_some_iff.1 h
      cases heq
      have hlength : needle.length ≤ (c :: cs).length := by
        rw [cut?_eq_some hcut, List.length_cons, List.length_append, List.length_append]
        omega
      rw [dropPrefix?_append_of_le hlength, hnone, ih hcut]
      rfl

/-- If the needle is neither in a text nor across its end, it is first found in what follows. -/
theorem cut?_append_left {more : List Char} (h : cut? needle cs = none)
    (hseam : ∀ u v, needle = u ++ v → u ≠ [] → v ≠ [] → u <:+ cs → ¬ v <+: more) :
    cut? needle (cs ++ more) = (cut? needle more).map fun x => (cs ++ x.1, x.2) := by
  induction cs with
  | nil =>
    rw [List.nil_append]
    exact Option.map_id'.symm
  | cons c cs ih =>
    rw [cut?] at h
    split at h
    · cases h
    · next hnone =>
      have hbegins : dropPrefix? needle (c :: cs ++ more) = none := by
        refine Option.eq_none_iff_forall_ne_some.2 fun after hafter => ?_
        have heq := dropPrefix?_eq_some hafter
        obtain ⟨v, hneedle, hmore⟩ | ⟨w, hcs, -⟩ := List.append_eq_append_iff.1 heq
        · rcases v.eq_nil_or_concat with rfl | ⟨v, d, rfl⟩
          · rw [List.append_nil] at hneedle
            have hwhole := dropPrefix?_append (c :: cs) []
            rw [List.append_nil, ← hneedle] at hwhole
            rw [← hneedle, hwhole] at hnone
            cases hnone
          · exact hseam _ _ hneedle (List.cons_ne_nil _ _) (by simp) List.suffix_rfl ⟨after, hmore.symm⟩
        · rw [hcs, dropPrefix?_append] at hnone
          cases hnone
      rw [List.cons_append, cut?, ← List.cons_append, hbegins,
        ih (Option.map_eq_none_iff.1 h) fun u v huv hu hv hsuffix =>
          hseam u v huv hu hv (hsuffix.trans (List.suffix_cons ..))]
      cases cut? needle more <;> rfl

theorem cut?_singleton {c : Char} (h : c ∉ before) :
    cut? [c] (before ++ c :: after) = some (before, after) := by
  refine cut?_append [c] (fun q hq _ => ?_) (List.cons_ne_nil _ _) ?_
  · simpa [or_comm] using hq
  · rwa [List.singleton_infix_iff]

end LiveMarkup.Text
