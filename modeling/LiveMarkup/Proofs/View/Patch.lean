import Mathlib.Data.List.Basic
import LiveMarkup.Proofs.Document.Head
import LiveMarkup.Proofs.Forest.Lasting
import LiveMarkup.Proofs.View.Output

/-! What a pass of rendering does to the forest as a whole: the stylesheet is added, the nodes of the
output are replaced, and what nobody keeps any longer is let go of. -/

namespace LiveMarkup.Forest

variable {α : Type} {f f' f₁ f₂ : Forest α} {head marker p : NodeId}
  {styles old new held held' : List NodeId} {trees : List (Html α)}

/-- The node is kept, but its parent, which is one of the nodes `old` or below one, is not in use any
more. -/
def Severed (f f' : Forest α) (held old : List NodeId) (n : NodeId) : Prop :=
  n ∈ held ∧ ∃ q, f.parent? n = some q ∧ ¬ f.Outside old q ∧ f'.inUse held q = false

/-- The forest `f'` is `f` with the nodes `new`, which show the trees, right before the marker in its
parent, without the nodes `old`, and with style elements at the end of the head. No other node has
changed its parent but those that have been severed, and no node its attributes, its listeners or the
order of its children. If the marker itself has been severed, the new nodes have no parent either. -/
structure Patched (f f' : Forest α) (head marker p : NodeId) (styles old new held : List NodeId)
    (trees : List (Html α)) : Prop where
  linked : f'.Linked
  settled : f'.Settled held
  size_le : f.nodes.size ≤ f'.nodes.size
  attached : f.parent? marker = some p
  kind : ∀ n, f.Has n → f'.kind? n = f.kind? n
  removed : ∀ n ∈ old, f'.parent? n = none
  stays : ∀ n, f.Has n → n ∉ old → ¬ f.Severed f' held old n → f'.parent? n = f.parent? n
  severed : ∀ n, f.Has n → n ∉ old → f.Severed f' held old n → f'.parent? n = none
  children : ∀ q, f.Has q → f'.children q =
    ((if q = p then putAllBefore marker new else id)
      (f.children q ++ if q = head then styles else [])).filter fun n => f'.parent? n = some q
  fresh : ∀ n ∈ new, ¬ f.Has n
  nodup : new.Nodup
  placed : ∀ n ∈ new, f'.parent? n = f'.parent? marker
  styled : ∀ n ∈ styles, ¬ f.Has n ∧ f'.parent? n = some head
  shows : ShowsAll f' f.nodes.size f'.nodes.size trees new
  depth : Html.depthOf trees ≤ f'.nodes.size

theorem Extended.has (h : Extended f f₁ head styles) {n : NodeId} (hn : f.Has n) : f₁.Has n :=
  Nat.lt_of_lt_of_le hn h.size_le

private theorem filter_has (hf : f.Linked) (q : NodeId) :
    (f.children q).filter (· < f.nodes.size) = f.children q := by
  rw [List.filter_eq_self]
  intro n hn
  exact decide_eq_true (hf.has_child hn)

/-- Where the new nodes of a forest go does not show from before. -/
theorem Extended.renewed (hf : f.Linked) (h : Extended f f₁ head styles) (hl : f₁.Linked) :
    Renewed f f₁ [] where
  linked := hl
  size_le := h.size_le
  kind := h.kind
  parent? n hn := by simpa using h.parent? n hn
  children q hq := by
    rw [filter_notMem_nil, h.children q hq]
    split
    · rw [List.filter_append, filter_has hf]
      have hnil : styles.filter (· < f.nodes.size) = [] := by
        rw [List.filter_eq_nil_iff]
        intro n hn
        simpa [Has] using h.fresh n hn
      rw [hnil, List.append_nil]
    · exact filter_has hf q

/-- Replacing an output makes its nodes roots. -/
theorem Replaced.renewed (hf : f.Linked) (h : Replaced f f₁ marker p old new trees) :
    Renewed f f₁ old where
  linked := h.linked
  size_le := h.size_le
  kind := h.kind
  parent? := h.parent?
  children q hq := by
    have hfresh : ∀ n ∈ new, decide (n < f.nodes.size) = false := fun n hn =>
      decide_eq_false (h.fresh n hn)
    rw [h.children q hq, List.filter_comm]
    split
    · rw [filter_putAllBefore hfresh, filter_has hf]
    · rw [filter_has hf]

section Release

variable (hf : f.Linked) (hs : f.Settled held) (he : Extended f f₁ head styles)
  (hr : Replaced f₁ f₂ marker p old new trees) (hold : ∀ n ∈ old, f.Has n)
  (hback : ∀ n, f.Has n → n ∈ held' → n ∈ held)
  (hkeep : ∀ n ∈ held, f.Has n → n ∉ old → n ∈ held')
  (hnew : ∀ n ∈ held', f.Has n ∨ n ∈ new) (hheld : ∀ n ∈ new, n ∈ held')

include hf he hr in
/-- The nodes have been replaced in the forest that the stylesheet has been added to. -/
private theorem Extended.replaced (hl : f₁.Linked) : Renewed f f₂ old :=
  (he.renewed hf hl).trans (hr.renewed hl)

include hf he hr hnew in
/-- Whoever is kept does not hang from the new nodes. -/
theorem Extended.held_above (hl : f₁.Linked) (hp : f.Has p) :
    ∀ n ∈ held', ∀ q, f₂.parent? n = some q → q < f₁.nodes.size := by
  intro n hn q hpar
  rcases hnew n hn with hn | hn
  · rw [(he.replaced hf hr hl).parent? n hn] at hpar
    split at hpar
    · cases hpar
    · exact he.has (hf.has_parent hpar)
  · rw [hr.placed n hn] at hpar
    cases hpar
    exact he.has hp

include hf hs he hr hold hback hkeep hnew hheld in
/-- The three parts of a pass together. -/
theorem Extended.patched (hl : f₁.Linked) (hp : f.parent? marker = some p) (hm : marker ∈ held)
    (hmold : marker ∉ old) (hhead : f.Has head) :
    Patched f (f₂.release held') head marker p styles old new held' trees := by
  have h : Renewed f f₂ old := he.replaced hf hr hl
  have r := hr.linked.release held'
  have hfresh : ∀ n ∈ new, ¬ f.Has n := fun n hn hf => hr.fresh n hn (he.has hf)
  have hstray {n : NodeId} (hn : f.Has n) (hnold : n ∉ old) :
      f₂.Stray held' n ↔ f.Severed (f₂.release held') held' old n := by
    have hpar : f₂.parent? n = f.parent? n := by rw [h.parent? n hn, if_neg hnold]
    constructor
    · intro hst
      obtain ⟨-, q, hq, hin⟩ := h.stray hf hs hback hkeep hn hst
      obtain ⟨hheld, q', hq', huse⟩ := hst
      rw [hpar, hq] at hq'
      cases hq'
      exact ⟨hheld, q, hq, hin, by rw [r.inUse, huse]⟩
    · rintro ⟨hheld, q, hq, -, huse⟩
      exact ⟨hheld, q, by rw [hpar, hq], by rw [← r.inUse, huse]⟩
  have hremoved : ∀ n ∈ old, (f₂.release held').parent? n = none := by
    intro n hn
    have hroot : f₂.parent? n = none := by rw [h.parent? n (hold n hn), if_pos hn]
    rw [r.kept n, hroot]
    rintro ⟨-, -, q, hq, -⟩
    rw [hroot] at hq
    cases hq
  refine ⟨r.linked, r.settled, r.size ▸ h.size_le, hp, fun n hn => (r.kind n).trans (h.kind n hn), hremoved,
    fun n hn hnold hse => ?_, fun n hn hnold hse => ?_, fun q hq => ?_, hfresh, hr.nodup,
    fun n hn => ?_, fun n hn => ?_, ?_, ?_⟩
  · rw [r.kept n fun hk => hse ((hstray hn hnold).1 hk.2), h.parent? n hn, if_neg hnold]
  · exact r.cut n hse.1 ((hstray hn hnold).2 hse)
  · rw [r.children, hr.children q (he.has hq), List.filter_filter, he.children q hq]
    have hcond (l : List NodeId) :
        l.filter (fun n => decide ((f₂.release held').parent? n = some q) && decide (n ∉ old)) =
          l.filter fun n => (f₂.release held').parent? n = some q := by
      refine List.filter_congr fun n _ => ?_
      by_cases hn : n ∈ old
      · simp [hremoved n hn]
      · simp [hn]
    rw [hcond]
    split <;> split <;> simp
  · have hmarker : f₂.parent? marker = some p := by
      rw [h.parent? marker (has_of_parent? hp), if_neg hmold, hp]
    rw [r.parent?_of_held (hheld n hn) (hr.placed n hn),
      r.parent?_of_held (hkeep marker hm (has_of_parent? hp) hmold) hmarker]
  · have hnf := he.fresh n hn
    have hpar : f₁.parent? n = some head := by
      rw [← hl.mem_children, he.children head hhead, if_pos rfl]
      exact List.mem_append_right _ hn
    have hnhas : f₁.Has n := has_of_parent? hpar
    refine ⟨hnf, ?_⟩
    rw [r.kept n, hr.parent? n hnhas, if_neg fun hm => hnf (hold n hm), hpar]
    rintro ⟨hheld, -⟩
    rcases hnew n hheld with hn | hn
    · exact hnf hn
    · exact hr.fresh n hn hnhas
  · have hshows := r.shows hr.linked hr.shows (he.held_above hf hr hnew hl (hf.has_parent hp))
    exact hshows.mono (fun _ _ _ => rfl) (fun _ _ _ => rfl) he.size_le (Nat.le_of_eq r.size.symm)
  · exact r.size ▸ hr.depth

end Release

/-- All that is outside the nodes that have been replaced lasts. -/
theorem Patched.lasts (hf : f.Linked) (h : Patched f f' head marker p styles old new held trees) :
    Lasts f f' old := by
  have hstay {n : NodeId} (hn : f.Has n) (hnold : n ∉ old)
      (hq : ∀ q, f.parent? n = some q → f.Outside old q) : f'.parent? n = f.parent? n :=
    h.stays n hn hnold fun ⟨_, q, hpar, hin, _⟩ => hin (hq q hpar)
  refine ⟨h.size_le, h.kind, fun n hn ho => hstay hn ho.notMem fun q hq => ho.parent hq,
    fun q hq ho => ?_⟩
  have hbefore : ((if q = p then putAllBefore marker new else id)
      (f.children q ++ if q = head then styles else [])).filter (· < f.nodes.size) =
        f.children q := by
    have hnew : ∀ n ∈ new, decide (n < f.nodes.size) = false := fun n hn =>
      decide_eq_false (h.fresh n hn)
    have hstyles : (if q = head then styles else []).filter (· < f.nodes.size) = [] := by
      rw [List.filter_eq_nil_iff]
      intro n hn
      split at hn
      · simpa [Has] using (h.styled n hn).1
      · cases hn
    split
    · rw [filter_putAllBefore hnew, List.filter_append, hstyles, List.append_nil, filter_has hf]
    · rw [id, List.filter_append, hstyles, List.append_nil, filter_has hf]
  have hkept := congrArg
    (List.filter fun n => decide (n ∉ old) && decide (f'.parent? n = some q)) hbefore
  rw [List.filter_filter] at hkept
  rw [h.children q hq, List.filter_filter]
  refine Eq.trans (List.filter_congr fun n _ => ?_) (hkept.trans (List.filter_congr fun n hn => ?_))
  · by_cases hn : n < f.nodes.size <;> simp [hn]
  · by_cases hnold : n ∈ old
    · simp [hnold]
    · have hpar := hf.mem_children.1 hn
      have hq' : ∀ q', f.parent? n = some q' → f.Outside old q' := fun q' hq' =>
        Option.some.inj (hpar.symm.trans hq') ▸ ho
      simp [hnold, hstay (hf.has_child hn) hnold hq', hpar]

end LiveMarkup.Forest
