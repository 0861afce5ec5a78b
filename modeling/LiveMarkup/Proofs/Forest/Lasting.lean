import LiveMarkup.Proofs.Forest.Release

/-! What lasts when some nodes are replaced by new ones and what nobody keeps is let go of: all nodes
that are not below those that were replaced. -/

namespace LiveMarkup.Forest

variable {α : Type} {f f' f₁ f₂ : Forest α} {old : List NodeId}

/-- The forest `f'` is `f` with new nodes, and with the nodes `old` made roots. -/
structure Renewed (f f' : Forest α) (old : List NodeId) : Prop where
  linked : f'.Linked
  size_le : f.nodes.size ≤ f'.nodes.size
  kind : ∀ n, f.Has n → f'.kind? n = f.kind? n
  parent? : ∀ n, f.Has n → f'.parent? n = if n ∈ old then none else f.parent? n
  children : ∀ q, f.Has q →
    (f'.children q).filter (· < f.nodes.size) = (f.children q).filter (· ∉ old)

/-- A node that is none of the nodes `old` and does not lie below one. -/
def Outside (f : Forest α) (old : List NodeId) (n : NodeId) : Prop := ∀ m ∈ old, ¬ f.Under m n

/-- The forest `f'` is `f` with new nodes and without the nodes `old`, for all that is outside
them. -/
structure Lasts (f f' : Forest α) (old : List NodeId) : Prop where
  size_le : f.nodes.size ≤ f'.nodes.size
  kind : ∀ n, f.Has n → f'.kind? n = f.kind? n
  parent? : ∀ n, f.Has n → f.Outside old n → f'.parent? n = f.parent? n
  children : ∀ q, f.Has q → f.Outside old q →
    (f'.children q).filter (fun n => n < f.nodes.size ∧ n ∉ old) = (f.children q).filter (· ∉ old)

theorem Outside.parent {n q : NodeId} (h : f.Outside old n) (hq : f.parent? n = some q) :
    f.Outside old q := fun m hm hu => h m hm (.up hq hu)

theorem Outside.notMem {n : NodeId} (h : f.Outside old n) : n ∉ old := fun hn => h n hn .self

/-! Renewal. -/

theorem Renewed.has (h : Renewed f f' old) {n : NodeId} (hn : f.Has n) : f'.Has n :=
  Nat.lt_of_lt_of_le hn h.size_le

/-- Nodes are replaced after others have been added. -/
theorem Renewed.trans (h : Renewed f f₁ []) (h' : Renewed f₁ f₂ old) : Renewed f f₂ old where
  linked := h'.linked
  size_le := Nat.le_trans h.size_le h'.size_le
  kind n hn := (h'.kind n (h.has hn)).trans (h.kind n hn)
  parent? n hn := by
    rw [h'.parent? n (h.has hn), h.parent? n hn, if_neg List.not_mem_nil]
  children q hq := by
    have hfirst := congrArg (List.filter (· ∉ old)) (h.children q hq)
    have hsecond := congrArg (List.filter fun n => n < f.nodes.size) (h'.children q (h.has hq))
    rw [filter_notMem_nil, List.filter_filter] at hfirst
    rw [List.filter_filter, List.filter_filter] at hsecond
    rw [← hfirst]
    refine Eq.trans (List.filter_congr fun n _ => ?_) (hsecond.trans (List.filter_congr fun n _ => ?_))
    · by_cases hn : n < f.nodes.size
      · simp [hn, Nat.lt_of_lt_of_le hn h.size_le]
      · simp [hn]
    · exact Bool.and_comm ..

/-- New nodes are moved. -/
theorem Renewed.moved (h : Renewed f f₁ old) {p : NodeId} {ids : List NodeId}
    {place : List NodeId → List NodeId} (hm : Moved f₁ f₂ p ids place)
    (hids : ∀ n ∈ ids, ¬ f.Has n)
    (hplace : ∀ l, (place l).filter (· < f.nodes.size) = l.filter (· < f.nodes.size)) :
    Renewed f f₂ old where
  linked := hm.linked
  size_le := hm.size ▸ h.size_le
  kind n hn := (hm.kind n).trans (h.kind n hn)
  parent? n hn := by rw [hm.parent?, if_neg fun hmem => hids n hmem hn, h.parent? n hn]
  children q hq := by
    have hstay : ((f₁.children q).filter (· ∉ ids)).filter (· < f.nodes.size) =
        (f₁.children q).filter (· < f.nodes.size) := by
      rw [List.filter_filter]
      refine List.filter_congr fun n _ => ?_
      by_cases hn : n < f.nodes.size
      · have hnids : n ∉ ids := fun hmem => hids n hmem hn
        simp [hn, hnids]
      · simp [hn]
    rw [← h.children q hq, hm.children]
    split
    · rw [hplace, hstay]
    · exact hstay

/-- All nodes last if none has been replaced. -/
theorem Renewed.lasts_nil (h : Renewed f f' []) : Lasts f f' [] where
  size_le := h.size_le
  kind := h.kind
  parent? n hn _ := by rw [h.parent? n hn, if_neg List.not_mem_nil]
  children q hq _ := by simpa using h.children q hq

section Release

variable {held held' : List NodeId}

/-- What is in use stays so if it is outside the nodes that have been replaced. -/
theorem Renewed.inUse (hf : f.Linked) (h : Renewed f f' old)
    (hkeep : ∀ n ∈ held, f.Has n → n ∉ old → n ∈ held') {q : NodeId} (hq : f.Has q)
    (ho : f.Outside old q) (hu : f.inUse held q) : f'.inUse held' q := by
  have hup (u : NodeId) (hu : f.Under u q) : f.Has u ∧ u ∉ old :=
    ⟨hf.has_of_under hu hq, fun hm => ho u hm hu⟩
  refine inUse_mono h.size_le (fun u hu => ?_) (fun u hu hm => ?_) hu
  · rw [h.parent? u (hup u hu).1, if_neg (hup u hu).2]
  · exact hkeep u hm (hup u hu).1 (hup u hu).2

/-- What is stray after nodes have been replaced was below them. -/
theorem Renewed.stray (hf : f.Linked) (hs : f.Settled held) (h : Renewed f f' old)
    (hback : ∀ n, f.Has n → n ∈ held' → n ∈ held)
    (hkeep : ∀ n ∈ held, f.Has n → n ∉ old → n ∈ held') {n : NodeId} (hn : f.Has n)
    (hstray : f'.Stray held' n) :
    n ∉ old ∧ ∃ q, f.parent? n = some q ∧ ¬ f.Outside old q := by
  obtain ⟨hheld, q, hq, huse⟩ := hstray
  rw [h.parent? n hn] at hq
  split at hq
  · cases hq
  · next hnold =>
    refine ⟨hnold, q, hq, fun ho => ?_⟩
    have hmono := h.inUse hf hkeep (hf.has_parent hq) ho (hs.inUse_parent (hback n hn hheld) hq)
    rw [hmono] at huse
    cases huse

/-- Letting go leaves what is outside the nodes that have been replaced. -/
private theorem Renewed.release (hf : f.Linked) (hs : f.Settled held) (h : Renewed f f' old)
    (hback : ∀ n, f.Has n → n ∈ held' → n ∈ held)
    (hkeep : ∀ n ∈ held, f.Has n → n ∉ old → n ∈ held') :
    (∀ n, f.Has n → n ∉ old → (f'.release held').parent? n = f.parent? n ∨
      (f'.release held').parent? n = none ∧ ∃ q, f.parent? n = some q ∧ ¬ f.Outside old q) ∧
    ∀ q, f.Has q → f.Outside old q →
      (∀ n ∈ f'.children q, ¬ f.Has n → ¬ f'.Stray held' n) →
      (f'.release held').children q = f'.children q := by
  have r := h.linked.release held'
  constructor
  · intro n hn hnold
    by_cases hstray : f'.Stray held' n
    · exact .inr ⟨r.cut n hstray.1 hstray, (h.stray hf hs hback hkeep hn hstray).2⟩
    · left
      rw [r.kept n fun hk => hstray hk.2, h.parent? n hn, if_neg hnold]
  · intro q hq ho hnew
    rw [r.children, List.filter_eq_self]
    intro n hn
    have hp := h.linked.mem_children.1 hn
    rw [decide_eq_true_iff, r.kept n, hp]
    rintro ⟨-, hstray⟩
    by_cases hnhas : f.Has n
    · obtain ⟨hnold, q', hq', hout⟩ := h.stray hf hs hback hkeep hnhas hstray
      rw [h.parent? n hnhas, if_neg hnold, hq'] at hp
      cases hp
      exact hout ho
    · exact hnew n hn hnhas hstray

private theorem Renewed.lasts (hf : f.Linked) (hs : f.Settled held) (h : Renewed f f' old)
    (hback : ∀ n, f.Has n → n ∈ held' → n ∈ held)
    (hkeep : ∀ n ∈ held, f.Has n → n ∉ old → n ∈ held') : Lasts f (f'.release held') old := by
  have r := h.linked.release held'
  refine ⟨r.size ▸ h.size_le, fun n hn => (r.kind n).trans (h.kind n hn), fun n hn ho => ?_,
    fun q hq ho => ?_⟩
  · rcases (h.release hf hs hback hkeep).1 n hn ho.notMem with hp | ⟨-, q, hq, hout⟩
    · exact hp
    · exact absurd (ho.parent hq) hout
  · rw [r.children, List.filter_filter]
    have hchildren := congrArg (List.filter (· ∉ old)) (h.children q hq)
    rw [List.filter_filter, List.filter_filter] at hchildren
    simp only [Bool.and_self] at hchildren
    rw [← hchildren]
    refine List.filter_congr fun n hn => ?_
    have hp := h.linked.mem_children.1 hn
    by_cases hnhas : n < f.nodes.size
    · have hstay : (f'.release held').parent? n = some q := by
        rw [r.kept n, hp]
        rintro ⟨-, hstray⟩
        obtain ⟨hnold, q', hq', hout⟩ := h.stray hf hs hback hkeep hnhas hstray
        rw [h.parent? n hnhas, if_neg hnold, hq'] at hp
        cases hp
        exact hout ho
      simp [hnhas, hstay]
    · simp [hnhas]

/-- Letting go leaves all nodes if none has been replaced. -/
theorem Renewed.settle (hf : f.Linked) (hs : f.Settled held) (h : Renewed f f' [])
    (hback : ∀ n, f.Has n → n ∈ held' → n ∈ held) (hkeep : ∀ n ∈ held, f.Has n → n ∈ held') :
    Renewed f (f'.release held') [] := by
  have l := h.lasts hf hs hback fun n hn hhas _ => hkeep n hn hhas
  have houtside (n : NodeId) : f.Outside [] n := fun m hm => by cases hm
  refine ⟨(h.linked.release held').linked, l.size_le, l.kind, fun n hn => ?_, fun q hq => ?_⟩
  · rw [l.parent? n hn (houtside n), if_neg List.not_mem_nil]
  · have hc := l.children q hq (houtside q)
    simpa using hc

end Release

/-! Lasting over several steps. -/

theorem Lasts.refl (hf : f.Linked) : Lasts f f old where
  size_le := Nat.le_refl _
  kind _ _ := rfl
  parent? _ _ _ := rfl
  children q _ _ := by
    refine List.filter_congr fun n hn => ?_
    have hn : n < f.nodes.size := hf.has_child hn
    simp [hn]

theorem Lasts.has (h : Lasts f f' old) {n : NodeId} (hn : f.Has n) : f'.Has n :=
  Nat.lt_of_lt_of_le hn h.size_le

/-- Nothing comes to lie above a node that lasts. -/
theorem Lasts.under (hf : f.Linked) (h : Lasts f f' old) {m n : NodeId} (hu : f'.Under m n)
    (hn : f.Has n) (ho : f.Outside old n) : f.Under m n ∧ f.Has m := by
  induction hu with
  | self => exact ⟨.self, hn⟩
  | up hp _ ih =>
    rw [h.parent? _ hn ho] at hp
    obtain ⟨hum, hm⟩ := ih (hf.has_parent hp) (ho.parent hp)
    exact ⟨.up hp hum, hm⟩

theorem Lasts.trans {old₁ old₂ : List NodeId} (hf : f.Linked) (h : Lasts f f₁ old₁)
    (h' : Lasts f₁ f₂ old₂) (hold : ∀ m ∈ old₁, m ∈ old)
    (hold' : ∀ m ∈ old₂, f.Has m → m ∈ old) : Lasts f f₂ old := by
  have hout₁ {n : NodeId} (ho : f.Outside old n) : f.Outside old₁ n := fun m hm => ho m (hold m hm)
  have hout₂ {n : NodeId} (hn : f.Has n) (ho : f.Outside old n) : f₁.Outside old₂ n := by
    intro m hm hu
    obtain ⟨hum, hmhas⟩ := h.under hf hu hn (hout₁ ho)
    exact ho m (hold' m hm hmhas) hum
  refine ⟨Nat.le_trans h.size_le h'.size_le, fun n hn => ?_, fun n hn ho => ?_, fun q hq ho => ?_⟩
  · rw [h'.kind n (h.has hn), h.kind n hn]
  · rw [h'.parent? n (h.has hn) (hout₂ hn ho), h.parent? n hn (hout₁ ho)]
  · have hfirst := congrArg (List.filter (· ∉ old)) (h.children q hq (hout₁ ho))
    have hsecond := congrArg (List.filter fun n => n < f.nodes.size ∧ n ∉ old)
      (h'.children q (h.has hq) (hout₂ hq ho))
    simp only [List.filter_filter] at hfirst hsecond
    have hlast : (f.children q).filter (· ∉ old) =
        (f.children q).filter fun n => decide (n ∉ old) && decide (n ∉ old₁) := by
      refine List.filter_congr fun n _ => ?_
      by_cases hn : n ∈ old
      · simp [hn]
      · have hn₁ : n ∉ old₁ := fun hm => hn (hold n hm)
        simp [hn, hn₁]
    rw [hlast, ← hfirst]
    refine Eq.trans (List.filter_congr fun n _ => ?_) (hsecond.trans (List.filter_congr fun n _ => ?_))
    · by_cases hn : n < f.nodes.size ∧ n ∉ old
      · have hn₂ : n ∉ old₂ := fun hm => hn.2 (hold' n hm hn.1)
        simp [hn, Nat.lt_of_lt_of_le hn.1 h.size_le, hn₂]
      · simp only [hn, decide_false, Bool.false_and]
    · by_cases hn : n < f.nodes.size ∧ n ∉ old
      · have hn₁ : n ∉ old₁ := fun hm => hn.2 (hold n hm)
        have hn₂ : n ∉ old₂ := fun hm => hn.2 (hold' n hm hn.1)
        simp [hn, hn₁, hn₂]
      · rw [Classical.not_and_iff_not_or_not, not_not] at hn
        rcases hn with hn | hn
        · simp [hn]
        · simp [hn]

/-- Nodes last that are outside more of them. -/
theorem Lasts.mono {more : List NodeId} (hf : f.Linked) (h : Lasts f f' old)
    (hold : ∀ n ∈ old, n ∈ more) : Lasts f f' more :=
  (Lasts.refl hf : Lasts f f []).trans hf h (by simp) fun n hn _ => hold n hn

end LiveMarkup.Forest
