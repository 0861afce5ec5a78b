import LiveMarkup.Eval.Basic

/-! How runs end and what they leave. Two runs that go together end alike and keep their states in a
relation; a run keeps a property if it goes together with itself on the states that have it. -/

namespace LiveMarkup.Run

variable {σ τ α β : Type}

/-- The state that a run leaves, however it ends. -/
def left (m : Run σ α) (s : σ) : σ :=
  match m s with
  | .ok _ s' => s'
  | .error _ s' => s'

theorem left_of_ok {m : Run σ α} {s s' : σ} {a : α} (h : m s = .ok a s') : left m s = s' := by
  simp only [left, h]

theorem left_of_error {m : Run σ α} {s s' : σ} {e : Stop} (h : m s = .error e s') :
    left m s = s' := by
  simp only [left, h]

theorem left_congr {m n : Run σ α} {s t : σ} (h : m s = n t) : left m s = left n t := by
  simp only [left, h]

def ending (m : Run σ α) (s : σ) : Except Stop α :=
  match m s with
  | .ok a _ => .ok a
  | .error e _ => .error e

theorem ending_of_ok {m : Run σ α} {s s' : σ} {a : α} (h : m s = .ok a s') :
    ending m s = .ok a := by
  simp only [ending, h]

theorem ending_of_error {m : Run σ α} {s s' : σ} {e : Stop} (h : m s = .error e s') :
    ending m s = .error e := by
  simp only [ending, h]

def succeedsWith (m : Run σ α) (s : σ) (test : α → σ → Bool) : Bool :=
  match m s with
  | .ok a s' => test a s'
  | .error _ _ => false

theorem succeedsWith_iff {m : Run σ α} {s : σ} {test : α → σ → Bool} :
    succeedsWith m s test = true ↔ ∃ a s', m s = .ok a s' ∧ test a s' = true := by
  unfold succeedsWith
  cases m s with
  | ok a s' =>
    constructor
    · exact fun h => ⟨a, s', rfl, h⟩
    · rintro ⟨_, _, ha, h⟩
      cases ha
      exact h
  | error e s' => simp

theorem bind_of_ok {m : Run σ α} {f : α → Run σ β} {s s' : σ} {a : α} (h : m s = .ok a s') :
    (m >>= f) s = f a s' := by
  simp only [bind, EStateM.bind, h]

theorem bind_of_error {m : Run σ α} {f : α → Run σ β} {s s' : σ} {e : Stop}
    (h : m s = .error e s') : (m >>= f) s = .error e s' := by
  simp only [bind, EStateM.bind, h]

theorem bind_of_eq {m n : Run σ α} {f : α → Run σ β} {s t : σ} (h : m s = n t) :
    (m >>= f) s = (n >>= f) t := by
  simp only [bind, EStateM.bind, h]

/-- A sequence succeeds exactly if both parts do. -/
theorem bind_eq_ok {m : Run σ α} {f : α → Run σ β} {s s' : σ} {b : β} :
    (m >>= f) s = .ok b s' ↔ ∃ a t, m s = .ok a t ∧ f a t = .ok b s' := by
  cases h : m s with
  | ok a t =>
    rw [bind_of_ok h]
    constructor
    · exact fun hf => ⟨a, t, rfl, hf⟩
    · rintro ⟨a', t', ha, hf⟩
      cases ha
      exact hf
  | error e t => simp [bind_of_error h]

/-- A sequence stops in its first part or in the second. -/
theorem bind_eq_error {m : Run σ α} {f : α → Run σ β} {s s' : σ} {e : Stop} :
    (m >>= f) s = .error e s' ↔
      m s = .error e s' ∨ ∃ a t, m s = .ok a t ∧ f a t = .error e s' := by
  cases h : m s with
  | ok a t =>
    rw [bind_of_ok h]
    constructor
    · exact fun hf => .inr ⟨a, t, rfl, hf⟩
    · rintro (ha | ⟨a', t', ha, hf⟩)
      · cases ha
      · cases ha
        exact hf
  | error e t => simp [bind_of_error h]

theorem tryCatch_of_ok {m : Run σ α} {f : Stop → Run σ α} {s s' : σ} {a : α}
    (h : m s = .ok a s') : (tryCatch m f) s = .ok a s' := by
  change EStateM.tryCatch m f s = .ok a s'
  delta EStateM.tryCatch
  rw [h]

theorem tryCatch_of_error {m : Run σ α} {f : Stop → Run σ α} {s s' : σ} {e : Stop}
    (h : m s = .error e s') : (tryCatch m f) s = f e s' := by
  change EStateM.tryCatch m f s = f e s'
  delta EStateM.tryCatch
  rw [h]
  rfl

theorem ending_bind {m : Run σ α} {f : α → Run σ β} {s t : σ} {a : α} (h : m s = .ok a t) :
    ending (m >>= f) s = ending (f a) t := by
  rw [ending, bind_of_ok h, ending]

theorem ending_ofStop (q : Except Stop α) (s : σ) : ending (Run.ofStop q) s = q := by
  cases q <;> rfl

/-- A result that is made of another one leaves nothing behind. -/
theorem left_bind_pure (m : Run σ α) (f : α → β) (s : σ) :
    left (m >>= fun a => pure (f a)) s = left m s := by
  cases h : m s with
  | ok a t =>
    rw [left_of_ok h]
    exact left_of_ok ((bind_of_ok h).trans rfl)
  | error e t => rw [left_of_error h, left_of_error (bind_of_error h)]

/-! Runs in a state of another kind. -/

def inside (enter : σ → τ) (leave : σ → τ → σ) (m : Run τ α) : Run σ α := fun s =>
  match m (enter s) with
  | .ok a t => .ok a (leave s t)
  | .error e t => .error e (leave s t)

section Inside

variable {enter : σ → τ} {leave : σ → τ → σ} {m : Run τ α} {s : σ} {t : τ}

theorem inside_of_ok {a : α} (h : m (enter s) = .ok a t) :
    inside enter leave m s = .ok a (leave s t) := by rw [inside, h]

theorem inside_of_error {e : Stop} (h : m (enter s) = .error e t) :
    inside enter leave m s = .error e (leave s t) := by rw [inside, h]

theorem left_inside : left (inside enter leave m) s = leave s (left m (enter s)) := by
  cases h : m (enter s) with
  | ok a t => rw [left_of_ok h, left_of_ok (inside_of_ok h)]
  | error e t => rw [left_of_error h, left_of_error (inside_of_error h)]

theorem ending_inside : ending (inside enter leave m) s = ending m (enter s) := by
  cases h : m (enter s) with
  | ok a t => rw [ending_of_ok h, ending_of_ok (inside_of_ok h)]
  | error e t => rw [ending_of_error h, ending_of_error (inside_of_error h)]

end Inside

/-! Runs that go together and give results that go together. -/

/-- Two endings of the same kind, with the same reason or with results that go together, in related
states. -/
inductive AlikeUpTo (Q : α → β → Prop) (R : σ → τ → Prop) :
    EStateM.Result Stop σ α → EStateM.Result Stop τ β → Prop where
  | ok {s t} {a : α} {b : β} (hq : Q a b) (h : R s t) : AlikeUpTo Q R (.ok a s) (.ok b t)
  | error {s t} (e : Stop) (h : R s t) : AlikeUpTo Q R (.error e s) (.error e t)

/-- From related states the two runs end alike, with results that go together if they have any. -/
def RelatedUpTo (Q : α → β → Prop) (R : σ → τ → Prop) (m : Run σ α) (n : Run τ β) : Prop :=
  ∀ s t, R s t → AlikeUpTo Q R (m s) (n t)

namespace RelatedUpTo

variable {γ δ : Type} {Q : α → β → Prop} {Q' : γ → δ → Prop} {R : σ → τ → Prop}

theorem pure {a : α} {b : β} (h : Q a b) : RelatedUpTo Q R (Pure.pure a) (Pure.pure b) :=
  fun _ _ hst => .ok h hst

theorem throw (e : Stop) : RelatedUpTo Q R (MonadExcept.throw e : Run σ α) (MonadExcept.throw e) :=
  fun _ _ hst => .error e hst

/-- The second parts need to go together only from results that do. -/
theorem bind {m : Run σ α} {n : Run τ β} {f : α → Run σ γ} {g : β → Run τ δ}
    (hm : RelatedUpTo Q R m n) (hf : ∀ a b, Q a b → RelatedUpTo Q' R (f a) (g b)) :
    RelatedUpTo Q' R (m >>= f) (n >>= g) := by
  intro s t hst
  have ha := hm s t hst
  generalize h : m s = r at ha
  generalize k : n t = q at ha
  cases ha with
  | ok hq hr =>
    rw [bind_of_ok h, bind_of_ok k]
    exact hf _ _ hq _ _ hr
  | error e hr =>
    rw [bind_of_error h, bind_of_error k]
    exact .error e hr

theorem mono {Q₂ : α → β → Prop} {m : Run σ α} {n : Run τ β} (hm : RelatedUpTo Q R m n)
    (h : ∀ a b, Q a b → Q₂ a b) : RelatedUpTo Q₂ R m n := by
  intro s t hst
  have ha := hm s t hst
  generalize m s = r at ha ⊢
  generalize n t = q at ha ⊢
  cases ha with
  | ok hq hr => exact .ok (h _ _ hq) hr
  | error e hr => exact .error e hr

/-- What depends on the states may use that they are related. -/
theorem get_bind {f : σ → Run σ α} {g : τ → Run τ β}
    (h : ∀ s t, R s t → RelatedUpTo Q R (f s) (g t)) : RelatedUpTo Q R (get >>= f) (get >>= g) :=
  fun s t hst => h s t hst s t hst

theorem tryCatch {m : Run σ α} {n : Run τ β} {f : Stop → Run σ α} {g : Stop → Run τ β}
    (hm : RelatedUpTo Q R m n) (hf : ∀ e, RelatedUpTo Q R (f e) (g e)) :
    RelatedUpTo Q R (MonadExcept.tryCatch m f) (MonadExcept.tryCatch n g) := by
  intro s t hst
  have ha := hm s t hst
  generalize h : m s = r at ha
  generalize k : n t = q at ha
  cases ha with
  | ok hq hr =>
    rw [tryCatch_of_ok h, tryCatch_of_ok k]
    exact .ok hq hr
  | error e hr =>
    rw [tryCatch_of_error h, tryCatch_of_error k]
    exact hf e _ _ hr

/-- Runs inside go together if what they enter does, and what they leave if what is left inside does. -/
theorem inside {σ' τ' : Type} {S : σ' → τ' → Prop} {enter : σ → σ'} {leave : σ → σ' → σ}
    {enter' : τ → τ'} {leave' : τ → τ' → τ} {m : Run σ' α} {n : Run τ' β} (hm : RelatedUpTo Q S m n)
    (henter : ∀ s t, R s t → S (enter s) (enter' t))
    (hleave : ∀ s t s' t', R s t → S s' t' → R (leave s s') (leave' t t')) :
    RelatedUpTo Q R (inside enter leave m) (inside enter' leave' n) := by
  intro s t hst
  have ha := hm _ _ (henter s t hst)
  generalize h : m (enter s) = r at ha
  generalize k : n (enter' t) = q at ha
  cases ha with
  | ok hq hr =>
    rw [inside_of_ok h, inside_of_ok k]
    exact .ok hq (hleave _ _ _ _ hst hr)
  | error e hr =>
    rw [inside_of_error h, inside_of_error k]
    exact .error e (hleave _ _ _ _ hst hr)

end RelatedUpTo

/-! Runs that go together up to a change of the result. -/

/-- Two endings of the same kind in related states, with the same reason or with results of which the
first is the image of the second. -/
inductive AlikeBy (f : β → α) (R : σ → τ → Prop) :
    EStateM.Result Stop σ α → EStateM.Result Stop τ β → Prop where
  | ok {s t} (b : β) (h : R s t) : AlikeBy f R (.ok (f b) s) (.ok b t)
  | error {s t} (e : Stop) (h : R s t) : AlikeBy f R (.error e s) (.error e t)

/-- From related states the two runs end alike up to a change of the result. -/
def RelatedBy (f : β → α) (R : σ → τ → Prop) (m : Run σ α) (n : Run τ β) : Prop :=
  ∀ s t, R s t → AlikeBy f R (m s) (n t)

/-- That is, with results of which the first is the image of the second. -/
theorem relatedBy_iff_upTo {R : σ → τ → Prop} {f : β → α} {m : Run σ α} {n : Run τ β} :
    RelatedBy f R m n ↔ RelatedUpTo (fun a b => a = f b) R m n := by
  constructor <;> intro h s t hst <;> have ha := h s t hst <;> generalize m s = r at ha ⊢ <;>
    generalize n t = q at ha ⊢
  · cases ha with
    | ok b hr => exact .ok rfl hr
    | error e hr => exact .error e hr
  · cases ha with
    | ok hq hr => exact hq ▸ .ok _ hr
    | error e hr => exact .error e hr

namespace RelatedBy

variable {γ δ : Type} {R : σ → τ → Prop} {f : β → α} {g : δ → γ}

theorem pure (b : β) : RelatedBy f R (Pure.pure (f b)) (Pure.pure b) := fun _ _ h => .ok b h

theorem pure_of {a : α} {b : β} (h : f b = a) : RelatedBy f R (Pure.pure a) (Pure.pure b) :=
  h ▸ pure b

theorem throw (e : Stop) : RelatedBy f R (MonadExcept.throw e : Run σ α) (MonadExcept.throw e) :=
  fun _ _ h => .error e h

theorem fail (e : EvalError) : RelatedBy f R (Run.fail e : Run σ α) (Run.fail e) := throw _

theorem ofExcept : ∀ r : Except EvalError β, RelatedBy f R (Run.ofExcept (r.map f)) (Run.ofExcept r)
  | .ok b => pure b
  | .error e => fail e

theorem ofStop : ∀ r : Except Stop β, RelatedBy f R (Run.ofStop (r.map f)) (Run.ofStop r)
  | .ok b => pure b
  | .error e => throw e

/-- The first part gives a result and its image, so that the second parts need to go together only
from there. -/
theorem bind {m : Run σ α} {n : Run τ β} {F : α → Run σ γ} {G : β → Run τ δ} (hm : RelatedBy f R m n)
    (hF : ∀ b, RelatedBy g R (F (f b)) (G b)) : RelatedBy g R (m >>= F) (n >>= G) :=
  relatedBy_iff_upTo.2 ((relatedBy_iff_upTo.1 hm).bind fun _ b hab => hab ▸ relatedBy_iff_upTo.1 (hF b))

/-- What depends on the states may use that they are related. -/
theorem get_bind {F : σ → Run σ α} {G : τ → Run τ β}
    (h : ∀ s t, R s t → RelatedBy f R (F s) (G t)) : RelatedBy f R (get >>= F) (get >>= G) :=
  fun s t hst => h s t hst s t hst

theorem tryCatch {m : Run σ α} {n : Run τ β} {F : Stop → Run σ α} {G : Stop → Run τ β}
    (hm : RelatedBy f R m n) (hF : ∀ e, RelatedBy f R (F e) (G e)) :
    RelatedBy f R (MonadExcept.tryCatch m F) (MonadExcept.tryCatch n G) :=
  relatedBy_iff_upTo.2 ((relatedBy_iff_upTo.1 hm).tryCatch fun e => relatedBy_iff_upTo.1 (hF e))

theorem inside {σ' τ' : Type} {S : σ' → τ' → Prop} {enter : σ → σ'} {leave : σ → σ' → σ}
    {enter' : τ → τ'} {leave' : τ → τ' → τ} {m : Run σ' α} {n : Run τ' β} (hm : RelatedBy f S m n)
    (henter : ∀ s t, R s t → S (enter s) (enter' t))
    (hleave : ∀ s t s' t', R s t → S s' t' → R (leave s s') (leave' t t')) :
    RelatedBy f R (inside enter leave m) (inside enter' leave' n) :=
  relatedBy_iff_upTo.2 ((relatedBy_iff_upTo.1 hm).inside henter hleave)

theorem forM {F : γ → Run σ Unit} {G : δ → Run τ Unit} (h : ∀ d, RelatedBy id R (F (g d)) (G d))
    (ds : List δ) : RelatedBy id R ((ds.map g).forM F) (ds.forM G) := by
  induction ds with
  | nil => exact pure ()
  | cons d ds ih => exact bind (h d) fun _ => ih

end RelatedBy

/-! Runs that go together. -/

/-- Two endings of the same kind, with the same result or reason, in related states. -/
inductive Alike (R : σ → τ → Prop) : EStateM.Result Stop σ α → EStateM.Result Stop τ α → Prop where
  | ok {s t} (a : α) (h : R s t) : Alike R (.ok a s) (.ok a t)
  | error {s t} (e : Stop) (h : R s t) : Alike R (.error e s) (.error e t)

/-- From related states the two runs end alike. -/
def Related (R : σ → τ → Prop) (m : Run σ α) (n : Run τ α) : Prop :=
  ∀ s t, R s t → Alike R (m s) (n t)

/-- Runs go together exactly if they do so up to a change of the result that changes none. -/
theorem relatedBy_iff {R : σ → τ → Prop} {f : α → α} (hf : ∀ a, f a = a) {m : Run σ α} {n : Run τ α} :
    RelatedBy f R m n ↔ Related R m n := by
  constructor <;> intro h s t hst <;> have ha := h s t hst <;> generalize m s = r at ha ⊢ <;>
    generalize n t = q at ha ⊢
  · cases ha with
    | ok a hr => exact (hf a).symm ▸ .ok a hr
    | error e hr => exact .error e hr
  · cases ha with
    | ok a hr => simpa only [hf] using AlikeBy.ok (f := f) a hr
    | error e hr => exact .error e hr

namespace Related

variable {R : σ → τ → Prop}

/-- Runs that go together leave related states. -/
theorem left {m : Run σ α} {n : Run τ α} (h : Related R m n) {s : σ} {t : τ} (hst : R s t) :
    R (Run.left m s) (Run.left n t) := by
  have ha := h s t hst
  cases hm : m s with
  | ok a s' =>
    cases hn : n t with
    | ok b t' =>
      rw [hm, hn] at ha
      cases ha with
      | ok _ hr => exact left_of_ok hm ▸ left_of_ok hn ▸ hr
    | error e t' =>
      rw [hm, hn] at ha
      cases ha
  | error e s' =>
    cases hn : n t with
    | ok b t' =>
      rw [hm, hn] at ha
      cases ha
    | error e' t' =>
      rw [hm, hn] at ha
      cases ha with
      | error _ hr => exact left_of_error hm ▸ left_of_error hn ▸ hr

/-- Runs that go together end alike. -/
theorem ending {m : Run σ α} {n : Run τ α} (h : Related R m n) {s : σ} {t : τ} (hst : R s t) :
    Run.ending m s = Run.ending n t := by
  have ha := h s t hst
  unfold Run.ending
  generalize m s = r at ha
  generalize n t = q at ha
  cases ha with
  | ok a _ => rfl
  | error e _ => rfl

theorem of_by {m : Run σ α} {n : Run τ α} (h : RelatedBy id R m n) : Related R m n :=
  (relatedBy_iff fun _ => rfl).1 h

theorem by_id {m : Run σ α} {n : Run τ α} (h : Related R m n) : RelatedBy id R m n :=
  (relatedBy_iff fun _ => rfl).2 h

theorem pure (a : α) : Related R (Pure.pure a) (Pure.pure a) := of_by (.pure a)

theorem throw (e : Stop) : Related R (MonadExcept.throw e : Run σ α) (MonadExcept.throw e) :=
  of_by (.throw e)

theorem fail (e : EvalError) : Related R (Run.fail e : Run σ α) (Run.fail e) := throw _

theorem modify {f : σ → σ} {g : τ → τ} (h : ∀ s t, R s t → R (f s) (g t)) :
    Related R (modify f) (modify g) := fun s t hst => .ok () (h s t hst)

/-- The first parts give one and the same result, so that the second parts need to go together only
from there. -/
theorem bind {m : Run σ α} {n : Run τ α} {f : α → Run σ β} {g : α → Run τ β}
    (hm : Related R m n) (hf : ∀ a, Related R (f a) (g a)) : Related R (m >>= f) (n >>= g) :=
  of_by (.bind hm.by_id fun a => (hf a).by_id)

/-- What depends on the states may use that they are related. -/
theorem get_bind {f : σ → Run σ β} {g : τ → Run τ β}
    (h : ∀ s t, R s t → Related R (f s) (g t)) : Related R (get >>= f) (get >>= g) :=
  fun s t hst => h s t hst s t hst

theorem tryCatch {m : Run σ α} {n : Run τ α} {f : Stop → Run σ α} {g : Stop → Run τ α}
    (hm : Related R m n) (hf : ∀ e, Related R (f e) (g e)) :
    Related R (MonadExcept.tryCatch m f) (MonadExcept.tryCatch n g) :=
  of_by (.tryCatch hm.by_id fun e => (hf e).by_id)

theorem forM_of_mem {f : α → Run σ Unit} {g : α → Run τ Unit} {as : List α}
    (h : ∀ a ∈ as, Related R (f a) (g a)) : Related R (as.forM f) (as.forM g) := by
  induction as with
  | nil => exact pure ()
  | cons a as ih =>
    have hrest := ih fun b hb => h b (List.mem_cons_of_mem a hb)
    exact bind (h a List.mem_cons_self) fun _ => hrest

end Related

/-- From related states the two runs end alike, with one and the same result, which is of a kind, if they
have any. -/
abbrev RelatedIn (P : α → Prop) (R : σ → τ → Prop) (m : Run σ α) (n : Run τ α) : Prop :=
  RelatedUpTo (fun a b => a = b ∧ P b) R m n

namespace RelatedIn

variable {P : α → Prop} {Q : β → Prop} {R : σ → τ → Prop}

theorem related {m : Run σ α} {n : Run τ α} (h : RelatedIn P R m n) : Related R m n := by
  intro s t hst
  have ha := h s t hst
  generalize m s = r at ha
  generalize n t = q at ha
  cases ha with
  | ok hq hr => exact hq.1 ▸ .ok _ hr
  | error e hr => exact .error e hr

theorem pure {a : α} (h : P a) : RelatedIn P R (Pure.pure a) (Pure.pure a) := RelatedUpTo.pure ⟨rfl, h⟩

theorem throw (e : Stop) : RelatedIn P R (MonadExcept.throw e : Run σ α) (MonadExcept.throw e) :=
  RelatedUpTo.throw e

theorem fail (e : EvalError) : RelatedIn P R (Run.fail e : Run σ α) (Run.fail e) := throw _

/-- The second parts need to go together only from results of the kind that the first parts give. -/
theorem bindUpTo {γ δ : Type} {Q : γ → δ → Prop} {m : Run σ α} {n : Run τ α} {f : α → Run σ γ}
    {g : α → Run τ δ} (hm : RelatedIn P R m n) (hf : ∀ a, P a → RelatedUpTo Q R (f a) (g a)) :
    RelatedUpTo Q R (m >>= f) (n >>= g) :=
  RelatedUpTo.bind hm fun _ b h => h.1 ▸ hf b h.2

theorem bind {m : Run σ α} {n : Run τ α} {f : α → Run σ β} {g : α → Run τ β}
    (hm : RelatedIn P R m n) (hf : ∀ a, P a → RelatedIn Q R (f a) (g a)) :
    RelatedIn Q R (m >>= f) (n >>= g) := hm.bindUpTo hf

theorem get_bind {f : σ → Run σ β} {g : τ → Run τ β}
    (h : ∀ s t, R s t → RelatedIn Q R (f s) (g t)) : RelatedIn Q R (get >>= f) (get >>= g) :=
  RelatedUpTo.get_bind h

end RelatedIn

/-! Properties that a run keeps. -/

/-- From a state with the property the run leaves one with it, however it ends. -/
def Keeps (P : σ → Prop) (m : Run σ α) : Prop := ∀ s, P s → P (left m s)

/-- A run keeps a property exactly if it goes together with itself on the states that have it. -/
theorem keeps_iff_related {P : σ → Prop} {m : Run σ α} :
    Keeps P m ↔ Related (fun s t => s = t ∧ P s) m m := by
  constructor
  · rintro h s t ⟨rfl, hs⟩
    have hk := h s hs
    cases hm : m s with
    | ok a s' => exact .ok a ⟨rfl, left_of_ok hm ▸ hk⟩
    | error e s' => exact .error e ⟨rfl, left_of_error hm ▸ hk⟩
  · intro h s hs
    have ha := h s s ⟨rfl, hs⟩
    cases hm : m s with
    | ok a s' =>
      rw [hm] at ha
      cases ha with
      | ok _ hp => exact left_of_ok hm ▸ hp.2
    | error e s' =>
      rw [hm] at ha
      cases ha with
      | error _ hp => exact left_of_error hm ▸ hp.2

namespace Keeps

variable {P : σ → Prop}

theorem of_ok {m : Run σ α} (h : Keeps P m) {s s' : σ} {a : α} (hs : P s) (hm : m s = .ok a s') :
    P s' := left_of_ok hm ▸ h s hs

theorem of_error {m : Run σ α} (h : Keeps P m) {s s' : σ} {e : Stop} (hs : P s)
    (hm : m s = .error e s') : P s' := left_of_error hm ▸ h s hs

theorem pure (a : α) : Keeps P (Pure.pure a) := fun _ h => h

theorem throw (e : Stop) : Keeps P (MonadExcept.throw e : Run σ α) := fun _ h => h

theorem ofExcept : ∀ r : Except EvalError α, Keeps P (Run.ofExcept r)
  | .ok a => pure a
  | .error e => throw (.error e)

theorem ofStop : ∀ r : Except Stop α, Keeps P (Run.ofStop r)
  | .ok a => pure a
  | .error e => throw e

theorem modify {f : σ → σ} (h : ∀ s, P s → P (f s)) : Keeps P (modify f) := fun s hs => h s hs

theorem bind {m : Run σ α} {f : α → Run σ β} (hm : Keeps P m) (hf : ∀ a, Keeps P (f a)) :
    Keeps P (m >>= f) :=
  keeps_iff_related.2 (.bind (keeps_iff_related.1 hm) fun a => keeps_iff_related.1 (hf a))

/-- What depends on the state may use that it has the property. -/
theorem get_bind {f : σ → Run σ β} (h : ∀ s, P s → Keeps P (f s)) : Keeps P (get >>= f) :=
  fun s hs => h s hs s hs

theorem tryCatch {m : Run σ α} {f : Stop → Run σ α} (hm : Keeps P m) (hf : ∀ e, Keeps P (f e)) :
    Keeps P (MonadExcept.tryCatch m f) :=
  keeps_iff_related.2 (.tryCatch (keeps_iff_related.1 hm) fun e => keeps_iff_related.1 (hf e))

theorem inside {Q : τ → Prop} {enter : σ → τ} {leave : σ → τ → σ} {m : Run τ α} (hm : Keeps Q m)
    (henter : ∀ s, P s → Q (enter s)) (hleave : ∀ s t, P s → Q t → P (leave s t)) :
    Keeps P (inside enter leave m) := by
  refine keeps_iff_related.2 (.of_by ((keeps_iff_related.1 hm).by_id.inside ?_ ?_))
  · rintro s _ ⟨rfl, hs⟩
    exact ⟨rfl, henter s hs⟩
  · rintro s _ t _ ⟨rfl, hs⟩ ⟨rfl, ht⟩
    exact ⟨rfl, hleave s t hs ht⟩

theorem forM_of_mem {f : α → Run σ Unit} {as : List α} (h : ∀ a ∈ as, Keeps P (f a)) :
    Keeps P (as.forM f) :=
  keeps_iff_related.2 (.forM_of_mem fun a ha => keeps_iff_related.1 (h a ha))

theorem forM {f : α → Run σ Unit} (h : ∀ a, Keeps P (f a)) (as : List α) : Keeps P (as.forM f) :=
  forM_of_mem fun a _ => h a

end Keeps

end LiveMarkup.Run

/-! Local bindings are a state of another kind. -/

namespace LiveMarkup.Env

variable {σ α : Type}

theorem lift_eq_inside (m : Run σ α) : lift m = .inside outer (fun env s => ⟨env.locals, s⟩) m := rfl

section Locals

variable (m : Run (Env σ) α)

theorem within_eq_inside (locals : Bindings) :
    within locals m = .inside (fun env => ⟨locals, env.outer⟩)
      (fun env env' => ⟨env.locals, env'.outer⟩) m := by
  funext env
  rw [within, Run.inside]
  cases m ⟨locals, env.outer⟩ <;> rfl

theorem binding_eq_inside (bs : Bindings) :
    binding bs m = .inside (fun env => ⟨bs ++ env.locals, env.outer⟩)
      (fun _ env' => ⟨env'.locals.drop bs.length, env'.outer⟩) m := by
  funext env
  rw [binding, Run.inside]
  cases m ⟨bs ++ env.locals, env.outer⟩ <;> rfl

theorem toplevel_eq_inside : toplevel m = .inside (fun s => ⟨[], s⟩) (fun _ env => env.outer) m := by
  funext s
  rw [toplevel, Run.inside]
  cases m ⟨[], s⟩ <;> rfl

end Locals

end LiveMarkup.Env
