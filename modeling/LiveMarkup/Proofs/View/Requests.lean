import LiveMarkup.Proofs.View.Catalog
import LiveMarkup.View.Request

/-! What requests for views get. Each view that is compiled has a number and an attribute of its own, the
registry never loses an entry, a request that fails leaves nothing behind, and cached requests for one text
share the view of the first of them that succeeds. -/

namespace LiveMarkup

open Style (Registry Stylesheet)

def Request.shared? (r : Request) : Option String := if r.cached then some r.text else none

namespace Catalog

variable {c c' : Catalog} {d d' : Definition} {beginning style text : String} {identifiers : List String}

theorem Extends.refl (r : Registry) : Extends r r := fun _ _ h => h

theorem Extends.trans {r₁ r₂ r₃ : Registry} (h₁ : Extends r₁ r₂) (h₂ : Extends r₂ r₃) : Extends r₁ r₃ :=
  fun attr css h => h₂ attr css (h₁ attr css h)

/-! The work on a catalog, in terms of the catalogs before and after. -/

/-- How work ends that gives a view with a new catalog, or fails and leaves the catalog as it was. -/
def settled (c : Catalog) :
    Except DefinitionError (Definition × Catalog) → EStateM.Result DefinitionError Catalog Definition
  | .ok (d, c') => .ok d c'
  | .error e => .error e c

private theorem settled_eq_error {result : Except DefinitionError (Definition × Catalog)}
    {e : DefinitionError} (h : c.settled result = .error e c') : result = .error e ∧ c' = c := by
  cases result with
  | error e =>
    cases h
    exact ⟨rfl, rfl⟩
  | ok p => cases h

theorem enter_eq (c : Catalog) (beginning : String) (identifiers : List String) (style : String) :
    enter beginning identifiers style c =
      match c.registry.add? beginning identifiers style with
      | none => .error .attributesTaken c
      | some (sheet, registry) => .ok sheet { c with registry } := by
  change (match c.registry.add? beginning identifiers style with
    | none => throw .attributesTaken
    | some (sheet, registry) => do
      modify fun c => { c with registry }
      return sheet : Work Stylesheet) c = _
  cases c.registry.add? beginning identifiers style with
  | none => rfl
  | some r => rfl

private theorem issue_eq (c : Catalog) (beginning : String) (identifiers : List String)
    (source : Source) (template : Template) (script : Script) :
    issue beginning identifiers source template script c = c.settled (match source.style with
      | none => .ok (⟨c.count, source, template, script, none⟩, { c with count := c.count + 1 })
      | some style =>
        match c.registry.add? beginning identifiers style with
        | none => .error .attributesTaken
        | some (sheet, registry) =>
          .ok (⟨c.count, source, template, script, some sheet⟩,
            { c with registry, count := c.count + 1 })) := by
  rw [issue]
  cases source.style with
  | none => rfl
  | some style =>
    have henter := enter_eq c beginning identifiers style
    simp only [Option.mapM_some, bind, EStateM.bind, Functor.map, EStateM.map, henter]
    cases c.registry.add? beginning identifiers style with
    | none => rfl
    | some r => rfl

/-- The markup and the script are compiled before anything is entered, so a view that fails to compile
leaves the catalog as it was. -/
private theorem build_eq (c : Catalog) (beginning : String) (identifiers : List String)
    (text : String) :
    build beginning identifiers text c = c.settled (c.compile beginning identifiers text) := by
  rw [build, compile]
  obtain ⟨markup, style, script⟩ := Source.split text
  dsimp only
  cases Template.compile markup with
  | error e => rfl
  | ok template =>
    cases script with
    | none => exact issue_eq c beginning identifiers _ template .empty
    | some script =>
      simp only [Option.map_some, Option.getD_some]
      cases Script.compile script with
      | error e => rfl
      | ok script => exact issue_eq c beginning identifiers _ template script

/-- A cached request is a fetch that keeps what it compiles, any other request compiles. -/
private theorem answer_eq (r : Request) (c : Catalog) :
    r.answer c = c.settled (if r.cached then c.fetch true r.beginning r.identifiers r.text
      else c.compile r.beginning r.identifiers r.text) := by
  have hbuild := build_eq c r.beginning r.identifiers r.text
  rw [Request.answer]
  cases r.cached with
  | false => exact hbuild
  | true =>
    have hget : (get : Work Catalog) c = .ok c c := rfl
    rw [if_pos rfl, if_pos rfl, fetch]
    simp only [bind, EStateM.bind, hget]
    cases c.kept? r.text with
    | some d => rfl
    | none =>
      simp only [EStateM.bind, hbuild]
      cases c.compile r.beginning r.identifiers r.text with
      | error e => rfl
      | ok p => rfl

variable {r : Request} {e : DefinitionError}

/-- A request that fails leaves the catalog as it was. -/
private theorem eq_of_answer_error (h : r.answer c = .error e c') : c' = c :=
  (settled_eq_error ((answer_eq r c).symm.trans h)).2

/-! A view that is compiled. -/

/-- A view has a number that no view had before, and an attribute that the registry did not know. -/
structure New (c : Catalog) (d : Definition) : Prop where
  number : d.number = c.count
  attr : ∀ attr, d.attr? = some attr → c.registry.get? attr = none

/-- What a view that has been compiled is, and what the compiler has done to the catalog. -/
structure Compiled (c : Catalog) (text : String) (d : Definition) (c' : Catalog) : Prop where
  source : d.source = Source.split text
  new : New c d
  kept : c'.kept = c.kept
  count : c'.count = c.count + 1
  known : Extends c.registry c'.registry
  registered : Registered c'.registry d

private theorem compiled_of_compile (h : c.compile beginning identifiers text = .ok (d, c')) :
    Compiled c text d c' := by
  obtain ⟨hkept, hknown, hregistered⟩ := compile_registered h
  suffices hnew : d.source = Source.split text ∧ New c d ∧ c'.count = c.count + 1 from
    ⟨hnew.1, hnew.2.1, hkept, hnew.2.2, hknown, hregistered⟩
  rw [compile] at h
  obtain ⟨template, h⟩ := exists_of_bind h
  dsimp only at h
  split at h
  all_goals
    obtain ⟨script, h⟩ := exists_of_bind h
    split at h
    · cases h
      exact ⟨rfl, ⟨rfl, nofun⟩, rfl⟩
    · split at h
      · cases h
      · next sheet registry hadd =>
        cases h
        obtain ⟨attr, hfresh, he⟩ := Option.map_eq_some_iff.1 hadd
        cases he
        refine ⟨rfl, ⟨rfl, fun attr' hattr => ?_⟩, rfl⟩
        cases hattr
        exact Registry.get?_fresh? hfresh

/-- A successful request has found its view kept, or else has compiled it, and has kept it if the request
was a cached one. -/
private theorem answer_cases (h : r.answer c = .ok d c') :
    (r.cached = true ∧ c.kept? r.text = some d ∧ c' = c) ∨
      (r.cached = true → c.kept? r.text = none) ∧ ∃ c₁, Compiled c r.text d c₁ ∧
        c' = if r.cached then { c₁ with kept := (r.text, d) :: c₁.kept } else c₁ := by
  rw [answer_eq] at h
  cases hcached : r.cached with
  | false =>
    rw [hcached] at h
    cases hcompile : c.compile r.beginning r.identifiers r.text with
    | error e => rw [if_neg nofun, hcompile] at h; cases h
    | ok p =>
      rw [if_neg nofun, hcompile] at h
      cases h
      exact .inr ⟨nofun, p.2, compiled_of_compile hcompile, rfl⟩
  | true =>
    rw [hcached, if_pos rfl, fetch] at h
    cases hkept : c.kept? r.text with
    | some d' =>
      rw [hkept] at h
      cases h
      exact .inl ⟨rfl, rfl, rfl⟩
    | none =>
      rw [hkept] at h
      cases hcompile : c.compile r.beginning r.identifiers r.text with
      | error e => rw [hcompile] at h; cases h
      | ok p =>
        rw [hcompile] at h
        cases h
        exact .inr ⟨fun _ => rfl, p.2, compiled_of_compile hcompile, rfl⟩

private theorem kept?_cons (c : Catalog) (text text' : String) (d : Definition) :
    { c with kept := (text, d) :: c.kept }.kept? text' = if text = text' then some d else c.kept? text' := by
  rw [kept?, List.find?_cons]
  split
  · next h => rw [if_pos (by simpa using h), Option.map_some]
  · next h => rw [if_neg (by simpa using h), kept?]

/-! What the catalog remembers of a view that it has given out. -/

/-- Two views have neither their numbers nor their attributes in common. -/
def Apart (d d' : Definition) : Prop :=
  d.number ≠ d'.number ∧ ∀ attr, d.attr? = some attr → d'.attr? ≠ some attr

theorem Apart.symm (h : Apart d d') : Apart d' d :=
  ⟨h.1.symm, fun attr hattr hattr' => h.2 attr hattr' hattr⟩

/-- What a catalog knows about a view that has been given out, where `shared` is the text that the view is
shared for. -/
structure Remembers (c : Catalog) (shared : Option String) (d : Definition) : Prop where
  number : d.number < c.count
  registered : Registered c.registry d
  kept : ∀ text, shared = some text → c.kept? text = some d
  apart : ∀ text d', c.kept? text = some d' → shared = some text ∨ Apart d d'

/-- The views that are kept are those of their texts, and are remembered. -/
def Sound (c : Catalog) : Prop :=
  ∀ text d, c.kept? text = some d → d.source = Source.split text ∧ c.Remembers (some text) d

private theorem sound_empty : Sound .empty := nofun

variable {c₁ : Catalog} {shared : Option String}

private theorem Registered.known {r : Registry} {attr : String} (h : Registered r d)
    (ha : d.attr? = some attr) :
    r.get? attr ≠ none := by
  rcases h with ⟨-, hnone⟩ | ⟨style, attr', -, hsheet, hknown⟩
  · rw [Definition.attr?, hnone] at ha
    cases ha
  · rw [Definition.attr?, hsheet] at ha
    cases ha
    rw [hknown]
    nofun

private theorem Remembers.apart_of_new (h : c.Remembers shared d) (hnew : New c d') : Apart d d' :=
  ⟨fun he => by have := h.number; have := hnew.number; omega,
    fun attr hd hd' => h.registered.known hd (hnew.attr attr hd')⟩

private theorem Compiled.kept?_eq (h : Compiled c text d c₁) (text' : String) :
    c₁.kept? text' = c.kept? text' := by
  rw [kept?, kept?, h.kept]

private theorem Remembers.compiled (h : c.Remembers shared d) (hd : Compiled c text d' c₁) :
    c₁.Remembers shared d where
  number := by have := h.number; have := hd.count; omega
  registered := h.registered.mono hd.known
  kept text' hs := (hd.kept?_eq text').trans (h.kept text' hs)
  apart text' d₁ hk := h.apart text' d₁ ((hd.kept?_eq text').symm.trans hk)

private theorem Remembers.keep (h : c.Remembers shared d) (hnone : c.kept? text = none)
    (hd : Apart d d') :
    { c with kept := (text, d') :: c.kept }.Remembers shared d where
  number := h.number
  registered := h.registered
  kept text' hs := by
    have hkept := h.kept text' hs
    rw [kept?_cons, if_neg]
    · exact hkept
    · rintro rfl
      cases hnone.symm.trans hkept
  apart text' d₁ hk := by
    rw [kept?_cons] at hk
    split at hk
    · cases hk
      exact .inr hd
    · exact h.apart text' d₁ hk

/-- A view that has just been compiled is remembered. -/
private theorem Compiled.remembers (hd : Compiled c text d c₁) (hc : Sound c) :
    c₁.Remembers none d where
  number := by have := hd.count; have := hd.new.number; omega
  registered := hd.registered
  kept := nofun
  apart text' d' hk := .inr ((hc text' d' ((hd.kept?_eq text').symm.trans hk)).2.apart_of_new hd.new).symm

private theorem Remembers.keep_self (h : c.Remembers none d) :
    { c with kept := (text, d) :: c.kept }.Remembers (some text) d where
  number := h.number
  registered := h.registered
  kept text' hs := by
    cases hs
    rw [kept?_cons, if_pos rfl]
  apart text' d' hk := by
    rw [kept?_cons] at hk
    split at hk
    · next he => exact .inl (congrArg some he)
    · exact .inr ((h.apart text' d' hk).resolve_left nofun)

/-- What is remembered before a request is remembered after it. -/
private theorem Remembers.answer (h : c.Remembers shared d) (hr : r.answer c = .ok d' c') :
    c'.Remembers shared d := by
  rcases answer_cases hr with ⟨-, -, rfl⟩ | ⟨hnone, c₁, hd, rfl⟩
  · exact h
  · have h₁ := h.compiled hd
    split
    · next hcached =>
      exact h₁.keep ((hd.kept?_eq _).trans (hnone hcached)) (h.apart_of_new hd.new)
    · exact h₁

/-- The view that a request gets is that of its text, and is remembered. -/
private theorem Sound.remembers (hc : Sound c) (hr : r.answer c = .ok d c') :
    d.source = Source.split r.text ∧ c'.Remembers r.shared? d := by
  rw [Request.shared?]
  rcases answer_cases hr with ⟨hcached, hkept, rfl⟩ | ⟨hnone, c₁, hd, rfl⟩
  · rw [if_pos hcached]
    exact hc r.text d hkept
  · refine ⟨hd.source, ?_⟩
    split
    · exact (hd.remembers hc).keep_self
    · exact hd.remembers hc

private theorem Sound.answer (hc : Sound c) (hr : r.answer c = .ok d c') : Sound c' := by
  intro text d' hk
  have hd := hc.remembers hr
  rcases answer_cases hr with ⟨-, -, rfl⟩ | ⟨hnone, c₁, hcompiled, rfl⟩
  · exact hc text d' hk
  · have hold (h : c₁.kept? text = some d') := hc text d' ((hcompiled.kept?_eq text).symm.trans h)
    split at hk
    · next hcached =>
      rw [kept?_cons] at hk
      split at hk
      · next he =>
        subst he
        cases hk
        rw [Request.shared?, if_pos hcached, if_pos hcached] at hd
        rw [if_pos hcached]
        exact hd
      · exact ⟨(hold hk).1, (hold hk).2.answer hr⟩
    · exact ⟨(hold hk).1, (hold hk).2.answer hr⟩

/-- A request loses no entry of the registry. -/
private theorem answer_extends (hr : r.answer c = .ok d c') : Extends c.registry c'.registry := by
  rcases answer_cases hr with ⟨-, -, rfl⟩ | ⟨-, c₁, hd, rfl⟩
  · exact .refl _
  · split
    · exact hd.known
    · exact hd.known

/-! Failures. -/

private theorem mapError_ne_attributesTaken {α : Type} (m : Except CompileError α) :
    m.mapError DefinitionError.compile ≠ .error .attributesTaken := by
  cases m with
  | error e => nofun
  | ok a => nofun

private theorem fresh?_ne_none {registry : Registry} {identifier : String}
    (hmem : identifier ∈ identifiers) (hfresh : registry.get? (beginning ++ identifier) = none) :
    registry.fresh? beginning identifiers ≠ none := by
  intro h
  have := List.find?_eq_none.1 h _ (List.mem_map_of_mem hmem)
  rw [hfresh] at this
  exact this rfl

/-- A view whose style is given a fresh identifier compiles, unless its markup or its script does not. -/
private theorem compile_ne_attributesTaken {identifier : String} (hmem : identifier ∈ identifiers)
    (hfresh : c.registry.get? (beginning ++ identifier) = none) :
    c.compile beginning identifiers text ≠ .error .attributesTaken := by
  intro h
  rw [compile] at h
  obtain h | ⟨template, -, h⟩ := exists_of_bind_error h
  · exact mapError_ne_attributesTaken _ h
  · dsimp only at h
    split at h
    all_goals
      obtain h | ⟨script, -, h⟩ := exists_of_bind_error h
      · first
        | exact mapError_ne_attributesTaken _ h
        | cases h
      · split at h
        · cases h
        · split at h
          · next hadd => exact fresh?_ne_none hmem hfresh (Option.map_eq_none_iff.1 hadd)
          · cases h

private theorem answer_ne_attributesTaken {identifier : String} (hmem : identifier ∈ r.identifiers)
    (hfresh : c.registry.get? (r.beginning ++ identifier) = none) :
    r.answer c ≠ .error .attributesTaken c' := by
  intro h
  obtain ⟨h, -⟩ := settled_eq_error ((answer_eq r c).symm.trans h)
  suffices h : c.compile r.beginning r.identifiers r.text = .error .attributesTaken from
    compile_ne_attributesTaken hmem hfresh h
  split at h
  · rw [fetch] at h
    split at h
    · cases h
    · cases hcompile : c.compile r.beginning r.identifiers r.text with
      | error e =>
        rw [hcompile] at h
        cases h
        rfl
      | ok p =>
        rw [hcompile] at h
        cases h
  · exact h

end Catalog

/-! Whole courses of requests. -/

namespace Served

open Catalog

variable {a b : Served} {d d' : Definition} {c : Catalog}

private theorem left_of_ok (h : a.outcome = .ok d c) : a.left = c := by
  rw [left, h]

private theorem left_of_error {e : DefinitionError} (h : a.outcome = .error e c) :
    a.left = a.found := by
  rw [left, h]
  exact eq_of_answer_error h

/-- What a successful answer preserves, a request preserves, however it ends. -/
private theorem left_induction {P : Catalog → Prop}
    (hstep : ∀ d c, a.request.answer a.found = .ok d c → P c) (h : P a.found) : P a.left := by
  cases ha : a.outcome with
  | ok d c => exact left_of_ok ha ▸ hstep d c ha
  | error e c => exact (left_of_error ha).symm ▸ h

private theorem found_extends (a : Served) : Extends a.found.registry a.left.registry :=
  left_induction (P := fun c => Extends a.found.registry c.registry) (fun _ _ hr => answer_extends hr)
    (.refl _)

/-- What a request comes to by itself. It loses no entry of the registry. A view that it gets is that of
its text, and the registry has the scoped style of the view under its attribute. If it fails, nothing has
been done, and where a fresh identifier is drawn it fails only because something does not compile. -/
structure Proper (a : Served) : Prop where
  known : Extends a.found.registry a.left.registry
  source : ∀ d c, a.outcome = .ok d c → d.source = Source.split a.request.text
  registered : ∀ d c, a.outcome = .ok d c → Registered c.registry d
  undone : ∀ e c, a.outcome = .error e c → c = a.found
  failure : ∀ e c, a.outcome = .error e c → ∀ identifier ∈ a.request.identifiers,
    a.found.registry.get? (a.request.beginning ++ identifier) = none → ∃ e', e = .compile e'

private theorem proper_of_sound (h : Sound a.found) : a.Proper where
  known := a.found_extends
  source _ _ ha := (h.remembers ha).1
  registered _ _ ha := (h.remembers ha).2.registered
  undone _ _ ha := eq_of_answer_error ha
  failure e c ha identifier hmem hfresh := by
    cases e with
    | compile e => exact ⟨e, rfl⟩
    | attributesTaken => exact absurd ha (answer_ne_attributesTaken hmem hfresh)

/-- Two requests are cached ones for the same text. -/
def Alike (a b : Served) : Prop :=
  a.request.cached = true ∧ b.request.cached = true ∧ a.request.text = b.request.text

/-- What a request means to a later one. The registry still has what it had. A cached request for the text
of an earlier one that has succeeded gets the same view and does nothing; all other views are apart. -/
structure Precedes (a b : Served) : Prop where
  known : Extends a.left.registry b.found.registry
  same : ∀ d c, a.outcome = .ok d c → Alike a b → b.outcome = .ok d b.found
  apart : ∀ d c d' c', a.outcome = .ok d c → ¬ Alike a b → b.outcome = .ok d' c' → Apart d d'

private theorem outcome_of_kept (hcached : b.request.cached = true)
    (hkept : b.found.kept? b.request.text = some d) : b.outcome = .ok d b.found := by
  rw [outcome, answer_eq, if_pos hcached, fetch, hkept]
  rfl

private theorem precedes_of_remembers (hknown : Extends a.left.registry b.found.registry)
    (h : ∀ d c, a.outcome = .ok d c → b.found.Remembers a.request.shared? d) : a.Precedes b where
  known := hknown
  same d c ha hab := by
    obtain ⟨hcached, hcached', htext⟩ := hab
    refine outcome_of_kept hcached' ((h d c ha).kept _ ?_)
    rw [Request.shared?, if_pos hcached, htext]
  apart d c d' c' ha hab hb := by
    rcases answer_cases hb with ⟨hcached', hkept, -⟩ | ⟨-, c₁, hcompiled, -⟩
    · refine ((h d c ha).apart _ d' hkept).resolve_left fun hshared => hab ?_
      rw [Request.shared?] at hshared
      split at hshared
      · next hcached => exact ⟨hcached, hcached', Option.some.inj hshared⟩
      · cases hshared
    · exact (h d c ha).apart_of_new hcompiled.new

end Served

namespace Catalog

variable {c : Catalog} {d : Definition}

/-- What every successful answer preserves holds of all the catalogs that requests find. -/
private theorem serve_induction {P : Catalog → Prop}
    (hstep : ∀ r c d c', P c → Request.answer r c = .ok d c' → P c') :
    ∀ (rs : List Request) (c : Catalog), P c → ∀ a ∈ c.serve rs, P a.found
  | [], _, _, _, ha => nomatch ha
  | r :: rs, c, h, a, ha => by
    rcases List.mem_cons.1 ha with rfl | ha
    · exact h
    · exact serve_induction hstep rs _
        (Served.left_induction (fun d c' hr => hstep r c d c' h hr) h) a ha

private theorem serve_sound (rs : List Request) (hc : Sound c) : ∀ a ∈ c.serve rs, Sound a.found :=
  serve_induction (fun _ _ _ _ h hr => h.answer hr) rs c hc

private theorem serve_extends (rs : List Request) (c : Catalog) :
    ∀ a ∈ c.serve rs, Extends c.registry a.found.registry :=
  serve_induction (P := fun c' => Extends c.registry c'.registry)
    (fun _ _ _ _ h hr => Extends.trans h (answer_extends hr)) rs c (Extends.refl _)

private theorem serve_remembers (rs : List Request) {shared : Option String}
    (h : c.Remembers shared d) :
    ∀ a ∈ c.serve rs, a.found.Remembers shared d :=
  serve_induction (P := fun c' => c'.Remembers shared d) (fun _ _ _ _ h hr => h.answer hr) rs c h

private theorem serve_pairwise (rs : List Request) (hc : Sound c) :
    (c.serve rs).Pairwise Served.Precedes := by
  induction rs generalizing c with
  | nil => exact .nil
  | cons r rs ih =>
    rw [serve]
    refine .cons (fun b hb => ?_) (ih (Served.left_induction (fun _ _ hr => hc.answer hr) hc))
    refine Served.precedes_of_remembers (serve_extends rs _ b hb) fun d c' ha => ?_
    refine serve_remembers rs ?_ b hb
    rw [Served.left_of_ok ha]
    exact (hc.remembers ha).2

/-- Every request of a course is proper, and means to the later ones what it should. -/
theorem serve_upheld (rs : List Request) :
    (∀ a ∈ empty.serve rs, a.Proper) ∧ (empty.serve rs).Pairwise Served.Precedes :=
  ⟨fun a ha => Served.proper_of_sound (serve_sound rs sound_empty a ha), serve_pairwise rs sound_empty⟩

end Catalog

end LiveMarkup
