import LiveMarkup.View.Definition

/-! The views that a catalog gives out. Each of those with a style has an attribute of its own, which the
registry of the catalog knows from then on. -/

namespace LiveMarkup.Catalog

open Style (Registry Stylesheet)

variable {c c' : Catalog} {d : Definition} {ds : List Definition}

/-- The views that a catalog has given out, latest first. -/
inductive Given : Catalog → List Definition → Prop where
  | empty : Given .empty []
  | fetch {c c' : Catalog} {ds : List Definition} {d : Definition} (h : Given c ds) (keep : Bool)
    (beginning : String) (identifiers : List String) (text : String)
    (hd : c.fetch keep beginning identifiers text = .ok (d, c')) : Given c' (d :: ds)

def Extends (r r' : Registry) : Prop := ∀ attr css, r.get? attr = some css → r'.get? attr = some css

/-- Either a view has neither a style nor a stylesheet, or its style has been scoped to an attribute that
the registry knows it by. -/
def Registered (r : Registry) (d : Definition) : Prop :=
  d.source.style = none ∧ d.stylesheet = none ∨
    ∃ style attr, d.source.style = some style ∧ d.stylesheet = some ⟨attr, Style.scope style attr⟩ ∧
      r.get? attr = some (Style.scope style attr)

theorem Registered.mono {r r' : Registry} (h : Registered r d) (hr : Extends r r') :
    Registered r' d := by
  rcases h with h | ⟨style, attr, hstyle, hsheet, hknown⟩
  · exact .inl h
  · exact .inr ⟨style, attr, hstyle, hsheet, hr attr _ hknown⟩

/-- The attribute of a stylesheet is a new one, so whatever was known still is. -/
private theorem add?_extends {r r' : Registry} {beginning style : String} {identifiers : List String}
    {sheet : Stylesheet} (h : r.add? beginning identifiers style = some (sheet, r')) :
    Extends r r' ∧ sheet.css = Style.scope style sheet.attr ∧
      r'.get? sheet.attr = some sheet.css := by
  obtain ⟨attr, hfresh, he⟩ := Option.map_eq_some_iff.1 h
  cases he
  refine ⟨fun attr' css hknown => ?_, rfl, ?_⟩
  · have hne : attr ≠ attr' := by
      rintro rfl
      rw [Registry.get?_fresh? hfresh] at hknown
      cases hknown
    rw [Registry.get?, List.find?_cons, beq_false_of_ne hne]
    exact hknown
  · rw [Registry.get?, List.find?_cons, beq_self_eq_true]
    rfl

/-- A step that succeeds before another one. -/
theorem exists_of_bind {ε α β : Type} {m : Except ε α} {f : α → Except ε β} {b : β}
    (h : m >>= f = .ok b) : ∃ a, f a = .ok b := by
  cases m with
  | error e => cases h
  | ok a => exact ⟨a, h⟩

/-- A step that fails, or another one after it. -/
theorem exists_of_bind_error {ε α β : Type} {m : Except ε α} {f : α → Except ε β} {e : ε}
    (h : m >>= f = .error e) : m = .error e ∨ ∃ a, m = .ok a ∧ f a = .error e := by
  cases m with
  | error e' =>
    cases h
    exact .inl rfl
  | ok a => exact .inr ⟨a, rfl, h⟩

theorem compile_registered {beginning text : String} {identifiers : List String}
    (h : c.compile beginning identifiers text = .ok (d, c')) :
    c'.kept = c.kept ∧ Extends c.registry c'.registry ∧ Registered c'.registry d := by
  rw [compile] at h
  obtain ⟨template, h⟩ := exists_of_bind h
  dsimp only at h
  -- what is done about the style is the same whether or not there is a script
  split at h
  all_goals
    obtain ⟨script, h⟩ := exists_of_bind h
    split at h
    · next hstyle =>
      cases h
      exact ⟨rfl, fun _ _ h => h, .inl ⟨hstyle, rfl⟩⟩
    · next style hstyle =>
      split at h
      · cases h
      · next sheet registry hadd =>
        cases h
        obtain ⟨hextends, hcss, hknown⟩ := add?_extends hadd
        refine ⟨rfl, hextends, .inr ⟨style, sheet.attr, hstyle, ?_, hcss ▸ hknown⟩⟩
        rw [← hcss]

/-- All views that have been given out or are kept are registered. -/
theorem Given.registered (h : Given c ds) :
    (∀ d ∈ ds, Registered c.registry d) ∧ ∀ e ∈ c.kept, Registered c.registry e.2 := by
  induction h with
  | empty => exact ⟨nofun, nofun⟩
  | @fetch c c' ds d h keep beginning identifiers text hd ih =>
    rw [Catalog.fetch] at hd
    split at hd
    · next hkept =>
      cases hd
      obtain ⟨e, hfind, rfl⟩ := Option.map_eq_some_iff.1 hkept
      exact ⟨List.forall_mem_cons.2 ⟨ih.2 e (List.mem_of_find?_eq_some hfind), ih.1⟩, ih.2⟩
    · cases hcompile : c.compile beginning identifiers text with
      | error e =>
        rw [hcompile] at hd
        cases hd
      | ok r =>
        obtain ⟨d', c₁⟩ := r
        obtain ⟨hkept, hextends, hnew⟩ := compile_registered hcompile
        rw [hcompile] at hd
        cases keep with
        | false =>
          cases hd
          rw [hkept]
          exact ⟨List.forall_mem_cons.2 ⟨hnew, fun d hd => (ih.1 d hd).mono hextends⟩,
            fun e he => (ih.2 e he).mono hextends⟩
        | true =>
          cases hd
          refine ⟨List.forall_mem_cons.2 ⟨hnew, fun d hd => (ih.1 d hd).mono hextends⟩, ?_⟩
          rw [hkept]
          exact List.forall_mem_cons.2 ⟨hnew, fun e he => (ih.2 e he).mono hextends⟩

/-- Views that share an attribute share the whole stylesheet. -/
theorem Given.sheet_eq (h : Given c ds) {d d' : Definition} {sheet sheet' : Stylesheet}
    (hd : d ∈ ds) (hd' : d' ∈ ds) (hs : d.stylesheet = some sheet) (hs' : d'.stylesheet = some sheet')
    (ha : sheet.attr = sheet'.attr) : sheet = sheet' := by
  have hknown {d : Definition} {sheet : Stylesheet} (hd : d ∈ ds) (hs : d.stylesheet = some sheet) :
      c.registry.get? sheet.attr = some sheet.css := by
    rcases h.registered.1 d hd with ⟨-, hnone⟩ | ⟨style, attr, -, hsome, hknown⟩
    · cases hs.symm.trans hnone
    · cases hs.symm.trans hsome
      exact hknown
  obtain ⟨attr, css⟩ := sheet
  obtain ⟨attr', css'⟩ := sheet'
  cases ha
  have hcss : css = css' := Option.some.inj ((hknown hd hs).symm.trans (hknown hd' hs'))
  rw [hcss]

end LiveMarkup.Catalog
