/-! Dictionaries: entries in increasing order of their keys, so that equal contents are equal
lists and the order of entries never depends on how they were added. -/

namespace LiveMarkup

/-- Entries in increasing order of keys, characters being compared by code point. -/
abbrev Dictionary (α : Type) := List (String × α)

namespace Dictionary

variable {α β : Type}

def get? (d : Dictionary α) (key : String) : Option α := (d.find? fun e => e.1 == key).map (·.2)

def insert (key : String) (value : α) : Dictionary α → Dictionary α
  | [] => [(key, value)]
  | (k, v) :: rest =>
    if key < k then (key, value) :: (k, v) :: rest
    else if key = k then (key, value) :: rest
    else (k, v) :: insert key value rest

def ofEntries (entries : List (String × α)) : Dictionary α :=
  entries.foldl (fun d e => d.insert e.1 e.2) []

def keys (d : Dictionary α) : List String := d.map (·.1)

def values (d : Dictionary α) : List α := d.map (·.2)

@[simp] theorem get?_nil (key : String) : get? ([] : Dictionary α) key = none := rfl

theorem get?_cons (k : String) (v : α) (d : Dictionary α) (key : String) :
    get? ((k, v) :: d) key = if k = key then some v else get? d key := by
  by_cases h : k = key <;> simp [get?, h]

/-- A key that has just been given a value has it, and every other key keeps its own. -/
theorem get?_insert (key : String) (value : α) (d : Dictionary α) (other : String) :
    get? (insert key value d) other = if key = other then some value else get? d other := by
  induction d with
  | nil => simp [insert, get?_cons]
  | cons e rest ih =>
    obtain ⟨k, v⟩ := e
    unfold insert
    split
    · rw [get?_cons]
    · split
      · next h => subst h; simp only [get?_cons]; split <;> rfl
      · next h =>
        simp only [get?_cons, ih]
        by_cases hk : k = other
        · subst hk
          simp [h]
        · simp [hk]

def Sorted (d : Dictionary α) : Prop := d.Pairwise fun a b => a.1 < b.1

theorem mem_insert {key : String} {value : α} {d : Dictionary α} {e : String × α}
    (h : e ∈ insert key value d) : e = (key, value) ∨ e ∈ d := by
  induction d with
  | nil => simpa [insert] using h
  | cons f rest ih =>
    obtain ⟨k, v⟩ := f
    unfold insert at h
    split at h
    · simpa using h
    · split at h
      · rcases List.mem_cons.1 h with h | h
        · exact .inl h
        · exact .inr (List.mem_cons_of_mem _ h)
      · rcases List.mem_cons.1 h with h | h
        · exact .inr (h ▸ List.mem_cons_self)
        · exact (ih h).imp id (List.mem_cons_of_mem _)

/-- Adding an entry keeps the keys in order. -/
private theorem Sorted.insert {d : Dictionary α} (h : d.Sorted) (key : String) (value : α) :
    (d.insert key value).Sorted := by
  induction d with
  | nil => simp [Dictionary.insert, Sorted]
  | cons f rest ih =>
    obtain ⟨k, v⟩ := f
    obtain ⟨hk, hr⟩ := List.pairwise_cons.1 h
    unfold Dictionary.insert
    split
    · next hlt =>
      refine List.pairwise_cons.2 ⟨fun e he => ?_, h⟩
      rcases List.mem_cons.1 he with rfl | he
      · exact hlt
      · exact String.lt_trans hlt (hk e he)
    · next hlt =>
      split
      · next heq =>
        subst heq
        exact List.pairwise_cons.2 ⟨hk, hr⟩
      · next hne =>
        refine List.pairwise_cons.2 ⟨fun e he => ?_, ih hr⟩
        rcases mem_insert he with rfl | he
        · exact Std.lt_of_le_of_ne (String.not_lt.1 hlt) (Ne.symm hne)
        · exact hk e he

/-- Entries make a dictionary whatever their order. -/
theorem sorted_ofEntries (entries : List (String × α)) : (ofEntries entries).Sorted := by
  have step (es : List (String × α)) (d : Dictionary α) (h : d.Sorted) :
      (es.foldl (fun d e => d.insert e.1 e.2) d).Sorted := by
    induction es generalizing d with
    | nil => exact h
    | cons e es ih => exact ih _ (h.insert e.1 e.2)
  exact step entries [] List.Pairwise.nil

end Dictionary

end LiveMarkup
