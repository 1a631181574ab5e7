/-!
# Named values

`Named α` holds values under distinct names, in the order of the names. Two of them with
the same value under every name are equal (`Named.ext`).
-/

namespace ColumnFormula

structure Named (α : Type) where
  entries : List (String × α)
  increasing : entries.Pairwise (·.1 < ·.1)

namespace Named

variable {α β : Type}

instance [DecidableEq α] : DecidableEq (Named α) := fun a b =>
  decidable_of_iff (a.entries = b.entries)
    ⟨fun h => by cases a; cases b; simpa using h, congrArg _⟩

def empty : Named α := ⟨[], .nil⟩

instance : Inhabited (Named α) := ⟨empty⟩

def names (m : Named α) : List String := m.entries.map (·.1)

/-! ## Reading -/

def find? (name : String) : List (String × α) → Option α
  | [] => none
  | (k, v) :: rest => if k = name then some v else find? name rest

def get? (m : Named α) (name : String) : Option α := find? name m.entries

/-- Every entry's name is beyond `name`. -/
def Above (name : String) (entries : List (String × α)) : Prop := ∀ e ∈ entries, name < e.1

theorem find?_eq_none {name : String} {entries : List (String × α)} (h : Above name entries) :
    find? name entries = none := by
  induction entries with
  | nil => rfl
  | cons e rest ih =>
    obtain ⟨k, v⟩ := e
    have hk : name < k := h _ (List.mem_cons_self ..)
    have : k ≠ name := fun hc => String.lt_irrefl name (hc ▸ hk)
    simpa [find?, this] using ih fun e he => h e (List.mem_cons_of_mem _ he)

theorem find?_isSome {name : String} {entries : List (String × α)} :
    (find? name entries).isSome ↔ name ∈ entries.map (·.1) := by
  induction entries with
  | nil => simp [find?]
  | cons e rest ih =>
    obtain ⟨k, v⟩ := e
    by_cases hk : k = name
    · simp [find?, hk]
    · simpa [find?, hk, Ne.symm hk] using ih

theorem get?_isSome {m : Named α} {name : String} : (m.get? name).isSome ↔ name ∈ m.names :=
  find?_isSome

theorem mem_of_get? {m : Named α} {name : String} {value : α} (h : m.get? name = some value) :
    (name, value) ∈ m.entries := by
  unfold get? at h
  generalize m.entries = entries at h
  induction entries with
  | nil => cases h
  | cons entry rest ih =>
    unfold find? at h
    split at h
    · rename_i hn
      cases h
      exact hn ▸ List.mem_cons_self
    · exact List.mem_cons_of_mem _ (ih h)

theorem get?_of_mem {m : Named α} {name : String} {value : α} (h : (name, value) ∈ m.entries) :
    m.get? name = some value := by
  have increasing := m.increasing
  unfold get?
  generalize m.entries = entries at h increasing
  induction entries with
  | nil => cases h
  | cons entry rest ih =>
    obtain ⟨above, further⟩ := List.pairwise_cons.1 increasing
    unfold find?
    rcases List.mem_cons.1 h with rfl | h
    · exact if_pos rfl
    · have before : entry.1 < name := above _ h
      have other : entry.1 ≠ name := fun same => String.lt_irrefl name (same ▸ before)
      rw [if_neg other]
      exact ih h further

theorem get?_eq_some_iff {m : Named α} {name : String} {value : α} :
    m.get? name = some value ↔ (name, value) ∈ m.entries :=
  ⟨mem_of_get?, get?_of_mem⟩

theorem get?_eq_none_iff {m : Named α} {name : String} :
    m.get? name = none ↔ ∀ value, (name, value) ∉ m.entries := by
  simp only [← get?_eq_some_iff]
  exact Option.eq_none_iff_forall_ne_some

/-! ## Writing -/

def put (name : String) (value : α) : List (String × α) → List (String × α)
  | [] => [(name, value)]
  | (k, v) :: rest =>
    if name < k then (name, value) :: (k, v) :: rest
    else if k = name then (name, value) :: rest
    else (k, v) :: put name value rest

def drop (name : String) (entries : List (String × α)) : List (String × α) :=
  entries.filter (·.1 ≠ name)

theorem mem_put {name : String} {value : α} {entries : List (String × α)} {e : String × α}
    (h : e ∈ put name value entries) : e.1 = name ∨ e ∈ entries := by
  induction entries with
  | nil => simp [put] at h; simp [h]
  | cons f rest ih =>
    obtain ⟨k, v⟩ := f
    unfold put at h
    split at h
    · grind
    · split at h <;> grind

theorem pairwise_put {name : String} {value : α} {entries : List (String × α)}
    (h : entries.Pairwise (·.1 < ·.1)) : (put name value entries).Pairwise (·.1 < ·.1) := by
  induction entries with
  | nil => simp [put]
  | cons f rest ih =>
    obtain ⟨k, v⟩ := f
    obtain ⟨hk, hrest⟩ := List.pairwise_cons.1 h
    unfold put
    split
    · next hlt =>
      refine List.pairwise_cons.2 ⟨fun e he => ?_, h⟩
      rcases List.mem_cons.1 he with rfl | he
      · exact hlt
      · exact String.lt_trans hlt (hk e he)
    · next hlt =>
      split
      · next heq => subst heq; exact List.pairwise_cons.2 ⟨hk, hrest⟩
      · next hne =>
        refine List.pairwise_cons.2 ⟨fun e he => ?_, ih hrest⟩
        rcases mem_put he with rfl | he
        · grind
        · exact hk e he

def insert (m : Named α) (name : String) (value : α) : Named α :=
  ⟨put name value m.entries, pairwise_put m.increasing⟩

def erase (m : Named α) (name : String) : Named α :=
  ⟨drop name m.entries, m.increasing.filter _⟩

/-- The value given, or nothing, under the name. -/
def set (m : Named α) (name : String) : Option α → Named α
  | some value => m.insert name value
  | none => m.erase name

def ofList (entries : List (String × α)) : Named α :=
  entries.foldl (fun m e => m.insert e.1 e.2) empty

theorem find?_put {name key : String} {value : α} {entries : List (String × α)} :
    find? key (put name value entries) = if key = name then some value else find? key entries := by
  induction entries with
  | nil => grind [put, find?]
  | cons f rest ih => grind [put, find?]

@[simp] theorem get?_empty (key : String) : (empty : Named α).get? key = none := rfl

theorem get?_insert (m : Named α) (name key : String) (value : α) :
    (m.insert name value).get? key = if key = name then some value else m.get? key :=
  find?_put

theorem find?_drop {name key : String} {entries : List (String × α)} :
    find? key (drop name entries) = if key = name then none else find? key entries := by
  induction entries with
  | nil => simp [drop, find?]
  | cons f rest ih =>
    obtain ⟨k, v⟩ := f
    by_cases hk : k = name
    · subst hk
      by_cases h : key = k
      · simpa [drop, h] using ih
      · simpa [drop, find?, h, eq_comm] using ih
    · have : drop name ((k, v) :: rest) = (k, v) :: drop name rest := by simp [drop, hk]
      rw [this]
      by_cases h : k = key
      · subst h; simp [find?, hk]
      · simp [find?, h, ih]

theorem get?_erase (m : Named α) (name key : String) :
    (m.erase name).get? key = if key = name then none else m.get? key :=
  find?_drop

@[simp] theorem get?_set (m : Named α) (name key : String) (value : Option α) :
    (m.set name value).get? key = if key = name then value else m.get? key := by
  cases value with
  | none => exact get?_erase ..
  | some v => exact get?_insert ..

/-! ## Equality -/

theorem eq_of_find? {a b : List (String × α)} (ha : a.Pairwise (·.1 < ·.1))
    (hb : b.Pairwise (·.1 < ·.1)) (h : ∀ key, find? key a = find? key b) : a = b := by
  induction a generalizing b with
  | nil =>
    cases b with
    | nil => rfl
    | cons f rest => simpa [find?] using h f.1
  | cons e as ih =>
    obtain ⟨k, v⟩ := e
    cases b with
    | nil => simpa [find?] using h k
    | cons f bs =>
      obtain ⟨l, w⟩ := f
      obtain ⟨hka, has⟩ := List.pairwise_cons.1 ha
      obtain ⟨hlb, hbs⟩ := List.pairwise_cons.1 hb
      have hkl : k = l := by
        apply Classical.byContradiction
        intro hne
        have h1 := h k
        have h2 := h l
        simp only [find?, if_true, hne, Ne.symm hne, if_false] at h1 h2
        have m1 : k ∈ bs.map (·.1) := find?_isSome.1 (by simp [← h1])
        have m2 : l ∈ as.map (·.1) := find?_isSome.1 (by simp [h2])
        obtain ⟨x, hx, rfl⟩ := List.mem_map.1 m1
        obtain ⟨y, hy, rfl⟩ := List.mem_map.1 m2
        exact String.lt_irrefl _ (String.lt_trans (hlb x hx) (hka y hy))
      subst hkl
      have hvw : v = w := by simpa [find?] using h k
      subst hvw
      congr 1
      refine ih has hbs fun key => ?_
      by_cases hk : k = key
      · subst hk
        rw [find?_eq_none hka, find?_eq_none hlb]
      · simpa [find?, hk] using h key

theorem ext {a b : Named α} (h : ∀ key, a.get? key = b.get? key) : a = b := by
  have := eq_of_find? a.increasing b.increasing h
  cases a; cases b; simpa using this

end Named

end ColumnFormula
