/-!
# Dictionaries

A finite map with text keys. The entries stand in strictly ascending order of their keys, so a dictionary has one form and its
keys are listed in order. `get?_insert`, `get?_erase`, `get?_mapValues` and `get?_modify` say what each operation does to the
look-up.
-/

namespace BlockScript

/-- A finite map from text, kept in strictly ascending order of keys. -/
structure Dictionary (α : Type u) where
  entries : List (String × α)
  ascending : entries.Pairwise (fun a b => a.1 < b.1)

namespace Dictionary

variable {α : Type u}

/-- The dictionary without entries. -/
def empty : Dictionary α := ⟨[], .nil⟩

instance : EmptyCollection (Dictionary α) := ⟨empty⟩
instance : Inhabited (Dictionary α) := ⟨empty⟩

/-- Puts an entry into its place, over an entry of the same key. -/
def insertEntry (key : String) (value : α) : List (String × α) → List (String × α)
  | [] => [(key, value)]
  | (k, v) :: rest =>
    if key < k then (key, value) :: (k, v) :: rest
    else if key = k then (key, value) :: rest
    else (k, v) :: insertEntry key value rest

/-- What is in a list after an insertion was inserted or was there. -/
theorem mem_insertEntry {key : String} {value : α} {e : String × α} {entries : List (String × α)}
    (h : e ∈ insertEntry key value entries) : e = (key, value) ∨ e ∈ entries := by
  induction entries with
  | nil => simpa [insertEntry] using h
  | cons a rest ih =>
    simp only [insertEntry] at h
    split at h
    · simpa using h
    · split at h
      · rcases List.mem_cons.1 h with h | h
        · exact .inl h
        · exact .inr (List.mem_cons_of_mem _ h)
      · rcases List.mem_cons.1 h with h | h
        · exact .inr (h ▸ List.mem_cons_self)
        · exact (ih h).imp id (List.mem_cons_of_mem _)

/-- Inserting keeps the keys in order and apart. -/
theorem ascending_insertEntry {entries : List (String × α)} (key : String) (value : α)
    (h : entries.Pairwise (fun a b => a.1 < b.1)) :
    (insertEntry key value entries).Pairwise (fun a b => a.1 < b.1) := by
  induction entries with
  | nil => simp [insertEntry]
  | cons a rest ih =>
    obtain ⟨ha, hrest⟩ := List.pairwise_cons.1 h
    simp only [insertEntry]
    split
    · rename_i hlt
      refine List.pairwise_cons.2 ⟨fun b hb => ?_, h⟩
      rcases List.mem_cons.1 hb with rfl | hb
      · exact hlt
      · exact String.lt_trans hlt (ha b hb)
    · rename_i hge
      split
      · rename_i heq
        exact List.pairwise_cons.2 ⟨fun b hb => heq ▸ ha b hb, hrest⟩
      · rename_i hne
        refine List.pairwise_cons.2 ⟨fun b hb => ?_, ih hrest⟩
        rcases mem_insertEntry hb with rfl | hb
        · rcases String.le_total key a.1 with hle | hle
          · exact absurd (String.le_antisymm hle (String.not_lt.1 hge)) hne
          · exact Decidable.byContradiction fun hn => hne (String.le_antisymm (String.not_lt.1 hn) hle)
        · exact ha b hb

/-- Puts a value under a key, over an earlier one. -/
def insert (d : Dictionary α) (key : String) (value : α) : Dictionary α :=
  ⟨insertEntry key value d.entries, ascending_insertEntry key value d.ascending⟩

/-- The value under a key. -/
def get? (d : Dictionary α) (key : String) : Option α := d.entries.lookup key

/-- The value under a key, or a given one where the key is absent. -/
def getD (d : Dictionary α) (key : String) (default : α) : α := (d.get? key).getD default

/-- Whether a key is present. -/
def contains (d : Dictionary α) (key : String) : Bool := (d.get? key).isSome

/-- Takes a key out. -/
def erase (d : Dictionary α) (key : String) : Dictionary α :=
  ⟨d.entries.filter (fun e => e.1 != key), d.ascending.filter _⟩

/-- The entries whose keys satisfy a test. -/
def filterKeys (test : String → Bool) (d : Dictionary α) : Dictionary α :=
  ⟨d.entries.filter (fun e => test e.1), d.ascending.filter _⟩

/-- Changes every value; the keys stay. -/
def mapValues (f : String → α → β) (d : Dictionary α) : Dictionary β :=
  ⟨d.entries.map (fun e => (e.1, f e.1 e.2)), List.pairwise_map.2 d.ascending⟩

/-- Changes the value under a key; nothing changes where the key is absent. -/
def modify (d : Dictionary α) (key : String) (f : α → α) : Dictionary α :=
  d.mapValues fun k v => if k = key then f v else v

/-- The keys, in ascending order. -/
def keys (d : Dictionary α) : List String := d.entries.map (·.1)

/-- The entries, in ascending order of keys. -/
def toList (d : Dictionary α) : List (String × α) := d.entries

/-- Sorts things into lists under their keys; each list keeps the order of its things. -/
def group (key : α → String) (things : List α) : Dictionary (List α) :=
  things.foldl (fun d a => d.insert (key a) (d.getD (key a) [] ++ [a])) ∅

/-- Whether two dictionaries have the same keys with equal values. -/
def same [BEq α] (d e : Dictionary α) : Bool := d.entries == e.entries

instance [BEq α] : BEq (Dictionary α) := ⟨same⟩

/-! ## What the operations do to the look-up -/

/-- A lookup asks the first entry first. -/
theorem lookup_cons {k k' : String} {v : α} {rest : List (String × α)} :
    ((k', v) :: rest).lookup k = if k = k' then some v else rest.lookup k := by
  by_cases h : k = k'
  · simp [h]
  · have hne : (k == k') = false := by simpa using h
    simp [List.lookup_cons, hne, h]

/-- The key that was inserted has the new value, and the others have what they had. -/
theorem get?_insert (d : Dictionary α) (key k : String) (value : α) :
    (d.insert key value).get? k = if k = key then some value else d.get? k := by
  suffices h : ∀ entries : List (String × α),
      (insertEntry key value entries).lookup k = if k = key then some value else entries.lookup k from h d.entries
  intro entries
  induction entries with
  | nil => simp [insertEntry, lookup_cons]
  | cons e rest ih =>
    obtain ⟨k', v⟩ := e
    simp only [insertEntry]
    split
    · exact lookup_cons
    · split
      · rename_i hkey
        subst hkey
        by_cases hk : k = key <;> simp [lookup_cons, hk]
      · rename_i hkey
        by_cases hk : k = k'
        · subst hk
          simp [Ne.symm hkey]
        · simp [lookup_cons, hk, ih]

/-- The key that was taken out has no value, and the others have what they had. -/
theorem get?_erase (d : Dictionary α) (key k : String) :
    (d.erase key).get? k = if k = key then none else d.get? k := by
  suffices h : ∀ entries : List (String × α),
      (entries.filter fun e => e.1 != key).lookup k = if k = key then none else entries.lookup k from h d.entries
  intro entries
  induction entries with
  | nil => simp
  | cons e rest ih =>
    obtain ⟨k', v⟩ := e
    by_cases hkey : k' = key
    · subst hkey
      by_cases hk : k = k'
      · simpa [hk] using ih
      · simp [lookup_cons, hk, ih]
    · by_cases hk : k = k'
      · subst hk
        simp [hkey]
      · simp [lookup_cons, hkey, hk, ih]

/-- Each key has what is made of its value. -/
theorem get?_mapValues (f : String → α → β) (d : Dictionary α) (k : String) :
    (d.mapValues f).get? k = (d.get? k).map (f k) := by
  suffices h : ∀ entries : List (String × α),
      (entries.map fun e => (e.1, f e.1 e.2)).lookup k = (entries.lookup k).map (f k) from h d.entries
  intro entries
  induction entries with
  | nil => rfl
  | cons e rest ih =>
    obtain ⟨k', v⟩ := e
    by_cases hk : k = k'
    · subst hk
      simp
    · simp [lookup_cons, hk, ih]

/-- The key has what is made of its value, if it has one, and the others have what they had. -/
theorem get?_modify (d : Dictionary α) (key k : String) (f : α → α) :
    (d.modify key f).get? k = if k = key then (d.get? k).map f else d.get? k := by
  rw [modify, get?_mapValues]
  by_cases hk : k = key <;> simp [hk]

end Dictionary

end BlockScript
