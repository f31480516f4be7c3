import BlockScript.Proofs.Dictionary
import BlockScript.Table
import Mathlib.Data.Finmap

/-!
# Tables as lists and finite maps

A table behaves as a plain list beside a finite map (`PlainTable`). Each call answers as the plain pair does and leaves a table that stands
for the plain pair that is left (`Table.serve_plain`). From this it follows for all programs that work with any number of tables and copies
of them (`table_refines`), since a program depends on its tables through their answers alone (`Shelf.run_map`). A copy goes its own way:
each table is what its own history of calls makes of an empty one. In particular a field is there exactly if it was written and not taken
out since (`Table.hasField_replay_iff`), whatever it holds.

Two tables are equal exactly if their lists agree place by place and their fields agree name by name (`Table.same_iff`). This does not
depend on the values: where a NaN is stored, it agrees with nothing, and the table is not equal to itself.
-/

namespace BlockScript

/-! ## Calls -/

/-- What is asked of a table. -/
inductive TableCall where
  | add (v : Value)
  | get (index : Int)
  | set (index : Int) (v : Value)
  | values
  | size
  | setField (key : String) (v : Value)
  | getField (key : String)
  /-- A field is changed in place. -/
  | updateField (key : String) (f : Value → Value)
  | hasField (key : String)
  | removeField (key : String)

/-- Whether a call is about the list; all others are about the fields. -/
def TableCall.onList : TableCall → Bool
  | add _ | get _ | set _ _ | values | size => true
  | setField _ _ | getField _ | updateField _ _ | hasField _ | removeField _ => false

/-- What a table answers. -/
inductive TableAnswer where
  | done
  | value (v : Value)
  | written (result : Except TableError Unit)
  | list (vs : List Value)
  | count (n : Nat)
  | truth (b : Bool)
  | removed (v : Option Value)

/-- A table answers a call, and what is left of it. A write that is refused leaves the table as it was. -/
def Table.serve (t : Table) : TableCall → TableAnswer × Table
  | .add v => (.done, t.add v)
  | .get index => (.value (t.get index), t)
  | .set index v =>
    match t.set index v with
    | .ok t' => (.written (.ok ()), t')
    | .error e => (.written (.error e), t)
  | .values => (.list t.values, t)
  | .size => (.count t.size, t)
  | .setField key v => (.done, t.setField key v)
  | .getField key => (.value (t.getField key), t)
  | .updateField key f => (.truth (t.updateField key f).1, (t.updateField key f).2)
  | .hasField key => (.truth (t.hasField key), t)
  | .removeField key => (.removed (t.removeField key).1, (t.removeField key).2)

/-- A plain list beside a finite map. -/
structure PlainTable where
  items : List Value
  fields : Finmap fun _ : String => Value

namespace PlainTable

/-- Nothing in the list, and nothing in the map. -/
def empty : PlainTable := ⟨[], ∅⟩

/-- A place counted from one is in the list. -/
def Inside (p : PlainTable) (index : Int) : Prop := 1 ≤ index ∧ index ≤ p.items.length

instance (p : PlainTable) (index : Int) : Decidable (p.Inside index) := inferInstanceAs (Decidable (_ ∧ _))

/-- A plain pair answers a call, and what is left of it. -/
def serve (p : PlainTable) : TableCall → TableAnswer × PlainTable
  | .add v => (.done, { p with items := p.items ++ [v] })
  | .get index =>
    (.value (if p.Inside index then p.items.getD (index - 1).toNat (.number 0.0) else .number 0.0), p)
  | .set index v =>
    if p.Inside index then (.written (.ok ()), { p with items := p.items.set (index - 1).toNat v })
    else (.written (.error (.indexOutOfRange index p.items.length)), p)
  | .values => (.list p.items, p)
  | .size => (.count p.items.length, p)
  | .setField key v => (.done, { p with fields := p.fields.insert key v })
  | .getField key => (.value ((p.fields.lookup key).getD .nil), p)
  | .updateField key f =>
    match p.fields.lookup key with
    | some v => (.truth true, { p with fields := p.fields.insert key (f v) })
    | none => (.truth false, p)
  | .hasField key => (.truth (decide (key ∈ p.fields)), p)
  | .removeField key => (.removed (p.fields.lookup key), { p with fields := p.fields.erase key })

end PlainTable

namespace Table

variable {t u : Table} {index : Int} {key : String} {v : Value}

/-! ## The plain pair of a table -/

/-- The finite map of some entries. -/
def mapOf (entries : List (String × Value)) : Finmap fun _ : String => Value := (entries.map fun e => ⟨e.1, e.2⟩).toFinmap

/-- The list of a table, and the finite map of its fields. -/
def plain (t : Table) : PlainTable := ⟨t.values, mapOf t.fields.entries⟩

/-- The map of entries finds what the entries do. -/
theorem lookup_mapOf (entries : List (String × Value)) (key : String) : (mapOf entries).lookup key = entries.lookup key := by
  rw [mapOf, Finmap.dlookup_list_toFinmap]
  induction entries with
  | nil => rfl
  | cons e rest ih =>
    by_cases h : key = e.1
    · subst h
      rw [Dictionary.lookup_cons, if_pos rfl, List.map_cons, List.dlookup_cons_eq]
    · rw [Dictionary.lookup_cons, if_neg h, List.map_cons, ← ih]
      exact List.dlookup_cons_ne _ (⟨e.1, e.2⟩ : Sigma fun _ : String => Value) h

/-- The plain form of a table finds the field that the table has. -/
@[simp]
theorem lookup_plain (t : Table) (key : String) : t.plain.fields.lookup key = t.fields.get? key := lookup_mapOf _ _

/-- The plain form of a table has the keys that the table has. -/
theorem mem_plain (t : Table) (key : String) : key ∈ t.plain.fields ↔ t.hasField key = true := by
  rw [← Finmap.lookup_isSome, lookup_plain, hasField, Dictionary.contains]

/-- The indices inside a table go from one to its size. -/
theorem inside_plain_iff : t.plain.Inside index ↔ 1 ≤ index ∧ index ≤ t.size := by
  rw [PlainTable.Inside, plain, values, Array.length_toList, size]

/-- An index has an offset exactly if it is inside. -/
theorem offset?_eq : t.offset? index = if t.plain.Inside index then some (index - 1).toNat else none :=
  if_congr inside_plain_iff.symm rfl rfl

/-- Reading an index gives its item, or zero outside. -/
theorem get_eq : t.get index = if t.plain.Inside index then t.plain.items.getD (index - 1).toNat (.number 0.0) else .number 0.0 := by
  rw [get, offset?_eq]
  split
  · rw [Option.bind_some, ← Array.getElem?_toList, List.getD_eq_getElem?_getD]
    rfl
  · rfl

/-- Writing an index replaces its item, or fails outside. -/
theorem set_eq : t.set index v = if t.plain.Inside index
    then .ok { t with items := t.items.setIfInBounds (index - 1).toNat v } else .error (.indexOutOfRange index t.size) := by
  rw [set, offset?_eq]
  by_cases h : t.plain.Inside index
  · rw [if_pos h, if_pos h]
  · rw [if_neg h, if_neg h]

/-- A table with other fields stands for the list beside the map that has the same look-ups. -/
theorem plain_fields_eq {fields : Dictionary Value} {m : Finmap fun _ : String => Value} (h : ∀ k, fields.get? k = m.lookup k) :
    plain ⟨t.items, fields⟩ = { t.plain with fields := m } := by
  have hfields : mapOf fields.entries = m := Finmap.ext_lookup fun k => (lookup_mapOf _ k).trans (h k)
  rw [plain, hfields]
  rfl

/-- Adding appends an item. -/
theorem plain_add (t : Table) (v : Value) : (t.add v).plain = { t.plain with items := t.plain.items ++ [v] } := by
  simp only [plain, values, add, Array.toList_push]

/-- Setting a field inserts it in the map. -/
theorem plain_setField (t : Table) (key : String) (v : Value) :
    (t.setField key v).plain = { t.plain with fields := t.plain.fields.insert key v } := by
  refine plain_fields_eq fun k => ?_
  rw [Dictionary.get?_insert]
  by_cases hk : k = key
  · rw [if_pos hk, hk, Finmap.lookup_insert]
  · rw [if_neg hk, Finmap.lookup_insert_of_ne _ hk, lookup_plain]

/-- Removing a field erases it from the map. -/
theorem plain_removeField (t : Table) (key : String) :
    (t.removeField key).2.plain = { t.plain with fields := t.plain.fields.erase key } := by
  refine plain_fields_eq fun k => ?_
  rw [Dictionary.get?_erase]
  by_cases hk : k = key
  · rw [if_pos hk, hk, Finmap.lookup_erase]
  · rw [if_neg hk, Finmap.lookup_erase_ne hk, lookup_plain]

/-- Updating a field that is there replaces it in the map. -/
theorem plain_updateField_of_some {f : Value → Value} (h : t.fields.get? key = some v) :
    (t.updateField key f).2.plain = { t.plain with fields := t.plain.fields.insert key (f v) } := by
  refine plain_fields_eq fun k => ?_
  rw [Dictionary.get?_modify]
  by_cases hk : k = key
  · rw [if_pos hk, hk, h, Finmap.lookup_insert, Option.map_some]
  · rw [if_neg hk, Finmap.lookup_insert_of_ne _ hk, lookup_plain]

/-- Updating a field that is not there changes nothing. -/
theorem plain_updateField_of_none {f : Value → Value} (h : t.fields.get? key = none) : (t.updateField key f).2.plain = t.plain := by
  refine plain_fields_eq fun k => ?_
  rw [Dictionary.get?_modify, lookup_mapOf, ← Dictionary.get?]
  by_cases hk : k = key
  · rw [if_pos hk, hk, h, Option.map_none]
  · rw [if_neg hk]

/-- Each call answers as the plain pair does, and what is left stands for what is left of the pair. -/
theorem serve_plain (t : Table) (c : TableCall) : t.plain.serve c = ((t.serve c).1, (t.serve c).2.plain) := by
  cases c with
  | add v => rw [PlainTable.serve, serve, plain_add]
  | get index => rw [PlainTable.serve, serve, get_eq]
  | set index v =>
    rw [PlainTable.serve, serve, set_eq]
    by_cases h : t.plain.Inside index
    · rw [if_pos h, if_pos h]
      simp only [plain, values, Array.toList_setIfInBounds]
    · rw [if_neg h, if_neg h]
      rfl
  | values => rfl
  | size => rfl
  | setField key v => rw [PlainTable.serve, serve, plain_setField]
  | getField key => rw [PlainTable.serve, serve, getField, Dictionary.getD, lookup_plain]
  | updateField key f =>
    have hanswer : (t.updateField key f).1 = (t.fields.get? key).isSome := rfl
    rw [PlainTable.serve, serve, lookup_plain, hanswer]
    cases h : t.fields.get? key with
    | some v => rw [plain_updateField_of_some h, Option.isSome_some]
    | none => rw [plain_updateField_of_none h, Option.isSome_none]
  | hasField key => rw [PlainTable.serve, serve, Bool.decide_congr (mem_plain t key), Bool.decide_eq_true]
  | removeField key => rw [PlainTable.serve, serve, plain_removeField, lookup_plain, removeField]

/-! ## Laws of one table -/

/-- What holds of a table, whatever was done to it before. -/
structure Lawful (t : Table) : Prop where
  get_inside : ∀ index : Int, 1 ≤ index → index ≤ t.size → t.values[(index - 1).toNat]? = some (t.get index)
  get_outside : ∀ index : Int, ¬(1 ≤ index ∧ index ≤ t.size) → t.get index = .number 0.0
  set_inside : ∀ (index : Int) (v : Value), 1 ≤ index → index ≤ t.size →
    ∃ t', t.serve (.set index v) = (.written (.ok ()), t') ∧ t'.size = t.size ∧ t'.fields = t.fields ∧
      ∀ other, t'.get other = if other = index then v else t.get other
  set_outside : ∀ (index : Int) (v : Value), ¬(1 ≤ index ∧ index ≤ t.size) →
    t.serve (.set index v) = (.written (.error (.indexOutOfRange index t.size)), t)
  list_calls : ∀ c : TableCall, c.onList = true → (t.serve c).2.fields = t.fields
  field_calls : ∀ c : TableCall, c.onList = false → (t.serve c).2.values = t.values
  nil_present : ∀ key, (t.setField key .nil).hasField key = true ∧ (t.setField key .nil).getField key = .nil
  removed_absent : ∀ key, (t.removeField key).2.hasField key = false
  absent_nil : ∀ key, t.hasField key = false → t.getField key = .nil

/-- An index that was written has the new item, and the others have theirs. -/
theorem get_written (h : t.plain.Inside index) (v : Value) (other : Int) :
    get { t with items := t.items.setIfInBounds (index - 1).toNat v } other = if other = index then v else t.get other := by
  have hvalues : (plain { t with items := t.items.setIfInBounds (index - 1).toNat v }).items =
      t.plain.items.set (index - 1).toNat v := by
    simp only [plain, values, Array.toList_setIfInBounds]
  have hinside : ∀ i, (plain { t with items := t.items.setIfInBounds (index - 1).toNat v }).Inside i ↔ t.plain.Inside i := by
    intro i
    rw [PlainTable.Inside, hvalues, List.length_set]
    rfl
  rw [get_eq, get_eq, hvalues]
  simp only [hinside, List.getD_eq_getElem?_getD]
  obtain ⟨hpos, hle⟩ := id h
  by_cases hother : other = index
  · have hlt : (index - 1).toNat < t.plain.items.length := by omega
    rw [if_pos hother, hother, if_pos h, List.getElem?_set_self hlt, Option.getD_some]
  · rw [if_neg hother]
    by_cases hin : t.plain.Inside other
    · obtain ⟨hpos', -⟩ := id hin
      have hne : (index - 1).toNat ≠ (other - 1).toNat := by omega
      rw [if_pos hin, if_pos hin, List.getElem?_set_ne hne]
    · rw [if_neg hin, if_neg hin]

/-- A field that was set is there, beside those that were. -/
theorem hasField_setField (t : Table) (key k : String) (v : Value) :
    (t.setField key v).hasField k = true ↔ k = key ∨ t.hasField k = true := by
  rw [hasField, Dictionary.contains, setField, Dictionary.get?_insert]
  by_cases hk : k = key
  · simp [hk]
  · rw [if_neg hk, or_iff_right hk, hasField, Dictionary.contains]

/-- A field that was removed is not there, and the others are if they were. -/
theorem hasField_removeField (t : Table) (key k : String) :
    (t.removeField key).2.hasField k = true ↔ k ≠ key ∧ t.hasField k = true := by
  rw [hasField, Dictionary.contains, removeField, Dictionary.get?_erase]
  by_cases hk : k = key
  · simp [hk]
  · rw [if_neg hk, and_iff_right hk, hasField, Dictionary.contains]

/-- Updating makes no field and takes none. -/
theorem hasField_updateField (t : Table) (key k : String) (f : Value → Value) :
    (t.updateField key f).2.hasField k = t.hasField k := by
  rw [hasField, Dictionary.contains, updateField, Dictionary.get?_modify, hasField, Dictionary.contains]
  split
  · exact Option.isSome_map
  · rfl

theorem lawful (t : Table) : t.Lawful := by
  constructor
  case get_inside =>
    intro index hpos hle
    have hinside : t.plain.Inside index := inside_plain_iff.mpr ⟨hpos, hle⟩
    have hlt : (index - 1).toNat < t.values.length := by
      have hlength : t.values.length = t.size := Array.length_toList
      omega
    rw [get_eq, if_pos hinside, List.getD_eq_getElem?_getD, plain, List.getElem?_eq_getElem hlt, Option.getD_some]
  case get_outside =>
    intro index hout
    rw [get_eq, if_neg (mt inside_plain_iff.mp hout)]
  case set_inside =>
    intro index v hpos hle
    have hinside : t.plain.Inside index := inside_plain_iff.mpr ⟨hpos, hle⟩
    refine ⟨{ t with items := t.items.setIfInBounds (index - 1).toNat v }, ?_, ?_, rfl, get_written hinside v⟩
    · rw [serve, set_eq, if_pos hinside]
    · rw [size, size, Array.size_setIfInBounds]
  case set_outside =>
    intro index v hout
    rw [serve, set_eq, if_neg (mt inside_plain_iff.mp hout)]
  case list_calls =>
    intro c hc
    cases c with
    | set index v =>
      rw [serve, set_eq]
      by_cases hinside : t.plain.Inside index
      · rw [if_pos hinside]
      · rw [if_neg hinside]
    | add _ | get _ | values | size => rfl
    | _ => nomatch hc
  case field_calls =>
    intro c hc
    cases c with
    | setField _ _ | getField _ | updateField _ _ | hasField _ | removeField _ => rfl
    | _ => nomatch hc
  case nil_present =>
    intro key
    refine ⟨(hasField_setField t key key .nil).mpr (.inl rfl), ?_⟩
    rw [getField, Dictionary.getD, setField, Dictionary.get?_insert, if_pos rfl, Option.getD_some]
  case removed_absent =>
    intro key
    exact Bool.eq_false_iff.mpr fun h => ((hasField_removeField t key key).mp h).1 rfl
  case absent_nil =>
    intro key h
    rw [hasField, Dictionary.contains, Option.isSome_eq_false_iff, Option.isNone_iff_eq_none] at h
    rw [getField, Dictionary.getD, h, Option.getD_none]

/-! ## Equality -/

/-- Two plain pairs hold as much, and equal values at the same places and under the same keys. -/
structure Agree (p q : PlainTable) : Prop where
  length : p.items.length = q.items.length
  items : ∀ (i : Nat) (v w : Value), p.items[i]? = some v → q.items[i]? = some w → (v == w) = true
  keys : p.fields.keys = q.fields.keys
  fields : ∀ (key : String) (v w : Value), p.fields.lookup key = some v → q.fields.lookup key = some w → (v == w) = true

/-- Lists are equal when they are as long and equal item by item. -/
theorem beq_iff_getElem? {α : Type u} [BEq α] (xs ys : List α) : (xs == ys) = true ↔
    xs.length = ys.length ∧ ∀ (i : Nat) (a b : α), xs[i]? = some a → ys[i]? = some b → (a == b) = true := by
  have hbeq : (xs == ys) = xs.isEqv ys (· == ·) := List.beq_eq_isEqv
  rw [hbeq, List.isEqv_eq_decide]
  split
  · rename_i hlength
    rw [decide_eq_true_iff, and_iff_right hlength]
    constructor
    · intro h i a b ha hb
      obtain ⟨hi, rfl⟩ := List.getElem?_eq_some_iff.mp ha
      obtain ⟨_, rfl⟩ := List.getElem?_eq_some_iff.mp hb
      exact h i hi
    · intro h i hi
      exact h i _ _ (List.getElem?_eq_getElem hi) (List.getElem?_eq_getElem (hlength ▸ hi))
  · rename_i hlength
    exact iff_of_false nofun fun h => hlength h.1

/-- Dictionaries with the same keys list them in the same order. -/
theorem keys_congr {d e : Dictionary Value} (h : ∀ key, d.contains key = e.contains key) : d.keys = e.keys := by
  have hmarks : (d.mapValues fun _ _ => ()) = e.mapValues fun _ _ => () := by
    refine Dictionary.ext_get? fun key => ?_
    have hkey := h key
    rw [Dictionary.contains, Dictionary.contains] at hkey
    rw [Dictionary.get?_mapValues, Dictionary.get?_mapValues]
    cases hd : d.get? key <;> cases he : e.get? key <;> simp [hd, he] at hkey ⊢
  have hkeys := congrArg Dictionary.keys hmarks
  rwa [Dictionary.keys_mapValues, Dictionary.keys_mapValues] at hkeys

/-- Dictionaries are equal when they have the same keys and equal values under each. -/
theorem fields_same_iff (d e : Dictionary Value) : (d == e) = true ↔ (∀ key, d.contains key = e.contains key) ∧
    ∀ (key : String) (v w : Value), d.get? key = some v → e.get? key = some w → (v == w) = true := by
  have hentries : (d == e) = (d.entries == e.entries) := rfl
  have hpair : ∀ a b : String × Value, (a == b) = true ↔ a.1 = b.1 ∧ (a.2 == b.2) = true := by
    intro a b
    have hboth : (a == b) = (a.1 == b.1 && a.2 == b.2) := rfl
    rw [hboth, Bool.and_eq_true, beq_iff_eq]
  rw [hentries, beq_iff_getElem?]
  simp only [hpair]
  constructor
  · rintro ⟨hlength, hall⟩
    have hkeys : d.keys = e.keys := by
      refine List.ext_getElem (by simpa [Dictionary.keys] using hlength) fun i hi hi' => ?_
      rw [Dictionary.keys, List.length_map] at hi hi'
      simpa [Dictionary.keys] using (hall i _ _ (List.getElem?_eq_getElem hi) (List.getElem?_eq_getElem hi')).1
    refine ⟨fun key => ?_, fun key v w hd he => ?_⟩
    · rw [Bool.eq_iff_iff, Dictionary.contains_iff_mem_keys, Dictionary.contains_iff_mem_keys, hkeys]
    · -- the entry at the same place has the same key, so it is the one that is looked up
      obtain ⟨i, hi⟩ := List.mem_iff_getElem?.mp ((d.mem_entries_iff key v).mpr hd)
      have hlt : i < e.entries.length := hlength ▸ (List.getElem?_eq_some_iff.mp hi).1
      obtain ⟨hkey, hvalue⟩ := hall i _ _ hi (List.getElem?_eq_getElem hlt)
      have he' : e.get? e.entries[i].1 = some e.entries[i].2 := (e.mem_entries_iff _ _).mp (List.getElem_mem hlt)
      rw [← hkey] at he'
      obtain rfl := Option.some_inj.mp (he.symm.trans he')
      exact hvalue
  · rintro ⟨hkeys, hvalues⟩
    have hsame : d.entries.map Prod.fst = e.entries.map Prod.fst := keys_congr hkeys
    refine ⟨by simpa using congrArg List.length hsame, fun i a b ha hb => ?_⟩
    have hkey : a.1 = b.1 := by
      have hat := congrArg (·[i]?) hsame
      simpa [ha, hb] using hat
    have hd : d.get? a.1 = some a.2 := (d.mem_entries_iff _ _).mp (List.mem_of_getElem? ha)
    have he : e.get? a.1 = some b.2 := hkey ▸ (e.mem_entries_iff _ _).mp (List.mem_of_getElem? hb)
    exact ⟨hkey, hvalues _ _ _ hd he⟩

/-- Two tables are equal exactly if their plain pairs agree. -/
theorem same_iff (t u : Table) : (t == u) = true ↔ Agree t.plain u.plain := by
  have hparts : (t == u) = (t.values == u.values && t.fields == u.fields) := rfl
  have hkeys : (∀ key, t.fields.contains key = u.fields.contains key) ↔ t.plain.fields.keys = u.plain.fields.keys := by
    rw [Finset.ext_iff]
    refine forall_congr' fun key => ?_
    rw [Finmap.mem_keys, Finmap.mem_keys, mem_plain, mem_plain, Bool.eq_iff_iff]
    rfl
  rw [hparts, Bool.and_eq_true, beq_iff_getElem?, fields_same_iff, hkeys]
  simp only [← lookup_plain]
  exact ⟨fun h => ⟨h.1.1, h.1.2, h.2.1, h.2.2⟩, fun h => ⟨⟨h.length, h.items⟩, h.keys, h.fields⟩⟩

/-! ## Histories -/

/-- What calls make of an empty table. -/
def replay (calls : List TableCall) : Table := calls.foldl (fun t c => (t.serve c).2) ∅

theorem replay_append (calls : List TableCall) (c : TableCall) : replay (calls ++ [c]) = ((replay calls).serve c).2 := by
  rw [replay, List.foldl_append]
  rfl

/-- A field was written, and not taken out since. -/
def KeptSinceWritten (key : String) (calls : List TableCall) : Prop :=
  ∃ before v after, calls = before ++ .setField key v :: after ∧ .removeField key ∉ after

theorem keptSinceWritten_append (key : String) (calls : List TableCall) (c : TableCall) :
    KeptSinceWritten key (calls ++ [c]) ↔ (∃ v, c = .setField key v) ∨ KeptSinceWritten key calls ∧ c ≠ .removeField key := by
  constructor
  · rintro ⟨before, v, after, hcalls, hkept⟩
    rcases List.eq_nil_or_concat after with rfl | ⟨after', last, rfl⟩
    · exact .inl ⟨v, (List.append_inj_right' hcalls rfl |> List.singleton_inj.mp)⟩
    · rw [List.concat_eq_append, ← List.cons_append, ← List.append_assoc] at hcalls
      obtain ⟨rfl, hlast⟩ := List.append_inj' hcalls rfl
      obtain rfl := List.singleton_inj.mp hlast
      rw [List.concat_eq_append, List.mem_append, List.mem_singleton, not_or] at hkept
      exact .inr ⟨⟨before, v, after', rfl, hkept.1⟩, fun h => hkept.2 h.symm⟩
  · rintro (⟨v, rfl⟩ | ⟨⟨before, v, after, rfl, hkept⟩, hc⟩)
    · exact ⟨calls, v, [], rfl, List.not_mem_nil⟩
    · refine ⟨before, v, after ++ [c], by rw [List.append_assoc, List.cons_append], ?_⟩
      rw [List.mem_append, List.mem_singleton, not_or]
      exact ⟨hkept, hc.symm⟩

/-- A call leaves a field there exactly if it writes the field, or the field was there and is not taken out by the call. -/
theorem hasField_serve (t : Table) (c : TableCall) (key : String) :
    (t.serve c).2.hasField key = true ↔ (∃ v, c = .setField key v) ∨ t.hasField key = true ∧ c ≠ .removeField key := by
  cases hlist : c.onList with
  | true =>
    have hfields : (t.serve c).2.hasField key = t.hasField key := congrArg (·.contains key) (t.lawful.list_calls c hlist)
    rw [hfields]
    cases c <;> simp [TableCall.onList] at hlist ⊢
  | false =>
    cases c with
    | setField k v =>
      rw [serve, hasField_setField, @eq_comm _ key k]
      simp
    | removeField k =>
      rw [serve, hasField_removeField, and_comm, ne_comm]
      simp
    | updateField k f =>
      rw [serve, hasField_updateField]
      simp
    | getField _ | hasField _ => simp [serve]
    | _ => nomatch hlist

/-- A field is there exactly if it was written and not taken out since, whatever it holds. -/
theorem hasField_replay_iff (calls : List TableCall) (key : String) :
    (replay calls).hasField key = true ↔ KeptSinceWritten key calls := by
  induction calls using List.reverseRecOn with
  | nil =>
    refine iff_of_false nofun ?_
    rintro ⟨before, v, after, hcalls, -⟩
    simp at hcalls
  | append_singleton calls c ih => rw [replay_append, hasField_serve, keptSinceWritten_append, ih]

end Table

/-! ## Programs with several tables -/

/-- A step of a program: a call of one of its tables, counted from nought in order of their making, or a copy of one. -/
inductive ShelfStep where
  | call (which : Nat) (c : TableCall)
  | copy (which : Nat)

namespace Shelf

variable {τ τ' : Type} (serve : τ → TableCall → TableAnswer × τ) (serve' : τ' → TableCall → TableAnswer × τ')

/-- A step is answered, and leaves the tables changed. There is no answer where there is no such table. -/
def step (shelf : List τ) : ShelfStep → Option TableAnswer × List τ
  | .call which c =>
    match shelf[which]? with
    | some t => (some (serve t c).1, shelf.set which (serve t c).2)
    | none => (none, shelf)
  | .copy which =>
    match shelf[which]? with
    | some t => (some .done, shelf ++ [t])
    | none => (none, shelf)

/-- The answers of a program, and the tables that are left. -/
def run (shelf : List τ) : List ShelfStep → List (Option TableAnswer) × List τ
  | [] => ([], shelf)
  | s :: steps =>
    let now := step serve shelf s
    let later := run now.2 steps
    (now.1 :: later.1, later.2)

variable {serve serve'} {f : τ → τ'}

/-- A step is the same on both forms if every call is. -/
theorem step_map (h : ∀ t c, serve' (f t) c = ((serve t c).1, f (serve t c).2)) (shelf : List τ) (s : ShelfStep) :
    step serve' (shelf.map f) s = ((step serve shelf s).1, (step serve shelf s).2.map f) := by
  cases s with
  | call which c =>
    rw [step, step, List.getElem?_map]
    cases shelf[which]? with
    | none => rfl
    | some t => simp only [Option.map_some, h, List.map_set]
  | copy which =>
    rw [step, step, List.getElem?_map]
    cases shelf[which]? with
    | none => rfl
    | some t => simp only [Option.map_some, List.map_append, List.map_singleton]

/-- A program sees nothing of its tables but their answers. -/
theorem run_map (h : ∀ t c, serve' (f t) c = ((serve t c).1, f (serve t c).2)) (shelf : List τ) (steps : List ShelfStep) :
    run serve' (shelf.map f) steps = ((run serve shelf steps).1, (run serve shelf steps).2.map f) := by
  induction steps generalizing shelf with
  | nil => rfl
  | cons s steps ih => rw [run, run, step_map h, ih]

/-- A history answers a call as the table that it makes, and grows by the call. -/
def record (calls : List TableCall) (c : TableCall) : TableAnswer × List TableCall :=
  (((Table.replay calls).serve c).1, calls ++ [c])

/-- The calls that each table of a program went through, those that it went through as the table it was copied from included. -/
def histories (steps : List ShelfStep) : List (List TableCall) := (run record [[]] steps).2

/-- Each table on the shelf is the replay of its own history. -/
theorem run_eq_replay (steps : List ShelfStep) : (run Table.serve [∅] steps).2 = (histories steps).map Table.replay := by
  have hrecord : ∀ calls c, (Table.replay calls).serve c = ((record calls c).1, Table.replay (record calls c).2) := by
    intro calls c
    rw [record, Table.replay_append]
  exact congrArg Prod.snd (run_map hrecord [[]] steps)

end Shelf

/-- Tables are plain lists beside finite maps. A program that begins with an empty table, and calls and copies tables, gets the answers
that it gets of plain pairs, and the tables that it leaves stand for the pairs that are left. Each of them is what its own history makes
of an empty table, and a field is in it exactly if that history wrote the field and did not take it out since. All tables obey the laws of
reading and writing. Two tables are equal exactly if they have as many places, equal values at each, the same keys, and equal values under
each. -/
theorem table_refines (steps : List ShelfStep) :
    Shelf.run PlainTable.serve [PlainTable.empty] steps =
      ((Shelf.run Table.serve [∅] steps).1, (Shelf.run Table.serve [∅] steps).2.map Table.plain) ∧
    (Shelf.run Table.serve [∅] steps).2 = (Shelf.histories steps).map Table.replay ∧
    (∀ calls key, (Table.replay calls).hasField key = true ↔ Table.KeptSinceWritten key calls) ∧
    (∀ t : Table, t.Lawful) ∧
    ∀ t u : Table, (t == u) = true ↔ Table.Agree t.plain u.plain :=
  ⟨Shelf.run_map Table.serve_plain [∅] steps, Shelf.run_eq_replay steps, Table.hasField_replay_iff, Table.lawful, Table.same_iff⟩

end BlockScript
