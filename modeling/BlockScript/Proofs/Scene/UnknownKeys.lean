import BlockScript.Proofs.Scene.Emitted
import BlockScript.Proofs.Scene.Encoding
import BlockScript.Scene.Decode

/-!
# Unknown keys

A document may have further keys beside those of a scene at its top level, and nowhere below. `Scene.Part` tells the parts of a document
apart, and `Part.Surplus` says that a document became another one by a single key that one of its tables, at any depth, does not have.
An entry at the top level that a scene does not know changes nothing (`decode_gains`). Below, a part is accepted only if all its tables
have known keys and all the parts in it are accepted (`Reads.known`, `Reads.entry`, `Reads.item`), so that a surplus key is refused
wherever it stands (`unknown_keys`).
-/

namespace BlockScript

open Toml

namespace Toml

/-- A table gets one more entry, at any place among its own. -/
inductive Node.Gains (key : Key) (value : Node) : Node → Node → Prop where
  | insert (style : TableStyle) (span : Option Span) (before after : List (Key × Node)) :
    Gains key value (.table style span (before ++ after)) (.table style span (before ++ (key, value) :: after))

/-- A decoder accepts a node. -/
def Accepts {α : Type} (decode : Node → Decoded α) (n : Node) : Prop := ∃ a, decode n = .ok a

end Toml

namespace Scene

/-! ## The parts of a document -/

/-- What a node in the document of a scene stands for. Parts in which there is no table with keys of a fixed kind are left out. -/
inductive Part where
  | scene
  | objects
  | object
  | scripts
  | script
  | steps
  | step
  /-- What is under the key of a step of a kind that has named parameters. -/
  | parameters (kind : Step.Kind)
  | condition
  | comparison
  /-- What is under the name of a comparison that is written as a table. -/
  | nothing

/-- The keys that the document of a scene may have. -/
def fields : List String := ["name", "variables", "objects", "scripts"]

end Scene

/-- The names of the parameters of a kind, where they have names. -/
def Step.Kind.parameters? : Kind → Option (List String)
  | say => some ["message", "duration"]
  | playSound => some ["name", "volume"]
  | set => some ["var", "value"]
  | change => some ["var", "by"]
  | repeatWhile | repeatUntil => some ["condition", "blocks"]
  | _ => none

namespace Scene.Part

/-- The keys beside which the table of a part may have no other ones. A step and a comparison consist of their only key, so that every
further key is one too many. -/
def keys? : Part → Option (List String)
  | object => some ["name", "enabled"]
  | script => some ["name", "blocks"]
  | step | comparison | nothing => some []
  | parameters kind => kind.parameters?
  | condition => some Condition.fields
  | scene | objects | scripts | steps => none

/-- The parts under the keys of a table. -/
def under : Part → List (String × Part)
  | scene => [("objects", objects), ("scripts", scripts)]
  | script => [("blocks", steps)]
  | step =>
    [("say", parameters .say), ("play_sound", parameters .playSound), ("set", parameters .set), ("change", parameters .change),
      ("wait_until", condition), ("sequence", steps), ("repeat_forever", steps), ("repeat_while", parameters .repeatWhile),
      ("repeat_until", parameters .repeatUntil)]
  | parameters .repeatWhile | parameters .repeatUntil => [("condition", condition), ("blocks", steps)]
  | condition => [("op", comparison)]
  | comparison => Comparison.spellings.map fun s => (s.1, nothing)
  | _ => []

/-- The part at an index of an array. A record may be written as an array of its fields. -/
def item? : Part → Nat → Option Part
  | objects, _ => some object
  | scripts, _ => some script
  | steps, _ => some step
  | script, 1 => some steps
  | parameters .repeatWhile, 0 | parameters .repeatUntil, 0 => some condition
  | parameters .repeatWhile, 1 | parameters .repeatUntil, 1 => some steps
  | condition, 1 => some comparison
  | _, _ => none

/-- In a part one table, at any depth, gets one more entry, under a key that it does not have. -/
inductive Surplus : Part → Node → Node → Prop where
  | key {part : Part} {names : List String} {key : Key} {value n n' : Node} (keys : part.keys? = some names)
      (unknown : key.name ∉ names) (gains : Node.Gains key value n n') : Surplus part n n'
  | entry {part inner : Part} {n n' : Node} (style : TableStyle) (span : Option Span) (before after : List (Key × Node)) (key : Key)
      (place : (key.name, inner) ∈ part.under) (surplus : Surplus inner n n') :
      Surplus part (.table style span (before ++ (key, n) :: after)) (.table style span (before ++ (key, n') :: after))
  | item {part inner : Part} {n n' : Node} (headers : Bool) (span : Option Span) (before after : List Node)
      (place : part.item? before.length = some inner) (surplus : Surplus inner n n') :
      Surplus part (.array headers span (before ++ n :: after)) (.array headers span (before ++ n' :: after))

/-- A part is accepted as what it stands for. -/
def Reads : Part → Node → Prop
  | scene => Accepts Scene.decode
  | objects => Accepts (Node.decodeItems ObjectDeclaration.decode)
  | object => Accepts ObjectDeclaration.decode
  | scripts => Accepts (Node.decodeItems Script.decode)
  | script => Accepts Script.decode
  | steps => Accepts Step.decodeList
  | step => Accepts Step.decode
  | parameters .say =>
    Accepts (Step.decodePair (Step.Kind.record .say) "message" "duration" Node.decodeText Node.decodeFloat (some 0.0))
  | parameters .playSound =>
    Accepts (Step.decodePair (Step.Kind.record .playSound) "name" "volume" Node.decodeText Node.decodeFloat (some 1.0))
  | parameters .set => Accepts (Step.decodePair (Step.Kind.record .set) "var" "value" Node.decodeText Literal.decode none)
  | parameters .change => Accepts (Step.decodePair (Step.Kind.record .change) "var" "by" Node.decodeText Node.decodeFloat none)
  | parameters kind => Accepts (Step.decodeLoop kind.record)
  | condition => Accepts Condition.decode
  | comparison => Accepts Comparison.decode
  | nothing => Accepts Node.decodeNothing

end Scene.Part

/-! ## What a decoder accepts -/

namespace Toml

variable {α β : Type}

theorem within_eq_ok {span : Option Span} {d : Decoded α} {a : α} : within span d = .ok a ↔ d = .ok a := by
  cases d <;> simp [within]

/-- An entry whose value was read has a value that is accepted. -/
theorem Node.accepts_of_field {decode : Node → Decoded α} {e : Key × Node} {a : α} (h : field e decode = .ok a) :
    Accepts decode e.2 :=
  ⟨a, within_eq_ok.mp h⟩

/-- When entries were read one after another, each of them was read. -/
theorem exists_of_foldlM {step : β → Key × Node → Decoded β} {entries : List (Key × Node)} {p q : β}
    (h : entries.foldlM step p = .ok q) : ∀ e ∈ entries, ∃ p' q', step p' e = .ok q' := by
  induction entries generalizing p with
  | nil => exact nofun
  | cons e rest ih =>
    rw [List.foldlM_cons] at h
    obtain ⟨p', hfirst, hrest⟩ := bind_eq_ok.mp h
    exact List.forall_mem_cons.mpr ⟨⟨p, p', hfirst⟩, ih hrest⟩

/-- An array is accepted only if its items are. -/
theorem Node.accepts_of_decodeItems {decode : Node → Decoded α} {headers : Bool} {span : Option Span} {items : List Node}
    (h : Accepts (decodeItems decode) (.array headers span items)) : ∀ n ∈ items, Accepts decode n := by
  obtain ⟨as, h⟩ := h
  have hitems : items.mapM decode = .ok as := within_eq_ok.mp h
  clear h
  induction items generalizing as with
  | nil => exact nofun
  | cons n rest ih =>
    rw [List.mapM_cons] at hitems
    obtain ⟨a, hfirst, hitems⟩ := bind_eq_ok.mp hitems
    obtain ⟨as', hrest, -⟩ := bind_eq_ok.mp hitems
    exact List.forall_mem_cons.mpr ⟨⟨a, hfirst⟩, ih as' hrest⟩

/-- The item of a field that is there is accepted. -/
theorem Node.accepts_of_item {decode : Node → Decoded α} {items : List Node} {i : Nat} {expected : String} {default : Option α} {a : α}
    (h : item items i expected default decode = .ok a) {n : Node} (hn : items[i]? = some n) : Accepts decode n := by
  simp only [item, hn] at h
  exact ⟨a, h⟩

/-- A table that passes the check of its keys has no other ones. -/
theorem Node.mem_of_checkKeys {names : List String} {style : TableStyle} {span : Option Span} {entries : List (Key × Node)} {u : Unit}
    (h : (Node.table style span entries).checkKeys names = .ok u) : ∀ e ∈ entries, e.1.name ∈ names := by
  cases hunknown : entries.filter fun e => !names.contains e.1.name with
  | nil =>
    intro e he
    simpa using List.filter_eq_nil_iff.mp hunknown e he
  | cons e rest =>
    simp only [checkKeys, hunknown] at h
    nomatch h

end Toml

variable {α β : Type}

/-- The table of a name and one more field has no other keys, and the value of that field is accepted. -/
theorem Scene.decodeNamed_entries {record second : String} (hne : second ≠ "name") {decodeSecond : Node → Decoded α} {default : α}
    {style : TableStyle} {span : Option Span} {entries : List (Key × Node)}
    (h : Accepts (decodeNamed record second decodeSecond default) (.table style span entries)) :
    ∀ e ∈ entries, e.1.name ∈ ["name", second] ∧ (e.1.name = second → Accepts decodeSecond e.2) := by
  obtain ⟨a, h⟩ := h
  obtain ⟨p, hread, -⟩ := bind_eq_ok.mp (within_eq_ok.mp h)
  intro e he
  obtain ⟨p', q', hstep⟩ := exists_of_foldlM hread e he
  by_cases hname : e.1.name = "name"
  · simp [hname, hne.symm]
  · simp only [if_neg hname] at hstep
    by_cases hsecond : e.1.name = second
    · rw [if_pos hsecond] at hstep
      obtain ⟨b, hfield, -⟩ := bind_eq_ok.mp hstep
      exact ⟨by simp [hsecond], fun _ => Node.accepts_of_field hfield⟩
    · rw [if_neg hsecond] at hstep
      nomatch hstep


/-- The table of two named parameters has no other keys. -/
theorem Step.decodePair_entries {record first second : String} {decodeFirst : Node → Decoded α} {decodeSecond : Node → Decoded β}
    {default : Option β} {style : TableStyle} {span : Option Span} {entries : List (Key × Node)}
    (h : Accepts (decodePair record first second decodeFirst decodeSecond default) (.table style span entries)) :
    ∀ e ∈ entries, e.1.name ∈ [first, second] := by
  obtain ⟨a, h⟩ := h
  obtain ⟨u, hkeys, -⟩ := bind_eq_ok.mp h
  exact Node.mem_of_checkKeys (within_eq_ok.mp hkeys)

/-- The entries of a loop are accepted only if its condition and its body are. -/
theorem Step.decodeLoopEntries_reads {condition : Option Condition} {body : Option (List Step)} {entries : List (Key × Node)}
    (h : ∃ a, decodeLoopEntries condition body entries = .ok a) : ∀ e ∈ entries,
      (e.1.name = "condition" → Accepts Condition.decode e.2) ∧ (e.1.name = "blocks" → Accepts decodeList e.2) := by
  induction entries generalizing condition body with
  | nil => exact nofun
  | cons e rest ih =>
    obtain ⟨a, h⟩ := h
    obtain ⟨key, n⟩ := e
    by_cases hname : key.name = "condition"
    · simp only [decodeLoopEntries, if_pos hname] at h
      obtain ⟨c, hread, hrest⟩ := bind_eq_ok.mp h
      refine List.forall_mem_cons.mpr ⟨⟨fun _ => ⟨c, within_eq_ok.mp hread⟩, ?_⟩, ih ⟨a, hrest⟩⟩
      intro hblocks
      exact absurd (hname.symm.trans hblocks) (by decide)
    · simp only [decodeLoopEntries, if_neg hname] at h
      obtain ⟨steps, hread, hrest⟩ := bind_eq_ok.mp h
      exact List.forall_mem_cons.mpr ⟨⟨fun h => absurd h hname, fun _ => ⟨steps, within_eq_ok.mp hread⟩⟩, ih ⟨a, hrest⟩⟩

/-- The table of a loop has no keys but those of its condition and its body, which are accepted. -/
theorem Step.decodeLoop_entries {record : String} {style : TableStyle} {span : Option Span} {entries : List (Key × Node)}
    (h : Accepts (decodeLoop record) (.table style span entries)) : ∀ e ∈ entries, e.1.name ∈ ["condition", "blocks"] ∧
      (e.1.name = "condition" → Accepts Condition.decode e.2) ∧ (e.1.name = "blocks" → Accepts decodeList e.2) := by
  obtain ⟨a, h⟩ := h
  rw [decodeLoop, within_eq_ok] at h
  obtain ⟨u, hkeys, hread⟩ := bind_eq_ok.mp h
  intro e he
  exact ⟨Node.mem_of_checkKeys hkeys e he, decodeLoopEntries_reads ⟨a, hread⟩ e he⟩

/-- The condition and the body of a loop that is written as an array are accepted. -/
theorem Step.decodeLoop_items {record : String} {headers : Bool} {span : Option Span} {items : List Node}
    (h : Accepts (decodeLoop record) (.array headers span items)) :
    ∃ c body rest, items = c :: body :: rest ∧ Accepts Condition.decode c ∧ Accepts decodeList body := by
  obtain ⟨a, h⟩ := h
  match items with
  | [] => nomatch h
  | [c] =>
    rw [decodeLoop, within_eq_ok] at h
    obtain ⟨_, -, h⟩ := bind_eq_ok.mp h
    nomatch h
  | c :: body :: rest =>
    rw [decodeLoop, within_eq_ok] at h
    obtain ⟨condition, hcondition, h⟩ := bind_eq_ok.mp h
    obtain ⟨steps, hsteps, -⟩ := bind_eq_ok.mp h
    exact ⟨c, body, rest, rfl, ⟨condition, hcondition⟩, ⟨steps, hsteps⟩⟩

/-- A list of steps is accepted only if the steps are. -/
theorem Step.decodeList_items {headers : Bool} {span : Option Span} {items : List Node}
    (h : Accepts decodeList (.array headers span items)) : ∀ n ∈ items, Accepts decode n := by
  obtain ⟨steps, h⟩ := h
  rw [decodeList, within_eq_ok] at h
  induction items generalizing steps with
  | nil => exact nofun
  | cons n rest ih =>
    rw [decodeItems] at h
    obtain ⟨step, hfirst, h⟩ := bind_eq_ok.mp h
    obtain ⟨steps', hrest, -⟩ := bind_eq_ok.mp h
    exact List.forall_mem_cons.mpr ⟨⟨step, hfirst⟩, ih steps' hrest⟩

/-- The table of a condition has no other keys than those of its fields, and its comparison is accepted. -/
theorem Condition.decode_entries {style : TableStyle} {span : Option Span} {entries : List (Key × Node)}
    (h : Accepts Condition.decode (.table style span entries)) :
    ∀ e ∈ entries, e.1.name ∈ Condition.fields ∧ (e.1.name = "op" → Accepts Comparison.decode e.2) := by
  obtain ⟨c, h⟩ := h
  obtain ⟨p, hread, -⟩ := bind_eq_ok.mp (within_eq_ok.mp h)
  intro e he
  obtain ⟨p', q', hstep⟩ := exists_of_foldlM hread e he
  unfold decodeEntry at hstep
  split at hstep
  · rename_i hname
    simp [hname, fields]
  · rename_i hname
    obtain ⟨comparison, hfield, -⟩ := bind_eq_ok.mp hstep
    exact ⟨by simp [hname, fields], fun _ => Node.accepts_of_field hfield⟩
  · rename_i hname
    simp [hname, fields]
  · nomatch hstep

/-- A condition is accepted only if its comparison is. -/
theorem Condition.decode_items {headers : Bool} {span : Option Span} {items : List Node}
    (h : Accepts Condition.decode (.array headers span items)) {n : Node} (hn : items[1]? = some n) : Accepts Comparison.decode n := by
  obtain ⟨c, h⟩ := h
  obtain ⟨var, -, h⟩ := bind_eq_ok.mp (within_eq_ok.mp h)
  obtain ⟨comparison, hcomparison, -⟩ := bind_eq_ok.mp h
  exact Node.accepts_of_item hcomparison hn

/-- A comparison that is written as a table has a single key, and nothing below it. -/
theorem Comparison.decode_entries {style : TableStyle} {span : Option Span} {entries : List (Key × Node)}
    (h : Accepts Comparison.decode (.table style span entries)) : ∃ e, entries = [e] ∧ Accepts Node.decodeNothing e.2 := by
  obtain ⟨c, h⟩ := h
  have h := within_eq_ok.mp h
  match entries with
  | [] => nomatch h
  | [(key, n)] =>
    obtain ⟨c', -, h⟩ := bind_eq_ok.mp h
    obtain ⟨u, hnothing, -⟩ := bind_eq_ok.mp h
    exact ⟨(key, n), rfl, u, hnothing⟩
  | _ :: _ :: _ => nomatch h

namespace Scene.Part

/-- A step that is written as a table has a single key, and the part below it is accepted. -/
theorem decode_step_entries {style : TableStyle} {span : Option Span} {entries : List (Key × Node)}
    (h : Accepts Step.decode (.table style span entries)) :
    ∃ e, entries = [e] ∧ ∀ inner, (e.1.name, inner) ∈ step.under → inner.Reads e.2 := by
  obtain ⟨s, h⟩ := h
  cases entries with
  | nil => nomatch h
  | cons entry rest =>
    cases rest with
    | cons _ _ => nomatch h
    | nil =>
      obtain ⟨⟨name, place⟩, n⟩ := entry
      refine ⟨(⟨name, place⟩, n), rfl, fun inner hinner => ?_⟩
      rw [Step.decode, within_eq_ok] at h
      simp only [under, List.mem_cons, Prod.mk.injEq, List.not_mem_nil, or_false] at hinner
      rcases hinner with ⟨rfl, rfl⟩ | ⟨rfl, rfl⟩ | ⟨rfl, rfl⟩ | ⟨rfl, rfl⟩ | ⟨rfl, rfl⟩ | ⟨rfl, rfl⟩ | ⟨rfl, rfl⟩ | ⟨rfl, rfl⟩ | ⟨rfl, rfl⟩
      all_goals
        obtain ⟨a, hread, -⟩ := bind_eq_ok.mp h
        exact ⟨a, hread⟩

variable {part inner : Part} {style : TableStyle} {span : Option Span} {entries : List (Key × Node)}

/-- The entries of an accepted table at the top level that hold objects or scripts are accepted. -/
theorem decode_scene_entries (h : Accepts Scene.decode (.table style span entries)) :
    ∀ e ∈ entries, ∀ inner, (e.1.name, inner) ∈ scene.under → inner.Reads e.2 := by
  obtain ⟨s, h⟩ := h
  intro e he inner hinner
  obtain ⟨s', s'', hstep⟩ := exists_of_foldlM h e he
  simp only [under, List.mem_cons, Prod.mk.injEq, List.not_mem_nil, or_false] at hinner
  rcases hinner with ⟨hname, rfl⟩ | ⟨hname, rfl⟩
  all_goals
    simp only [Scene.decodeEntry, hname] at hstep
    obtain ⟨a, hfield, -⟩ := bind_eq_ok.mp hstep
    exact Node.accepts_of_field hfield

/-- The parts under the keys of an accepted table are accepted. -/
theorem Reads.entry (h : part.Reads (.table style span entries)) {e : Key × Node} (he : e ∈ entries)
    (hplace : (e.1.name, inner) ∈ part.under) : inner.Reads e.2 := by
  cases part with
  | scene => exact decode_scene_entries h e he inner hplace
  | script =>
    obtain ⟨s, h⟩ := h
    obtain ⟨a, hnamed, -⟩ := bind_eq_ok.mp h
    obtain ⟨hname, rfl⟩ : e.1.name = "blocks" ∧ inner = steps := by simpa [under] using hplace
    exact (decodeNamed_entries (by decide) ⟨a, hnamed⟩ e he).2 hname
  | step =>
    obtain ⟨e', rfl, hinner⟩ := decode_step_entries h
    obtain rfl := List.mem_singleton.mp he
    exact hinner inner hplace
  | parameters kind =>
    cases kind with
    | repeatWhile | repeatUntil =>
      obtain ⟨-, hcondition, hbody⟩ := Step.decodeLoop_entries h e he
      simp only [under, List.mem_cons, Prod.mk.injEq, List.not_mem_nil, or_false] at hplace
      rcases hplace with ⟨hname, rfl⟩ | ⟨hname, rfl⟩
      · exact hcondition hname
      · exact hbody hname
    | _ => nomatch hplace
  | condition =>
    obtain ⟨hname, rfl⟩ : e.1.name = "op" ∧ inner = comparison := by simpa [under] using hplace
    exact (Condition.decode_entries h e he).2 hname
  | comparison =>
    obtain ⟨e', rfl, hnothing⟩ := Comparison.decode_entries h
    obtain rfl := List.mem_singleton.mp he
    obtain ⟨spelling, -, hspelling⟩ := List.mem_map.mp hplace
    obtain ⟨-, rfl⟩ := Prod.mk.inj hspelling
    exact hnothing
  | objects | object | scripts | steps | nothing => nomatch hplace

/-- The parts in an accepted array are accepted. -/
theorem Reads.item {headers : Bool} {items : List Node} (h : part.Reads (.array headers span items)) {i : Nat} {n : Node}
    (hn : items[i]? = some n) (hplace : part.item? i = some inner) : inner.Reads n := by
  have hmem : n ∈ items := List.mem_of_getElem? hn
  cases part with
  | objects =>
    cases hplace
    exact Node.accepts_of_decodeItems h n hmem
  | scripts =>
    cases hplace
    exact Node.accepts_of_decodeItems h n hmem
  | steps =>
    cases hplace
    exact Step.decodeList_items h n hmem
  | script =>
    obtain ⟨rfl, rfl⟩ : i = 1 ∧ inner = steps := by
      rcases i with _ | _ | i <;> cases hplace
      exact ⟨rfl, rfl⟩
    obtain ⟨s, h⟩ := h
    obtain ⟨a, hnamed, -⟩ := bind_eq_ok.mp h
    obtain ⟨name, -, hrest⟩ := bind_eq_ok.mp (within_eq_ok.mp hnamed)
    obtain ⟨body, hbody, -⟩ := bind_eq_ok.mp hrest
    exact Node.accepts_of_item hbody hn
  | parameters kind =>
    cases kind with
    | repeatWhile | repeatUntil =>
      obtain ⟨c, body, rest, rfl, hcondition, hbody⟩ := Step.decodeLoop_items h
      rcases i with _ | _ | i <;> cases hplace
      · exact Option.some.inj hn ▸ hcondition
      · exact Option.some.inj hn ▸ hbody
    | _ => nomatch hplace
  | condition =>
    rcases i with _ | _ | i <;> cases hplace
    exact Condition.decode_items h hn
  | scene | object | step | comparison | nothing => nomatch hplace

/-- All keys of an accepted table are known, in the parts whose tables have fields. -/
theorem Reads.known {names : List String} (h : part.Reads (.table style span entries)) (hkeys : part.keys? = some names)
    (hne : names ≠ []) : ∀ e ∈ entries, e.1.name ∈ names := by
  intro e he
  cases part with
  | object =>
    cases hkeys
    obtain ⟨o, h⟩ := h
    obtain ⟨a, hnamed, -⟩ := bind_eq_ok.mp h
    exact (decodeNamed_entries (by decide) ⟨a, hnamed⟩ e he).1
  | script =>
    cases hkeys
    obtain ⟨s, h⟩ := h
    obtain ⟨a, hnamed, -⟩ := bind_eq_ok.mp h
    exact (decodeNamed_entries (by decide) ⟨a, hnamed⟩ e he).1
  | parameters kind =>
    cases kind with
    | say | playSound | set | change =>
      cases hkeys
      exact Step.decodePair_entries h e he
    | repeatWhile | repeatUntil =>
      cases hkeys
      exact (Step.decodeLoop_entries h e he).1
    | _ => nomatch hkeys
  | condition =>
    cases hkeys
    exact (Condition.decode_entries h e he).1
  | step | comparison | nothing =>
    cases hkeys
    exact absurd rfl hne
  | scene | objects | scripts | steps => nomatch hkeys

/-- How many keys an accepted table has, in the parts that are told by their key. -/
theorem Reads.length_eq (hkeys : part.keys? = some []) :
    ∃ count, ∀ style span entries, part.Reads (.table style span entries) → entries.length = count := by
  cases part with
  | step =>
    refine ⟨1, fun style span entries h => ?_⟩
    obtain ⟨e, rfl, -⟩ := decode_step_entries h
    rfl
  | comparison =>
    refine ⟨1, fun style span entries h => ?_⟩
    obtain ⟨e, rfl, -⟩ := Comparison.decode_entries h
    rfl
  | nothing =>
    refine ⟨0, fun style span entries ⟨u, h⟩ => ?_⟩
    rw [Node.decodeNothing] at h
    split at h
    · rename_i hempty
      rw [List.isEmpty_iff.mp hempty, List.length_nil]
    · nomatch h
  | parameters kind => cases kind <;> nomatch hkeys
  | object | script | condition | scene | objects | scripts | steps => nomatch hkeys

/-- A table that gets a key it does not have is no longer accepted. -/
theorem Reads.not_of_gains {names : List String} {key : Key} {value n n' : Node} (h : part.Reads n) (hkeys : part.keys? = some names)
    (hnew : key.name ∉ names) (hgains : Node.Gains key value n n') : ¬part.Reads n' := by
  intro h'
  obtain ⟨style, span, before, after⟩ := hgains
  by_cases hne : names = []
  · subst hne
    obtain ⟨count, hcount⟩ := Reads.length_eq hkeys
    have hlength := hcount _ _ _ h
    have hlength' := hcount _ _ _ h'
    simp only [List.length_append, List.length_cons] at hlength hlength'
    omega
  · exact hnew (h'.known hkeys hne (key, value) (by simp))

/-- A part with a surplus key is not accepted. -/
theorem Surplus.not_reads {n n' : Node} (hsurplus : part.Surplus n n') (h : part.Reads n) : ¬part.Reads n' := by
  induction hsurplus with
  | key hkeys hnew hgains => exact h.not_of_gains hkeys hnew hgains
  | entry style span before after key hplace _ ih =>
    intro h'
    exact ih (h.entry (e := (key, _)) (by simp) hplace) (h'.entry (e := (key, _)) (by simp) hplace)
  | item headers span before after hplace _ ih =>
    intro h'
    exact ih (h.item (by simp) hplace) (h'.item (by simp) hplace)

end Scene.Part

namespace Scene

/-- An entry that a scene does not know is passed over at the top level. -/
theorem decode_gains {key : Key} {value n n' : Node} (hnew : key.name ∉ fields) (hgains : Node.Gains key value n n') :
    Scene.decode n' = Scene.decode n := by
  obtain ⟨style, span, before, after⟩ := hgains
  have hpassed : ∀ s, decodeEntry s (key, value) = .ok s := by
    intro s
    simp only [fields, List.mem_cons, List.not_mem_nil, or_false, not_or] at hnew
    unfold decodeEntry
    split
    · exact absurd ‹_› hnew.1
    · exact absurd ‹_› hnew.2.1
    · exact absurd ‹_› hnew.2.2.1
    · exact absurd ‹_› hnew.2.2.2
    · rfl
  simp only [Scene.decode, Node.entries?, Option.getD_some, List.foldlM_append, List.foldlM_cons, hpassed]
  rfl

/-- What becomes of keys that a scene does not know. One more of them at the top level of a document that describes a scene, whatever is
under it and wherever it stands, leaves the scene as it is. One more of them in the table of an object, a script, a step, the parameters
of a step or a condition, however deep it lies, and the document is refused. -/
theorem unknown_keys {n : Node} {s : Scene} (h : Scene.decode n = .ok s) :
    (∀ key value n', key.name ∉ fields → Node.Gains key value n n' → Scene.decode n' = .ok s) ∧
      ∀ n', Part.scene.Surplus n n' → ∃ fault, Scene.decode n' = .error fault := by
  refine ⟨fun key value n' hnew hgains => (decode_gains hnew hgains).trans h, fun n' hsurplus => ?_⟩
  have hrefused : ¬Accepts Scene.decode n' := hsurplus.not_reads ⟨s, h⟩
  cases hdecode : Scene.decode n' with
  | error fault => exact ⟨fault, rfl⟩
  | ok s' => exact absurd ⟨s', hdecode⟩ hrefused

open Toml.Node (record tagged list)

/-- The document of a scene that says that it is dark until it is day, with what else is at its top level and among the parameters of
what it says. -/
def nightDocument (others parameters : List (String × Node)) : Node :=
  record <| ("scripts", list
    [record
      [("name", .text none "night"),
        ("blocks", list
          [tagged "repeat_until" (record
            [("condition", record [("var", .text none "day"), ("value", .boolean none true)]),
              ("blocks", list [tagged "say" (record (("message", .text none "dark") :: parameters))])])])]]) ::
    ("variables", record [("day", .boolean none false)]) :: others

/-- The scene of `nightDocument`. -/
def night : Scene where
  initial := ⟨[("day", .boolean false)], by simp⟩
  scripts :=
    [{ name := "night", steps := [.repeatUntil { var := "day", value := .boolean true } [.say "dark" 0.0]] }]

open Scene.Part in
/-- A foreign table at the top level, which is ignored, and a misspelt key in a step, which is refused. -/
theorem unknown_keys_night : Scene.decode (nightDocument [] []) = .ok night ∧
    Scene.decode (nightDocument [("expect", record [("ticks", .integer none 3)])] []) = .ok night ∧
    ∃ fault, Scene.decode (nightDocument [] [("duraton", .integer none 2)]) = .error fault := by
  have hnight : Scene.decode (nightDocument [] []) = .ok night := rfl
  have hother : Node.Gains { name := "expect" } (record [("ticks", .integer none 3)]) (nightDocument [] [])
      (nightDocument [("expect", record [("ticks", .integer none 3)])] []) :=
    .insert .braces none [_, _] []
  have hparameter : scene.Surplus (nightDocument [] []) (nightDocument [] [("duraton", .integer none 2)]) := by
    refine .entry .braces none [] [_] { name := "scripts" } (.tail _ (.head _)) (.item false none [] [] rfl ?_)
    refine .entry .braces none [_] [] { name := "blocks" } (.head _) (.item false none [] [] rfl ?_)
    refine .entry .braces none [] [] { name := "repeat_until" } (List.mem_of_getElem? (rfl : Part.step.under[8]? = _)) ?_
    refine .entry .braces none [_] [] { name := "blocks" } (.tail _ (.head _)) (.item false none [] [] rfl ?_)
    refine .entry .braces none [] [] { name := "say" } (.head _) ?_
    exact .key rfl (by decide : "duraton" ∉ ["message", "duration"]) (.insert .braces none [_] [])
  obtain ⟨hkept, hrefused⟩ := unknown_keys hnight
  exact ⟨hnight, hkept _ _ _ (by decide) hother, hrefused _ hparameter⟩

end Scene

end BlockScript
