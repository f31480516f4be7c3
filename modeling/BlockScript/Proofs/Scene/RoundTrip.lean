import BlockScript.Proofs.Dictionary
import BlockScript.Proofs.Double.Whole
import BlockScript.Proofs.Scene.Encoding
import BlockScript.Scene.Decode

/-!
# Reading back what was written

Decoding undoes the encoding: from every written form of a scene `Scene.decode` gives back the scene (`decode_written`). For a record
each entry is shown to set one field of what has been read so far (`foldlM_put`); since the fields do not disturb each other, neither the
order of the entries matters nor which fields with a default are left out (`Fill.get_foldl`).
-/

namespace BlockScript

namespace Toml

@[simp] theorem within_ok {α : Type} (span : Option Span) (a : α) : within span (.ok a) = .ok a := rfl

@[simp] theorem Decoded.ok_bind {α β : Type} (a : α) (f : α → Decoded β) : (.ok a : Decoded α) >>= f = f a := rfl

@[simp] theorem Node.required_some {α : Type} (name : String) (a : α) : Node.required name (some a) = .ok a := rfl

/-! ## Values -/

namespace Node

variable {n : Node}

theorem IsText.decodeText {s : String} (h : n.IsText s) : n.decodeText = .ok s := by
  cases n with
  | text span t => exact congrArg Except.ok h
  | _ => exact h.elim

theorem IsBoolean.decodeBoolean {b : Bool} (h : n.IsBoolean b) : n.decodeBoolean = .ok b := by
  cases n with
  | boolean span c => exact congrArg Except.ok h
  | _ => exact h.elim

theorem IsNumber.decodeFloat {x : Float} (h : n.IsNumber x) : n.decodeFloat = .ok x := by
  cases n with
  | float span y => exact congrArg Except.ok h
  | integer span k => exact congrArg Except.ok (Double.ofInt_of_whole h.1 h.2)
  | _ => exact h.elim

/-- A field is decoded as its value is. -/
theorem field_ok {α : Type} {decode : Node → Decoded α} {e : Key × Node} {a : α} (h : decode e.2 = .ok a) : field e decode = .ok a := by
  rw [field, h, within_ok]

/-- Nodes that write things are decoded to these, in order. -/
theorem mapM_ok {α : Type} {decode : Node → Decoded α} {W : α → Node → Prop} (hdecode : ∀ a n, W a n → decode n = .ok a) {as : List α}
    {ns : List Node} (h : List.Forall₂ W as ns) : ns.mapM decode = .ok as := by
  induction h with
  | nil => rfl
  | cons hwritten _ ih =>
    rw [List.mapM_cons, hdecode _ _ hwritten, ih]
    rfl

/-- An array of written things is decoded to these things. -/
theorem IsArray.decodeItems {α : Type} {decode : Node → Decoded α} {W : α → Node → Prop} (hdecode : ∀ a n, W a n → decode n = .ok a)
    {as : List α} (h : n.IsArray (List.Forall₂ W as)) : decodeItems decode n = .ok as := by
  cases n with
  | array headers span items => rw [Node.decodeItems, mapM_ok hdecode h, within_ok]
  | _ => exact h.elim

end Node

/-! ## Records -/

section

variable {P β : Type} {put : String → P → P} {entries : List (Key × Node)}

/-- Entries that each set their field are read one after another. -/
theorem foldlM_put {step : P → Key × Node → Decoded P} (h : ∀ e ∈ entries, ∀ p, step p e = .ok (put e.1.name p)) (p : P) :
    entries.foldlM step p = .ok ((entries.map (·.1.name)).foldl (fun p name => put name p) p) := by
  induction entries generalizing p with
  | nil => rfl
  | cons e rest ih =>
    have hrest := ih (fun e' he' => h e' (List.mem_cons_of_mem _ he')) (put e.1.name p)
    rw [List.foldlM_cons, h e List.mem_cons_self p]
    exact hrest

/-- A part of what is read that one field sets and the others leave alone. -/
structure SetBy (put : String → P → P) (get : P → β) (name : String) (v : β) : Prop where
  own : ∀ p, get (put name p) = v
  others : ∀ p other, other ≠ name → get (put other p) = get p

/-- After puts under many names, a field is set if its own name is among them. -/
theorem SetBy.get_foldl {get : P → β} {name : String} {v : β} (h : SetBy put get name v) (names : List String) (p : P) :
    get (names.foldl (fun p name => put name p) p) = if name ∈ names then v else get p := by
  induction names generalizing p with
  | nil => rfl
  | cons other rest ih =>
    rw [List.foldl_cons, ih]
    by_cases hrest : name ∈ rest
    · simp [hrest]
    · by_cases hother : other = name
      · subst hother
        simp [hrest, h.own]
      · simp [hrest, h.others p other hother, Ne.symm hother]

/-- After all entries of a record a part has its value, whether its field was written or left out. -/
theorem FieldForm.Fill.get_foldl {fields : List FieldForm} (hfill : Fill fields entries) {get : P → β} {name : String} {v : β}
    (hset : SetBy put get name v) (hname : name ∈ fields.map (·.name)) {p : P}
    (hdefault : ∀ f ∈ fields, f.name = name → f.omissible → get p = v) :
    get ((entries.map (·.1.name)).foldl (fun p name => put name p) p) = v := by
  obtain ⟨f, hf, rfl⟩ := List.mem_map.mp hname
  rw [hset.get_foldl]
  by_cases hmem : f.name ∈ entries.map (·.1.name)
  · rw [if_pos hmem]
  · rw [if_neg hmem]
    exact hdefault f hf rfl ((hfill.complete f hf).resolve_right hmem)

end

end Toml

open Toml
open Toml.Node (record tagged list)

/-! ## The parts of a step -/

/-- What writes a literal is decoded to it. -/
theorem Literal.Written.decode {l : Literal} {n : Node} (h : l.Written n) : Literal.decode n = .ok l := by
  cases l <;> cases n <;> first | exact h.elim | exact congrArg Except.ok (congrArg _ h)

/-- What writes a comparison is decoded to it. -/
theorem Comparison.Written.decode {c : Comparison} {n : Node} (h : c.Written n) : Comparison.decode n = .ok c := by
  cases n with
  | text span t =>
    have hspelling : spellings.lookup t = some c := by
      rcases h with rfl | rfl <;> cases c <;> rfl
    simp only [Comparison.decode, Node.decodeChoice, hspelling, within_ok]
  | _ => exact (h.elim id id).elim

/-- A condition as it is after its fields were read. -/
def Condition.put (c : Condition) (name : String) (p : Condition.Partial) : Condition.Partial :=
  if name = "var" then { p with var := some c.var }
  else if name = "op" then { p with comparison := some c.comparison }
  else if name = "value" then { p with value := some c.value }
  else p

/-- An entry of what writes a condition puts that part of the condition. -/
theorem Condition.decodeEntry_written {c : Condition} {entries : List (Key × Node)} {style : TableStyle} {span : Option Span}
    (h : c.Written (.table style span entries)) : ∀ e ∈ entries, ∀ p, decodeEntry p e = .ok (c.put e.1.name p) := by
  intro e he p
  have hfill : FieldForm.Fill _ entries := h
  obtain ⟨f, hf, hname, hform⟩ := hfill.known e he
  simp only [List.mem_cons, List.not_mem_nil, or_false] at hf
  rcases hf with rfl | rfl | rfl
  · have hfield : Node.field e Node.decodeText = .ok c.var := Node.field_ok (Node.IsText.decodeText hform)
    simp [decodeEntry, put, ← hname, hfield]
  · have hfield : Node.field e Comparison.decode = .ok c.comparison := Node.field_ok (Comparison.Written.decode hform)
    simp [decodeEntry, put, ← hname, hfield]
  · have hfield : Node.field e Literal.decode = .ok c.value := Node.field_ok (Literal.Written.decode hform)
    simp [decodeEntry, put, ← hname, hfield]

/-- What writes a condition is decoded to it. -/
theorem Condition.Written.decode {c : Condition} {n : Node} (h : c.Written n) : Condition.decode n = .ok c := by
  cases n with
  | table style span entries =>
    have hfill : FieldForm.Fill _ entries := h
    have hvar : SetBy c.put (·.var) "var" (some c.var) := by constructor <;> grind [Condition.put]
    have hvalue : SetBy c.put (·.value) "value" (some c.value) := by constructor <;> grind [Condition.put]
    have hcomparison : SetBy c.put (fun p => p.comparison.getD .eq) "op" c.comparison := by constructor <;> grind [Condition.put]
    have hreadVar := hfill.get_foldl hvar (by simp) (p := {}) (by simp)
    have hreadValue := hfill.get_foldl hvalue (by simp) (p := {}) (by simp)
    have hreadComparison := hfill.get_foldl hcomparison (by simp) (p := {}) (by simp [eq_comm])
    unfold Condition.decode
    simp only [Node.entries?, foldlM_put (Condition.decodeEntry_written h)]
    simp [hreadVar, hreadValue, hreadComparison]
  | _ => exact h.elim

/-! ## Records of two fields -/

/-- A pair as it is after its fields were read. -/
def putPair {α β : Type} (first second : String) (a : α) (b : β) (name : String) (p : Option α × Option β) : Option α × Option β :=
  if name = first then (some a, p.2) else if name = second then (p.1, some b) else p

section

variable {α β : Type} {first second : String} {a : α} {b : β} {omissible : Prop} {formFirst formSecond : Node → Prop}
  {entries : List (Key × Node)}

/-- Reading the entries of a record of two fields finds the first value, and the second one unless its field was left out. -/
theorem Toml.FieldForm.Fill.foldlM_pair
    (hfill : FieldForm.Fill [{ name := first, form := formFirst }, { name := second, omissible := omissible, form := formSecond }] entries)
    (hne : first ≠ second) (step : Option α × Option β → Key × Node → Decoded (Option α × Option β))
    (hfirst : ∀ e p, e.1.name = first → formFirst e.2 → step p e = .ok (some a, p.2))
    (hsecond : ∀ e p, e.1.name = second → formSecond e.2 → step p e = .ok (p.1, some b)) :
    ∃ q, entries.foldlM step (none, none) = .ok (some a, q) ∧ (q = some b ∨ omissible ∧ q = none) := by
  have hstep : ∀ e ∈ entries, ∀ p, step p e = .ok (putPair first second a b e.1.name p) := by
    intro e he p
    obtain ⟨f, hf, hname, hform⟩ := hfill.known e he
    simp only [List.mem_cons, List.not_mem_nil, or_false] at hf
    rcases hf with rfl | rfl
    · simp [putPair, ← hname, hfirst e p hname.symm hform]
    · simp [putPair, ← hname, hne.symm, hsecond e p hname.symm hform]
  have hputFirst : SetBy (putPair first second a b) (·.1) first (some a) := by constructor <;> grind [putPair]
  have hputSecond : SetBy (putPair first second a b) (·.2) second (some b) := by constructor <;> grind [putPair]
  have hreadFirst := hfill.get_foldl hputFirst (by simp) (p := (none, none)) (by simp [hne.symm])
  have hreadSecond := hputSecond.get_foldl (entries.map (·.1.name)) (none, none)
  refine ⟨_, foldlM_put hstep _ |>.trans (congrArg Except.ok (Prod.ext hreadFirst rfl)), ?_⟩
  by_cases hmem : second ∈ entries.map (·.1.name)
  · rw [if_pos hmem] at hreadSecond
    exact .inl hreadSecond
  · rw [if_neg hmem] at hreadSecond
    have homitted := hfill.complete { name := second, omissible := omissible, form := formSecond } (by simp)
    exact .inr ⟨homitted.resolve_right hmem, hreadSecond⟩

/-- All keys of a record are those of its fields. -/
theorem Toml.Node.IsRecord.checkKeys {fields : List FieldForm} {n : Node} (h : n.IsRecord fields) :
    n.checkKeys (fields.map (·.name)) = .ok () := by
  cases n with
  | table style span entries =>
    have hknown : entries.filter (fun e => !(fields.map (·.name)).contains e.1.name) = [] := by
      rw [List.filter_eq_nil_iff]
      intro e he
      obtain ⟨f, hf, hname, -⟩ := FieldForm.Fill.known h e he
      simpa using ⟨f, hf, hname⟩
    simp only [Node.checkKeys, hknown]
  | _ => exact h.elim

/-- Two named parameters are read from a table of their fields. -/
theorem Toml.Node.IsRecord.decodePair {n : Node}
    (h : n.IsRecord [{ name := first, form := formFirst }, { name := second, omissible := omissible, form := formSecond }])
    (hne : first ≠ second) {decodeFirst : Node → Decoded α} {decodeSecond : Node → Decoded β}
    (hfirst : ∀ n, formFirst n → decodeFirst n = .ok a) (hsecond : ∀ n, formSecond n → decodeSecond n = .ok b) (default : Option β)
    (hdefault : omissible → default = some b) (record : String) :
    Step.decodePair record first second decodeFirst decodeSecond default n = .ok (a, b) := by
  have hkeys : n.checkKeys [first, second] = .ok () := h.checkKeys
  cases n with
  | table style span entries =>
    unfold Step.decodePair
    simp only [hkeys, Node.entries?, within_ok, Decoded.ok_bind]
    obtain ⟨q, hread, hq⟩ := FieldForm.Fill.foldlM_pair (a := a) (b := b) h hne
      (fun p e => if e.1.name = first then do pure (some (← Node.field e decodeFirst), p.2)
        else if e.1.name = second then do pure (p.1, some (← Node.field e decodeSecond)) else pure p)
      (fun e p hname hform => by simp [hname, Node.field_ok (hfirst e.2 hform)])
      (fun e p hname hform => by simp [hname, hne.symm, Node.field_ok (hsecond e.2 hform)])
    rw [hread]
    rcases hq with rfl | ⟨homitted, rfl⟩
    · simp
    · simp [hdefault homitted]
  | _ => exact h.elim

/-- A name with one more field is read from a table of the two. -/
theorem Toml.Node.IsRecord.decodeNamed {n : Node} {name : String}
    (h : n.IsRecord [{ name := "name", form := Node.IsText name }, { name := second, omissible := omissible, form := formSecond }])
    (hne : "name" ≠ second) {decodeSecond : Node → Decoded β} (hsecond : ∀ n, formSecond n → decodeSecond n = .ok b) (default : β)
    (hdefault : omissible → default = b) (record : String) :
    Scene.decodeNamed record second decodeSecond default n = .ok (name, b) := by
  cases n with
  | table style span entries =>
    unfold Scene.decodeNamed
    simp only [Node.entries?]
    obtain ⟨q, hread, hq⟩ := FieldForm.Fill.foldlM_pair (a := name) (b := b) h hne
      (fun p e => if e.1.name = "name" then do pure (some (← Node.field e Node.decodeText), p.2)
        else if e.1.name = second then do pure (p.1, some (← Node.field e decodeSecond)) else Node.unknownEntry e ["name", second])
      (fun e p hname hform => by simp [hname, Node.field_ok (Node.IsText.decodeText hform)])
      (fun e p hname hform => by simp [hname, hne.symm, Node.field_ok (hsecond e.2 hform)])
    rw [hread]
    rcases hq with rfl | ⟨homitted, rfl⟩
    · simp
    · simp [hdefault homitted]
  | _ => exact h.elim

end

/-! ## Steps -/

namespace Step

/-- What is under the key of a loop, from its entries on. -/
theorem decodeLoopEntries_ok {condition : Condition} {body : List Step} {entries : List (Key × Node)}
    (h : ∀ e ∈ entries, e.1.name = "condition" ∧ Condition.decode e.2 = .ok condition ∨
      e.1.name = "blocks" ∧ decodeList e.2 = .ok body)
    {c : Option Condition} (hc : c = some condition ∨ "condition" ∈ entries.map (·.1.name))
    {b : Option (List Step)} (hb : b = some body ∨ "blocks" ∈ entries.map (·.1.name)) :
    decodeLoopEntries c b entries = .ok (condition, body) := by
  induction entries generalizing c b with
  | nil =>
    obtain rfl : c = some condition := by simpa using hc
    obtain rfl : b = some body := by simpa using hb
    simp [decodeLoopEntries]
  | cons e rest ih =>
    have hrest := @ih fun e' he' => h e' (List.mem_cons_of_mem _ he')
    obtain ⟨key, n⟩ := e
    rcases h (key, n) List.mem_cons_self with ⟨hname, hread⟩ | ⟨hname, hread⟩
    · simp only [decodeLoopEntries, if_pos hname, hread, within_ok, Decoded.ok_bind]
      refine hrest (.inl rfl) ?_
      simpa [show key.name = "condition" from hname] using hb
    · have hne : key.name ≠ "condition" := by simp [show key.name = "blocks" from hname]
      simp only [decodeLoopEntries, if_neg hne, hread, within_ok, Decoded.ok_bind]
      refine hrest ?_ (.inl rfl)
      simpa [show key.name = "blocks" from hname] using hc

/-- An array of what writes steps is decoded to the steps. -/
theorem decodeList_ok {steps : List Step} (hitems : ∀ ns, WrittenAll steps ns → decodeItems ns = .ok steps) {n : Node}
    (h : n.IsArray (WrittenAll steps)) : decodeList n = .ok steps := by
  cases n with
  | array headers span items => rw [decodeList, hitems items h, within_ok]
  | _ => exact h.elim

/-- What writes a loop is decoded to its condition and its body. -/
theorem decodeLoop_ok {condition : Condition} {body : List Step} (hbody : ∀ ns, WrittenAll body ns → decodeItems ns = .ok body)
    {n : Node} (record : String)
    (h : n.IsRecord
      [{ name := "condition", form := condition.Written }, { name := "blocks", form := Node.IsArray (WrittenAll body) }]) :
    decodeLoop record n = .ok (condition, body) := by
  have hkeys : n.checkKeys ["condition", "blocks"] = .ok () := h.checkKeys
  cases n with
  | table style span entries =>
    have hfill : FieldForm.Fill _ entries := h
    have hentries : decodeLoopEntries none none entries = .ok (condition, body) := by
      refine decodeLoopEntries_ok ?_ (.inr ?_) (.inr ?_)
      · intro e he
        obtain ⟨f, hf, hname, hform⟩ := hfill.known e he
        simp only [List.mem_cons, List.not_mem_nil, or_false] at hf
        rcases hf with rfl | rfl
        · exact .inl ⟨hname.symm, Condition.Written.decode hform⟩
        · exact .inr ⟨hname.symm, decodeList_ok hbody hform⟩
      · exact (hfill.complete _ List.mem_cons_self).resolve_left id
      · exact (hfill.complete _ (List.mem_cons_of_mem _ List.mem_cons_self)).resolve_left id
    simp only [decodeLoop, hkeys, hentries, within_ok, Decoded.ok_bind]
  | _ => exact h.elim

/-- A step of a kind is what is under the only key of its table. -/
theorem exists_payload {tag : String} (kind : Kind) (hkind : Kind.ofName? tag = some kind) {form : Node → Prop} {n : Node}
    (h : n.IsTagged tag form) :
    ∃ style span key payload, n = .table style span [(key, payload)] ∧ Kind.ofName? key.name = some kind ∧ form payload := by
  match n, h with
  | .table style span [(key, payload)], ⟨hkey, hform⟩ => exact ⟨style, span, key, payload, rfl, hkey ▸ hkind, hform⟩

mutual

/-- A written step is decoded to the step. -/
theorem decode_written : ∀ (step : Step) (n : Node), step.Written n → decode n = .ok step
  | wait seconds, n, h => by
    obtain ⟨style, span, key, payload, rfl, hkind, hform⟩ := exists_payload .wait rfl h
    have hseconds : payload.decodeFloat = .ok seconds := hform.decodeFloat
    simp [decode, hkind, hseconds]
  | say message duration, n, h => by
    obtain ⟨style, span, key, payload, rfl, hkind, hform⟩ := exists_payload .say rfl h
    have hpair := hform.decodePair (by simp) (fun _ => Node.IsText.decodeText) (fun _ => Node.IsNumber.decodeFloat) (some 0.0)
      (fun hdefault => congrArg some hdefault.symm) (Kind.record .say)
    simp [decode, hkind, hpair]
  | playSound name volume, n, h => by
    obtain ⟨style, span, key, payload, rfl, hkind, hform⟩ := exists_payload .playSound rfl h
    have hpair := hform.decodePair (by simp) (fun _ => Node.IsText.decodeText) (fun _ => Node.IsNumber.decodeFloat) (some 1.0)
      (fun hdefault => congrArg some hdefault.symm) (Kind.record .playSound)
    simp [decode, hkind, hpair]
  | log message, n, h => by
    obtain ⟨style, span, key, payload, rfl, hkind, hform⟩ := exists_payload .log rfl h
    have hmessage : payload.decodeText = .ok message := hform.decodeText
    simp [decode, hkind, hmessage]
  | enable object, n, h => by
    obtain ⟨style, span, key, payload, rfl, hkind, hform⟩ := exists_payload .enable rfl h
    have hobject : payload.decodeText = .ok object := hform.decodeText
    simp [decode, hkind, hobject]
  | disable object, n, h => by
    obtain ⟨style, span, key, payload, rfl, hkind, hform⟩ := exists_payload .disable rfl h
    have hobject : payload.decodeText = .ok object := hform.decodeText
    simp [decode, hkind, hobject]
  | set var value, n, h => by
    obtain ⟨style, span, key, payload, rfl, hkind, hform⟩ := exists_payload .set rfl h
    have hpair := hform.decodePair (by simp) (fun _ => Node.IsText.decodeText) (fun _ => Literal.Written.decode) none
      (fun hdefault => hdefault.elim) (Kind.record .set)
    simp [decode, hkind, hpair]
  | change var amount, n, h => by
    obtain ⟨style, span, key, payload, rfl, hkind, hform⟩ := exists_payload .change rfl h
    have hpair := hform.decodePair (by simp) (fun _ => Node.IsText.decodeText) (fun _ => Node.IsNumber.decodeFloat) none
      (fun hdefault => hdefault.elim) (Kind.record .change)
    simp [decode, hkind, hpair]
  | waitUntil condition, n, h => by
    obtain ⟨style, span, key, payload, rfl, hkind, hform⟩ := exists_payload .waitUntil rfl h
    have hcondition : Condition.decode payload = .ok condition := Condition.Written.decode hform
    simp [decode, hkind, hcondition]
  | sequence steps, n, h => by
    obtain ⟨style, span, key, payload, rfl, hkind, hform⟩ := exists_payload .sequence rfl h
    have hsteps : decodeList payload = .ok steps := decodeList_ok (decodeItems_written steps) hform
    simp [decode, hkind, hsteps]
  | repeatForever body, n, h => by
    obtain ⟨style, span, key, payload, rfl, hkind, hform⟩ := exists_payload .repeatForever rfl h
    have hbody : decodeList payload = .ok body := decodeList_ok (decodeItems_written body) hform
    simp [decode, hkind, hbody]
  | repeatWhile condition body, n, h => by
    obtain ⟨style, span, key, payload, rfl, hkind, hform⟩ := exists_payload .repeatWhile rfl h
    have hloop := decodeLoop_ok (decodeItems_written body) (Kind.record .repeatWhile) hform
    simp [decode, hkind, hloop]
  | repeatUntil condition body, n, h => by
    obtain ⟨style, span, key, payload, rfl, hkind, hform⟩ := exists_payload .repeatUntil rfl h
    have hloop := decodeLoop_ok (decodeItems_written body) (Kind.record .repeatUntil) hform
    simp [decode, hkind, hloop]
termination_by structural step => step

/-- Steps that are written one after another are decoded so. -/
theorem decodeItems_written : ∀ (steps : List Step) (ns : List Node), WrittenAll steps ns → decodeItems ns = .ok steps
  | [], [], _ => rfl
  | step :: steps, n :: ns, h => by
    have hstep : decode n = .ok step := decode_written step n h.1
    have hrest : decodeItems ns = .ok steps := decodeItems_written steps ns h.2
    simp [decodeItems, hstep, hrest]
  | [], _ :: _, h => h.elim
  | _ :: _, [], h => h.elim
termination_by structural steps => steps

end

end Step

/-! ## Scenes -/

/-- What writes a declaration is decoded to it. -/
theorem ObjectDeclaration.decode_written (o : ObjectDeclaration) (n : Node) (h : o.Written n) : ObjectDeclaration.decode n = .ok o := by
  have hnamed := Node.IsRecord.decodeNamed h (by simp) (fun _ => Node.IsBoolean.decodeBoolean) true Eq.symm "struct ObjectSpec"
  rw [ObjectDeclaration.decode, hnamed]
  rfl

/-- What writes a script is decoded to it. -/
theorem Script.decode_written (s : Script) (n : Node) (h : s.Written n) : Script.decode n = .ok s := by
  have hsteps : ∀ n : Node, n.IsArray (Step.WrittenAll s.steps) → Step.decodeList n = .ok s.steps :=
    fun _ => Step.decodeList_ok (Step.decodeItems_written s.steps)
  have hnamed := Node.IsRecord.decodeNamed h (by simp) hsteps [] Eq.symm "struct ScriptSpec"
  rw [Script.decode, hnamed]
  rfl

namespace Scene

/-- The variables as they are after the entry of one was read. -/
def putVariable (initial : Dictionary Literal) (name : String) (d : Dictionary Literal) : Dictionary Literal :=
  match initial.get? name with
  | some value => d.insert name value
  | none => d.erase name

/-- A variable is set by putting it. -/
theorem setBy_putVariable (initial : Dictionary Literal) (name : String) :
    SetBy (putVariable initial) (·.get? name) name (initial.get? name) := by
  constructor
  · intro d
    unfold putVariable
    cases initial.get? name with
    | some value => simp [Dictionary.get?_insert]
    | none => simp [Dictionary.get?_erase]
  · intro d other hother
    unfold putVariable
    cases initial.get? other with
    | some value => simp [Dictionary.get?_insert, hother.symm]
    | none => simp [Dictionary.get?_erase, hother.symm]

/-- What writes the variables is decoded to them. -/
theorem decodeVariables_written {initial : Dictionary Literal} {n : Node} (h : VariablesWritten initial n) :
    decodeVariables n = .ok initial := by
  cases n with
  | table style span entries =>
    have hfill : FieldForm.Fill _ entries := h
    have hstep : ∀ e ∈ entries, ∀ d : Dictionary Literal,
        (do pure (d.insert e.1.name (← Node.field e Literal.decode)) : Decoded _) = .ok (putVariable initial e.1.name d) := by
      intro e he d
      obtain ⟨f, hf, hname, hform⟩ := hfill.known e he
      obtain ⟨⟨name, value⟩, hmem, rfl⟩ := List.mem_map.mp hf
      have hlookup : initial.get? e.1.name = some value := hname ▸ (initial.mem_entries_iff name value).mp hmem
      have hfield : Node.field e Literal.decode = .ok value := Node.field_ok (Literal.Written.decode hform)
      simp [putVariable, hlookup, hfield]
    have hread : (entries.map (·.1.name)).foldl (fun d name => putVariable initial name d) ∅ = initial := by
      apply Dictionary.ext_get?
      intro name
      rw [(setBy_putVariable initial name).get_foldl]
      by_cases hmem : name ∈ entries.map (·.1.name)
      · rw [if_pos hmem]
      · rw [if_neg hmem]
        cases hlookup : initial.get? name with
        | none => rfl
        | some value =>
          have hentry : (name, value) ∈ initial.entries := (initial.mem_entries_iff name value).mpr hlookup
          have hcomplete := hfill.complete _ (List.mem_map_of_mem hentry)
          exact (hcomplete.elim id hmem).elim
    simp only [decodeVariables, Node.entries?, foldlM_put hstep, hread, within_ok]
  | _ => exact h.elim

/-- A scene as it is after a field of its document was read. -/
def put (scene : Scene) (name : String) (s : Scene) : Scene :=
  if name = "name" then { s with name := scene.name }
  else if name = "variables" then { s with initial := scene.initial }
  else if name = "objects" then { s with objects := scene.objects }
  else if name = "scripts" then { s with scripts := scene.scripts }
  else s

/-- An entry of what writes a scene puts that part of the scene. -/
theorem decodeEntry_written {scene : Scene} {entries : List (Key × Node)} {style : TableStyle} {span : Option Span}
    (h : scene.Written (.table style span entries)) : ∀ e ∈ entries, ∀ s, decodeEntry s e = .ok (scene.put e.1.name s) := by
  intro e he s
  have hfill : FieldForm.Fill _ entries := h
  obtain ⟨f, hf, hname, hform⟩ := hfill.known e he
  simp only [List.mem_cons, List.not_mem_nil, or_false] at hf
  rcases hf with rfl | rfl | rfl | rfl
  · obtain ⟨name, hsome, htext⟩ := hform
    have hfield : Node.field e Node.decodeText = .ok name := Node.field_ok htext.decodeText
    simp [decodeEntry, put, ← hname, hfield, hsome]
  · have hfield : Node.field e decodeVariables = .ok scene.initial := Node.field_ok (decodeVariables_written hform)
    simp [decodeEntry, put, ← hname, hfield]
  · have hfield : Node.field e (Node.decodeItems ObjectDeclaration.decode) = .ok scene.objects :=
      Node.field_ok (Node.IsArray.decodeItems ObjectDeclaration.decode_written hform)
    simp [decodeEntry, put, ← hname, hfield]
  · have hfield : Node.field e (Node.decodeItems Script.decode) = .ok scene.scripts :=
      Node.field_ok (Node.IsArray.decodeItems Script.decode_written hform)
    simp [decodeEntry, put, ← hname, hfield]

/-- Reading all fields of the document of a scene gives the scene. -/
theorem foldl_put {scene : Scene} {entries : List (Key × Node)} {style : TableStyle} {span : Option Span}
    (h : scene.Written (.table style span entries)) :
    (entries.map (·.1.name)).foldl (fun s name => scene.put name s) {} = scene := by
  have hfill : FieldForm.Fill _ entries := h
  have hname : SetBy scene.put (·.name) "name" scene.name := by constructor <;> grind [put]
  have hvariables : SetBy scene.put (·.initial) "variables" scene.initial := by constructor <;> grind [put]
  have hobjects : SetBy scene.put (·.objects) "objects" scene.objects := by constructor <;> grind [put]
  have hscripts : SetBy scene.put (·.scripts) "scripts" scene.scripts := by constructor <;> grind [put]
  have hreadName := hfill.get_foldl hname (by simp) (p := {}) (by simp [eq_comm])
  have hreadVariables := hfill.get_foldl hvariables (by simp) (p := {}) (by simp [eq_comm])
  have hreadObjects := hfill.get_foldl hobjects (by simp) (p := {}) (by simp [eq_comm])
  have hreadScripts := hfill.get_foldl hscripts (by simp) (p := {}) (by simp [eq_comm])
  have heq : ∀ read : Scene, read.name = scene.name → read.initial = scene.initial → read.objects = scene.objects →
      read.scripts = scene.scripts → read = scene := by
    rintro ⟨⟩ rfl rfl rfl rfl
    rfl
  exact heq _ hreadName hreadVariables hreadObjects hreadScripts

/-- From every form in which a scene is written it is read back. -/
theorem decode_written {scene : Scene} {n : Node} (h : scene.Written n) : Scene.decode n = .ok scene := by
  cases n with
  | table style span entries =>
    unfold decode
    simp only [Node.entries?, Option.getD_some, foldlM_put (decodeEntry_written h)]
    rw [foldl_put h]
  | _ => exact h.elim

/-- Decoding undoes the encoding: every scene can be written, and each of its forms is decoded to this scene. -/
theorem decode_undoes_writing (scene : Scene) : (∃ n, scene.Written n) ∧ ∀ n, scene.Written n → Scene.decode n = .ok scene :=
  ⟨⟨scene.toNode, scene.written_toNode⟩, fun _ => decode_written⟩

/-- A scene that counts its laps. -/
def laps : Scene where
  initial := ⟨[("laps", .integer 0)], by simp⟩
  objects := [{ name := "light" }]
  scripts :=
    [{ name := "blink"
       steps := [.repeatUntil { var := "laps", comparison := .ge, value := .integer 3 }
        [.wait 2.0, .say "done" 0.0, .change "laps" 1.0]] }]

/-- A form of `laps` with the scripts first, the body of the loop before its condition, the sign of the comparison and integers for the
numbers. The fields that hold their default are left out. -/
def lapsDocument : Node :=
  .table .header none
    [({ name := "scripts" }, .array true none
        [record
          [("blocks", list
              [tagged "repeat_until" (record
                [("blocks", list
                    [tagged "wait" (.integer none 2), tagged "say" (record [("message", .text none "done")]),
                      tagged "change" (record [("by", .integer none 1), ("var", .text none "laps")])]),
                  ("condition", record [("value", .integer none 3), ("op", .text none ">="), ("var", .text none "laps")])])]),
            ("name", .text none "blink")]]),
      ({ name := "objects" }, .array true none [record [("name", .text none "light")]]),
      ({ name := "variables" }, record [("laps", .integer none 0)])]

open FieldForm (Fill) in
/-- The document about laps writes the scene about them. -/
theorem laps_written : laps.Written lapsDocument := by
  have hcondition : Condition.Written { var := "laps", comparison := .ge, value := .integer 3 }
      (record [("value", .integer none 3), ("op", .text none ">="), ("var", .text none "laps")]) := by
    refine Fill.perm ?_ (List.reverse_perm _)
    exact Fill.write rfl rfl (by simp) (Fill.write rfl (.inr rfl) (by simp) (Fill.write rfl rfl (by simp) Fill.nil))
  have hwait : Step.Written (.wait 2.0) (tagged "wait" (.integer none 2)) := ⟨rfl, rfl, rfl⟩
  have hsay : Step.Written (.say "done" 0.0) (tagged "say" (record [("message", .text none "done")])) :=
    ⟨rfl, Fill.write rfl rfl (by simp) (Fill.leaveOut rfl Fill.nil)⟩
  have hchange : Step.Written (.change "laps" 1.0)
      (tagged "change" (record [("by", .integer none 1), ("var", .text none "laps")])) := by
    refine ⟨rfl, Fill.perm ?_ (List.Perm.swap _ _ _)⟩
    exact Fill.write rfl rfl (by simp) (Fill.write rfl ⟨rfl, rfl⟩ (by simp) Fill.nil)
  have hobject : ObjectDeclaration.Written { name := "light" } (record [("name", .text none "light")]) :=
    Fill.write rfl rfl (by simp) (Fill.leaveOut rfl Fill.nil)
  have hvariables : VariablesWritten laps.initial (record [("laps", .integer none 0)]) := Fill.write rfl rfl (by simp) Fill.nil
  refine Fill.leaveOut rfl (Fill.perm ?_ (List.reverse_perm _))
  refine Fill.write rfl hvariables (by simp) (Fill.write rfl (.cons hobject .nil) (by simp) ?_)
  refine Fill.write rfl (.cons ?_ .nil) (by simp) Fill.nil
  -- The script, and the loop that is its only step.
  refine Fill.perm ?_ (List.Perm.swap _ _ _)
  refine Fill.write rfl rfl (by simp) (Fill.write rfl ⟨⟨rfl, ?_⟩, trivial⟩ (by simp) Fill.nil)
  refine Fill.perm ?_ (List.Perm.swap _ _ _)
  exact Fill.write rfl hcondition (by simp) (Fill.write rfl ⟨hwait, hsay, hchange, trivial⟩ (by simp) Fill.nil)

/-- A document with an alias, an integer for a float and omitted defaults. -/
theorem decode_undoes_writing_laps : laps.Written lapsDocument ∧ Scene.decode lapsDocument = .ok laps :=
  ⟨laps_written, (decode_undoes_writing laps).2 lapsDocument laps_written⟩

end Scene

end BlockScript
