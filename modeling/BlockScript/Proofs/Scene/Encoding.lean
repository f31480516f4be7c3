import BlockScript.Scene.Basic
import BlockScript.Toml.Node
import Mathlib.Data.List.Forall2

/-!
# Scenes as documents

How a scene is written, independently of how it is read. A block is a table with its kind as the only key. The fields of a table stand
in any order, a field with its default may be left out, a comparison goes by its name or its sign, and a number of a block may be written
as an integer if it is one. `Scene.Written` says of a document that it is such a form of a scene, and `Scene.toNode` is one form that
every scene has (`written_toNode`).
-/

namespace BlockScript

namespace Toml

/-- A field of a table: its name, when it may be left out, and how its value is written. -/
structure FieldForm where
  name : String
  omissible : Prop := False
  form : Node → Prop

/-- The entries of a table are the given fields in some order, without some of those that may be left out. -/
structure FieldForm.Fill (fields : List FieldForm) (entries : List (Key × Node)) : Prop where
  distinct : (entries.map (·.1.name)).Nodup
  known : ∀ e ∈ entries, ∃ f ∈ fields, f.name = e.1.name ∧ f.form e.2
  complete : ∀ f ∈ fields, f.omissible ∨ f.name ∈ entries.map (·.1.name)

namespace Node

/-- A text. -/
def IsText (s : String) : Node → Prop
  | text _ t => t = s
  | _ => False

/-- A truth value. -/
def IsBoolean (b : Bool) : Node → Prop
  | boolean _ c => c = b
  | _ => False

/-- A double, or an integer that is exactly this double. The negative zero is no integer. -/
def IsNumber (x : Float) : Node → Prop
  | float _ y => y = x
  | integer _ n => Double.whole? x = some n.natAbs ∧ Double.negative x = decide (n < 0)
  | _ => False

/-- A table of the given fields. -/
def IsRecord (fields : List FieldForm) : Node → Prop
  | table _ _ entries => FieldForm.Fill fields entries
  | _ => False

/-- A table with one key and what is written under it. -/
def IsTagged (tag : String) (form : Node → Prop) : Node → Prop
  | table _ _ [(key, n)] => key.name = tag ∧ form n
  | _ => False

/-- An array, of whose items something holds. -/
def IsArray (form : List Node → Prop) : Node → Prop
  | array _ _ items => form items
  | _ => False

end Node

end Toml

open Toml

/-! ## The written forms -/

/-- The sign of a comparison. -/
def Comparison.sign : Comparison → String
  | eq => "==" | ne => "!=" | lt => "<" | le => "<=" | gt => ">" | ge => ">="

/-- A comparison is written as its name or its sign. -/
def Comparison.Written (c : Comparison) (n : Node) : Prop := n.IsText c.name ∨ n.IsText c.sign

/-- A literal is written as a value of its own kind. -/
def Literal.Written : Literal → Node → Prop
  | boolean b, .boolean _ c => c = b
  | integer k, .integer _ n => n = k
  | float x, .float _ y => y = x
  | text s, .text _ t => t = s
  | _, _ => False

def Condition.Written (c : Condition) : Node → Prop :=
  Node.IsRecord
    [{ name := "var", form := Node.IsText c.var },
      { name := "op", omissible := c.comparison = .eq, form := c.comparison.Written },
      { name := "value", form := c.value.Written }]

namespace Step

mutual

/-- A step is written as a table with its kind as the only key. -/
def Written : Step → Node → Prop
  | wait seconds => Node.IsTagged "wait" (Node.IsNumber seconds)
  | say message duration => Node.IsTagged "say" (Node.IsRecord
      [{ name := "message", form := Node.IsText message },
        { name := "duration", omissible := duration = 0.0, form := Node.IsNumber duration }])
  | playSound name volume => Node.IsTagged "play_sound" (Node.IsRecord
      [{ name := "name", form := Node.IsText name },
        { name := "volume", omissible := volume = 1.0, form := Node.IsNumber volume }])
  | log message => Node.IsTagged "log" (Node.IsText message)
  | enable object => Node.IsTagged "enable" (Node.IsText object)
  | disable object => Node.IsTagged "disable" (Node.IsText object)
  | set var value => Node.IsTagged "set" (Node.IsRecord
      [{ name := "var", form := Node.IsText var }, { name := "value", form := value.Written }])
  | change var amount => Node.IsTagged "change" (Node.IsRecord
      [{ name := "var", form := Node.IsText var }, { name := "by", form := Node.IsNumber amount }])
  | waitUntil condition => Node.IsTagged "wait_until" condition.Written
  | sequence steps => Node.IsTagged "sequence" (Node.IsArray (WrittenAll steps))
  | repeatForever body => Node.IsTagged "repeat_forever" (Node.IsArray (WrittenAll body))
  | repeatWhile condition body => Node.IsTagged "repeat_while" (Node.IsRecord
      [{ name := "condition", form := condition.Written }, { name := "blocks", form := Node.IsArray (WrittenAll body) }])
  | repeatUntil condition body => Node.IsTagged "repeat_until" (Node.IsRecord
      [{ name := "condition", form := condition.Written }, { name := "blocks", form := Node.IsArray (WrittenAll body) }])
termination_by structural step => step

/-- Steps are written one after another. -/
def WrittenAll : List Step → List Node → Prop
  | [], [] => True
  | step :: steps, n :: ns => step.Written n ∧ WrittenAll steps ns
  | _, _ => False
termination_by structural steps => steps

end

end Step

def ObjectDeclaration.Written (o : ObjectDeclaration) : Node → Prop :=
  Node.IsRecord
    [{ name := "name", form := Node.IsText o.name },
      { name := "enabled", omissible := o.enabled = true, form := Node.IsBoolean o.enabled }]

def Script.Written (s : Script) : Node → Prop :=
  Node.IsRecord
    [{ name := "name", form := Node.IsText s.name },
      { name := "blocks", omissible := s.steps = [], form := Node.IsArray (Step.WrittenAll s.steps) }]

/-- The variables are written as a table, each under its name. -/
def Scene.VariablesWritten (initial : Dictionary Literal) : Node → Prop :=
  Node.IsRecord (initial.entries.map fun e => { name := e.1, form := e.2.Written })

/-- A document that describes a scene. A scene without a name has no field for it. -/
def Scene.Written (s : Scene) : Node → Prop :=
  Node.IsRecord
    [{ name := "name", omissible := s.name = none, form := fun n => ∃ name, s.name = some name ∧ n.IsText name },
      { name := "variables", omissible := s.initial = ∅, form := Scene.VariablesWritten s.initial },
      { name := "objects", omissible := s.objects = [], form := Node.IsArray (List.Forall₂ ObjectDeclaration.Written s.objects) },
      { name := "scripts", omissible := s.scripts = [], form := Node.IsArray (List.Forall₂ Script.Written s.scripts) }]

/-! ## A form of every scene -/

namespace Toml.Node

/-- A table in braces. -/
def record (fields : List (String × Node)) : Node := table .braces none (fields.map fun f => ({ name := f.1 }, f.2))

def tagged (tag : String) (n : Node) : Node := record [(tag, n)]

def list (items : List Node) : Node := array false none items

end Toml.Node

open Toml.Node (record tagged list)

def Literal.toNode : Literal → Node
  | boolean b => .boolean none b
  | integer n => .integer none n
  | float x => .float none x
  | text s => .text none s

def Condition.toNode (c : Condition) : Node :=
  record [("var", .text none c.var), ("op", .text none c.comparison.name), ("value", c.value.toNode)]

namespace Step

mutual

def toNode : Step → Node
  | wait seconds => tagged "wait" (.float none seconds)
  | say message duration => tagged "say" (record [("message", .text none message), ("duration", .float none duration)])
  | playSound name volume => tagged "play_sound" (record [("name", .text none name), ("volume", .float none volume)])
  | log message => tagged "log" (.text none message)
  | enable object => tagged "enable" (.text none object)
  | disable object => tagged "disable" (.text none object)
  | set var value => tagged "set" (record [("var", .text none var), ("value", value.toNode)])
  | change var amount => tagged "change" (record [("var", .text none var), ("by", .float none amount)])
  | waitUntil condition => tagged "wait_until" condition.toNode
  | sequence steps => tagged "sequence" (list (toNodes steps))
  | repeatForever body => tagged "repeat_forever" (list (toNodes body))
  | repeatWhile condition body => tagged "repeat_while" (record [("condition", condition.toNode), ("blocks", list (toNodes body))])
  | repeatUntil condition body => tagged "repeat_until" (record [("condition", condition.toNode), ("blocks", list (toNodes body))])
termination_by structural step => step

def toNodes : List Step → List Node
  | [] => []
  | step :: steps => step.toNode :: toNodes steps
termination_by structural steps => steps

end

end Step

def ObjectDeclaration.toNode (o : ObjectDeclaration) : Node :=
  record [("name", .text none o.name), ("enabled", .boolean none o.enabled)]

def Script.toNode (s : Script) : Node := record [("name", .text none s.name), ("blocks", list (Step.toNodes s.steps))]

/-- The form of a scene with every field spelled out. -/
def Scene.toNode (s : Scene) : Node :=
  record <|
    (s.name.map fun name => ("name", .text none name)).toList ++
      [("variables", record (s.initial.entries.map fun e => (e.1, e.2.toNode))),
        ("objects", list (s.objects.map (·.toNode))), ("scripts", list (s.scripts.map (·.toNode)))]

namespace Toml.FieldForm.Fill

variable {f : FieldForm} {fields : List FieldForm} {entries : List (Key × Node)}

theorem nil : Fill [] [] := by
  constructor <;> simp

/-- One more field, which is written. -/
theorem write {key : Key} {n : Node} (hname : f.name = key.name) (hform : f.form n) (hnew : key.name ∉ entries.map (·.1.name))
    (h : Fill fields entries) : Fill (f :: fields) ((key, n) :: entries) := by
  constructor
  · exact List.nodup_cons.mpr ⟨hnew, h.distinct⟩
  · intro e he
    rcases List.mem_cons.mp he with rfl | he
    · exact ⟨f, List.mem_cons_self, hname, hform⟩
    · obtain ⟨g, hg, hwritten⟩ := h.known e he
      exact ⟨g, List.mem_cons_of_mem _ hg, hwritten⟩
  · intro g hg
    rw [List.map_cons, List.mem_cons]
    rcases List.mem_cons.mp hg with rfl | hg
    · exact .inr (.inl hname)
    · exact (h.complete g hg).imp_right .inr

/-- One more field, which is left out. -/
theorem leaveOut (hf : f.omissible) (h : Fill fields entries) : Fill (f :: fields) entries := by
  refine ⟨h.distinct, ?_, ?_⟩
  · intro e he
    obtain ⟨g, hg, hwritten⟩ := h.known e he
    exact ⟨g, List.mem_cons_of_mem _ hg, hwritten⟩
  · intro g hg
    rcases List.mem_cons.mp hg with rfl | hg
    · exact .inl hf
    · exact h.complete g hg

/-- The order of the entries does not matter. -/
theorem perm {entries' : List (Key × Node)} (h : Fill fields entries) (hperm : entries.Perm entries') : Fill fields entries' := by
  constructor
  · exact (hperm.map _).nodup_iff.mp h.distinct
  · intro e he
    exact h.known e (hperm.mem_iff.mpr he)
  · intro g hg
    exact (h.complete g hg).imp_right (hperm.map _).mem_iff.mp

end Toml.FieldForm.Fill

open Toml.FieldForm (Fill)

/-- A literal is written by its node. -/
theorem Literal.written_toNode (l : Literal) : l.Written l.toNode := by
  cases l <;> rfl

/-- A condition is written by its node. -/
theorem Condition.written_toNode (c : Condition) : c.Written c.toNode :=
  Fill.write rfl rfl (by simp) (Fill.write rfl (.inl rfl) (by simp) (Fill.write rfl c.value.written_toNode (by simp) Fill.nil))

namespace Step

mutual

/-- A step is written by its node. -/
theorem written_toNode : ∀ step : Step, step.Written step.toNode
  | wait seconds => ⟨rfl, rfl⟩
  | say message duration => ⟨rfl, Fill.write rfl rfl (by simp) (Fill.write rfl rfl (by simp) Fill.nil)⟩
  | playSound name volume => ⟨rfl, Fill.write rfl rfl (by simp) (Fill.write rfl rfl (by simp) Fill.nil)⟩
  | log message => ⟨rfl, rfl⟩
  | enable object => ⟨rfl, rfl⟩
  | disable object => ⟨rfl, rfl⟩
  | set var value => ⟨rfl, Fill.write rfl rfl (by simp) (Fill.write rfl value.written_toNode (by simp) Fill.nil)⟩
  | change var amount => ⟨rfl, Fill.write rfl rfl (by simp) (Fill.write rfl rfl (by simp) Fill.nil)⟩
  | waitUntil condition => ⟨rfl, condition.written_toNode⟩
  | sequence steps => ⟨rfl, writtenAll_toNodes steps⟩
  | repeatForever body => ⟨rfl, writtenAll_toNodes body⟩
  | repeatWhile condition body =>
    ⟨rfl, Fill.write rfl condition.written_toNode (by simp) (Fill.write rfl (writtenAll_toNodes body) (by simp) Fill.nil)⟩
  | repeatUntil condition body =>
    ⟨rfl, Fill.write rfl condition.written_toNode (by simp) (Fill.write rfl (writtenAll_toNodes body) (by simp) Fill.nil)⟩
termination_by structural step => step

/-- Steps are written by their nodes. -/
theorem writtenAll_toNodes : ∀ steps : List Step, WrittenAll steps (toNodes steps)
  | [] => trivial
  | step :: steps => ⟨step.written_toNode, writtenAll_toNodes steps⟩
termination_by structural steps => steps

end

end Step

/-- A declaration is written by its node. -/
theorem ObjectDeclaration.written_toNode (o : ObjectDeclaration) : o.Written o.toNode :=
  Fill.write rfl rfl (by simp) (Fill.write rfl rfl (by simp) Fill.nil)

/-- A script is written by its node. -/
theorem Script.written_toNode (s : Script) : s.Written s.toNode :=
  Fill.write rfl rfl (by simp) (Fill.write rfl (Step.writtenAll_toNodes s.steps) (by simp) Fill.nil)

/-- Variables are written by the record of their initial values. -/
theorem Scene.variablesWritten_record (initial : Dictionary Literal) :
    VariablesWritten initial (record (initial.entries.map fun e => (e.1, e.2.toNode))) := by
  suffices h : ∀ entries : List (String × Literal), entries.Pairwise (fun a b => a.1 < b.1) →
      (record (entries.map fun e => (e.1, e.2.toNode))).IsRecord
        (entries.map fun e => { name := e.1, form := e.2.Written }) from h initial.entries initial.ascending
  intro entries hascending
  induction entries with
  | nil => exact Fill.nil
  | cons e rest ih =>
    obtain ⟨hfirst, hrest⟩ := List.pairwise_cons.mp hascending
    refine Fill.write rfl e.2.written_toNode ?_ (ih hrest)
    intro hmem
    obtain ⟨e', he', heq⟩ : ∃ e' ∈ rest, e'.1 = e.1 := by simpa using hmem
    exact String.lt_irrefl _ (heq ▸ hfirst e' he')

/-- Every scene can be written. -/
theorem Scene.written_toNode (s : Scene) : s.Written s.toNode := by
  have hobjects : List.Forall₂ ObjectDeclaration.Written s.objects (s.objects.map (·.toNode)) :=
    List.forall₂_map_right_iff.mpr (List.forall₂_same.mpr fun o _ => o.written_toNode)
  have hscripts : List.Forall₂ Script.Written s.scripts (s.scripts.map (·.toNode)) :=
    List.forall₂_map_right_iff.mpr (List.forall₂_same.mpr fun script _ => script.written_toNode)
  have hrest : Fill
      [{ name := "variables", omissible := s.initial = ∅, form := VariablesWritten s.initial },
        { name := "objects", omissible := s.objects = [], form := Node.IsArray (List.Forall₂ ObjectDeclaration.Written s.objects) },
        { name := "scripts", omissible := s.scripts = [], form := Node.IsArray (List.Forall₂ Script.Written s.scripts) }]
      [({ name := "variables" }, record (s.initial.entries.map fun e => (e.1, e.2.toNode))),
        ({ name := "objects" }, list (s.objects.map (·.toNode))), ({ name := "scripts" }, list (s.scripts.map (·.toNode)))] := by
    refine Fill.write rfl (variablesWritten_record s.initial) (by simp) ?_
    exact Fill.write rfl hobjects (by simp) (Fill.write rfl hscripts (by simp) Fill.nil)
  unfold Written toNode
  -- The field of the name is the only one that a form may have to do without.
  cases s.name with
  | none => exact Fill.leaveOut rfl hrest
  | some name => exact Fill.write rfl ⟨name, rfl, rfl⟩ (by simp) hrest

end BlockScript
