/-
Reading dumped templates.

Every part of a template is an object of its own shape in the dump: it tells by its only key which
alternative it is, or has the fields of its record in their order.  So the decoders `ofJson?` of the
parts undo `toJson`, one record after the other, and `Template.ofDump?` undoes `Template.dump`.

* `Value.ofJson?_toJson`, `Arguments.ofJson?_toJson`, `Item.ofJson?_toJson` — what is decoded is
  what has been encoded, named arguments in their order;
* `Template.ofDump?_dump_and_dump_inj` — a template can be told from its dump, so that no two
  templates have the same one.
-/
import Mathlib
import Stencil.Proofs.JsonText
import Stencil.Template.Dump

namespace Stencil

/-! ### Decoders -/

/-- The operator of a name. -/
def Comparison.ofName? (s : String) : Option Comparison :=
  [eq, notEq, gt, lt, gtEq, ltEq].find? fun op => op.name = s

/-- The value that a JSON value stands for. -/
def Value.ofJson? : Json → Option Value
  | .object [("Variable", .string name)] => some (.variable name)
  | .object [("String", .string text)] => some (.string text)
  | .object [("Number", .string digits)] => some (.number digits)
  | .object [("Logical",
      .object [("operator", .string name), ("left", left), ("right", right)])] => do
    return .comparison (← Comparison.ofName? name) (← ofJson? left) (← ofJson? right)
  | _ => none

/-- Named arguments with the given entries, if no key appears twice. -/
def NamedArguments.ofEntries? (entries : List (String × Value)) : Option NamedArguments :=
  if h : (entries.map Prod.fst).Nodup then some ⟨entries, h⟩ else none

/-- The entry that a field stands for. -/
def NamedArguments.ofField? (field : String × Json) : Option (String × Value) :=
  (Value.ofJson? field.2).map fun value => (field.1, value)

/-- The arguments that a JSON value stands for. -/
def Arguments.ofJson? : Json → Option Arguments
  | .object [("positional", .array values), ("named", .object fields)] => do
    let entries ← fields.mapM NamedArguments.ofField?
    return ⟨← values.mapM Value.ofJson?, ← NamedArguments.ofEntries? entries⟩
  | _ => none

/-- The call that a JSON value stands for. -/
def Call.ofJson? : Json → Option Call
  | .object [("name", .string name), ("arguments", arguments)] => do
    return ⟨name, ← Arguments.ofJson? arguments⟩
  | _ => none

mutual

/-- The item that a JSON value stands for. -/
def Item.ofJson? : Json → Option Item
  | .object [("Text", .string content)] => some (.text content)
  | .object [("Expression", value)] => return .expression (← Value.ofJson? value)
  | .object [("Call", call)] => return .call (← Call.ofJson? call)
  | .object [("Block", block)] => return .block (← Block.ofJson? block)
  | _ => none

/-- The block that a JSON value stands for. -/
def Block.ofJson? : Json → Option Block
  | .object [("name", .string name), ("arguments", arguments), ("main_section", main),
      ("sections", .array sections)] => do
    return ⟨name, ← Arguments.ofJson? arguments, ← Section.ofJson? main,
      ← Section.listOfJson? sections⟩
  | _ => none

/-- The section that a JSON value stands for.  Only a main section has no name. -/
def Section.ofJson? : Json → Option Section
  | .object [("name", .null), ("arguments", arguments), ("items", .array items)] => do
    return ⟨none, ← Arguments.ofJson? arguments, ← Item.listOfJson? items⟩
  | .object [("name", .string name), ("arguments", arguments), ("items", .array items)] => do
    return ⟨some name, ← Arguments.ofJson? arguments, ← Item.listOfJson? items⟩
  | _ => none

def Item.listOfJson? : List Json → Option (List Item)
  | [] => some []
  | item :: rest => return (← Item.ofJson? item) :: (← Item.listOfJson? rest)

def Section.listOfJson? : List Json → Option (List Section)
  | [] => some []
  | s :: rest => return (← Section.ofJson? s) :: (← Section.listOfJson? rest)

end

/-- The template that a JSON value stands for. -/
def Template.ofJson? : Json → Option Template
  | .object [("items", .array items)] => return ⟨← Item.listOfJson? items⟩
  | _ => none

/-- The template of a dump. -/
def Template.ofDump? (text : String) : Option Template :=
  (Json.parse? text).bind ofJson?

/-! ### What is encoded is decoded -/

theorem Comparison.ofName?_name (op : Comparison) : ofName? op.name = some op := by
  cases op <;> decide

theorem Value.ofJson?_toJson (v : Value) : ofJson? v.toJson = some v := by
  induction v with
  | «variable» => rw [toJson, Json.tagged, ofJson?]
  | string => rw [toJson, Json.tagged, ofJson?]
  | number => rw [toJson, Json.tagged, ofJson?]
  | comparison op left right ihl ihr =>
    rw [toJson, Json.tagged, ofJson?, ihl, ihr, Comparison.ofName?_name]
    rfl

theorem NamedArguments.ofEntries?_entries (named : NamedArguments) :
    ofEntries? named.entries = some named :=
  dif_pos named.nodup_keys

theorem NamedArguments.ofField?_toJson (entry : String × Value) :
    ofField? (entry.1, entry.2.toJson) = some entry := by
  rw [ofField?, Value.ofJson?_toJson]
  rfl

theorem Arguments.ofJson?_toJson (args : Arguments) : ofJson? args.toJson = some args := by
  rw [toJson, ofJson?, mapM_map_eq_some NamedArguments.ofField?_toJson,
    mapM_map_eq_some Value.ofJson?_toJson]
  simp only [Option.bind_eq_bind, Option.bind_some, NamedArguments.ofEntries?_entries]
  rfl

theorem Call.ofJson?_toJson (call : Call) : ofJson? call.toJson = some call := by
  rw [toJson, ofJson?, Arguments.ofJson?_toJson]
  rfl

mutual

theorem Item.ofJson?_toJson : ∀ item : Item, Item.ofJson? item.toJson = some item
  | .text _ => by rw [Item.toJson, Json.tagged, Item.ofJson?]
  | .expression value => by
    rw [Item.toJson, Json.tagged, Item.ofJson?, Value.ofJson?_toJson value]
    rfl
  | .call call => by
    rw [Item.toJson, Json.tagged, Item.ofJson?, Call.ofJson?_toJson call]
    rfl
  | .block block => by
    rw [Item.toJson, Json.tagged, Item.ofJson?, Block.ofJson?_toJson block]
    rfl

theorem Block.ofJson?_toJson : ∀ block : Block, Block.ofJson? block.toJson = some block
  | ⟨name, args, main, sections⟩ => by
    rw [Block.toJson, Block.ofJson?, Arguments.ofJson?_toJson args, Section.ofJson?_toJson main,
      Section.listOfJson?_listToJson sections]
    rfl

theorem Section.ofJson?_toJson : ∀ s : Section, Section.ofJson? s.toJson = some s
  | ⟨none, args, items⟩ => by
    rw [Section.toJson, Option.map_none, Option.getD_none, Section.ofJson?,
      Arguments.ofJson?_toJson args, Item.listOfJson?_listToJson items]
    rfl
  | ⟨some name, args, items⟩ => by
    rw [Section.toJson, Option.map_some, Option.getD_some, Section.ofJson?,
      Arguments.ofJson?_toJson args, Item.listOfJson?_listToJson items]
    rfl

theorem Item.listOfJson?_listToJson : ∀ items : List Item,
    Item.listOfJson? (Item.listToJson items) = some items
  | [] => by rw [Item.listToJson, Item.listOfJson?]
  | item :: rest => by
    rw [Item.listToJson, Item.listOfJson?, Item.ofJson?_toJson item,
      Item.listOfJson?_listToJson rest]
    rfl

theorem Section.listOfJson?_listToJson : ∀ sections : List Section,
    Section.listOfJson? (Section.listToJson sections) = some sections
  | [] => by rw [Section.listToJson, Section.listOfJson?]
  | s :: rest => by
    rw [Section.listToJson, Section.listOfJson?, Section.ofJson?_toJson s,
      Section.listOfJson?_listToJson rest]
    rfl

end

theorem Template.ofDump?_dump (template : Template) : ofDump? template.dump = some template := by
  rw [ofDump?, dump, Json.parse?_render, Option.bind_some, toJson, ofJson?,
    Item.listOfJson?_listToJson]
  rfl

/-- A template can be told from its dump, whatever stands in its texts and names.  So two templates
have the same dump exactly if they are equal, with their named arguments in the same order. -/
theorem Template.ofDump?_dump_and_dump_inj :
    (∀ template : Template, ofDump? template.dump = some template) ∧
    ∀ a b : Template, a.dump = b.dump ↔ a = b := by
  refine ⟨ofDump?_dump, fun a b => ⟨fun h => ?_, congrArg dump⟩⟩
  have hread := congrArg ofDump? h
  rw [ofDump?_dump, ofDump?_dump] at hread
  exact Option.some.inj hread

/-- A text that closes a string, an array and an object itself. -/
example : Template.ofDump? r#"{"items":[{"Text":"\"]},"}]}"# =
    some ⟨[.text r#""]},"#]⟩ := by
  cbv

end Stencil
