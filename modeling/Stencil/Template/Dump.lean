/-
Templates as JSON.

`Template.dump` writes a template as one compact JSON text.  Every alternative of an item or
a value is an object of one field named for it, a record is an object with its fields in a
fixed order, and named arguments keep their own order.
-/
import Stencil.Json
import Stencil.Template

namespace Stencil

/-- A value as JSON. -/
def Value.toJson : Value → Json
  | .variable name => .tagged "Variable" (.string name)
  | .string text => .tagged "String" (.string text)
  | .number digits => .tagged "Number" (.string digits)
  | .comparison op left right =>
    .tagged "Logical" (.object
      [("operator", .string op.name), ("left", left.toJson), ("right", right.toJson)])

/-- Arguments as JSON. -/
def Arguments.toJson (args : Arguments) : Json :=
  .object
    [("positional", .array (args.positional.map Value.toJson)),
      ("named", .object (args.named.entries.map fun entry => (entry.1, entry.2.toJson)))]

/-- A call as JSON. -/
def Call.toJson (call : Call) : Json :=
  .object [("name", .string call.name), ("arguments", call.arguments.toJson)]

mutual

/-- An item as JSON. -/
def Item.toJson : Item → Json
  | .text content => .tagged "Text" (.string content)
  | .expression value => .tagged "Expression" value.toJson
  | .call call => .tagged "Call" call.toJson
  | .block block => .tagged "Block" block.toJson

/-- A block as JSON. -/
def Block.toJson : Block → Json
  | ⟨name, arguments, main, sections⟩ =>
    .object
      [("name", .string name), ("arguments", arguments.toJson), ("main_section", main.toJson),
        ("sections", .array (Section.listToJson sections))]

/-- A section as JSON. -/
def Section.toJson : Section → Json
  | ⟨name?, arguments, items⟩ =>
    .object
      [("name", (name?.map Json.string).getD .null), ("arguments", arguments.toJson),
        ("items", .array (Item.listToJson items))]

/-- The items of a list as JSON. -/
def Item.listToJson : List Item → List Json
  | [] => []
  | item :: rest => item.toJson :: Item.listToJson rest

/-- The sections of a list as JSON. -/
def Section.listToJson : List Section → List Json
  | [] => []
  | s :: rest => s.toJson :: Section.listToJson rest

end

/-- A template as JSON. -/
def Template.toJson (template : Template) : Json :=
  .object [("items", .array (Item.listToJson template.items))]

/-- The compact JSON text of a template. -/
def Template.dump (template : Template) : String :=
  template.toJson.render

end Stencil
