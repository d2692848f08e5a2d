/-
JSON texts.

`Json` is the part of JSON that a dumped template needs: null, strings, arrays, and objects
whose fields keep their order.  `Json.render` writes a value in compact form, without blanks.
-/
import Stencil.Text.JsonString

namespace Stencil

/-- A JSON value.  Objects keep their fields in order. -/
inductive Json
  | null
  | string (text : String)
  | array (elements : List Json)
  | object (fields : List (String × Json))

namespace Json

mutual

/-- The compact text of a value. -/
def render : Json → String
  | .null => "null"
  | .string text => Text.jsonString text
  | .array elements => "[" ++ ",".intercalate (renderElements elements) ++ "]"
  | .object fields => r"{" ++ ",".intercalate (renderFields fields) ++ r"}"

/-- The texts of the elements of an array. -/
def renderElements : List Json → List String
  | [] => []
  | element :: rest => render element :: renderElements rest

/-- The texts of the fields of an object, each with its key. -/
def renderFields : List (String × Json) → List String
  | [] => []
  | (key, value) :: rest =>
    (Text.jsonString key ++ ":" ++ render value) :: renderFields rest

end

/-- An object of one field, whose key says what the content is. -/
def tagged (tag : String) (content : Json) : Json :=
  .object [(tag, content)]

end Json

end Stencil
