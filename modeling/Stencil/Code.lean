/-
Fragments of code.

The code made from a template is a JavaScript function of one parameter, the context, from
which variables are read.  Its body is an expression: string literals, fields of the context,
numbers as they were written, comparisons in parentheses, and what helpers write, joined
by `+`.
-/
import Stencil.Arguments
import Stencil.Text.JsonString

namespace Stencil

namespace Code

/-- The field `name` of the context. -/
def field (context name : String) : String :=
  context ++ "." ++ name

/-- A function that returns the value of `body`. -/
def function (parameter body : String) : String :=
  "function(" ++ parameter ++ r"){return " ++ body ++ r";}"

/-- The concatenation of fragments.  Nothing at all is the empty text. -/
def concat : List String → String
  | [] => Text.jsonString ""
  | fragments => "+".intercalate fragments

/-- The function that returns a constant text. -/
def constant (text : String) : String :=
  function "" (Text.jsonString text)

/-- The number of bytes of a text, in single quotes. -/
def quotedLength (text : String) : String :=
  "'" ++ toString text.utf8ByteSize ++ "'"

end Code

/-- The code of a value. -/
def Value.code (context : String) : Value → String
  | .variable name => Code.field context name
  | .string text => Text.jsonString text
  | .number digits => digits
  | .comparison op left right =>
    "(" ++ left.code context ++ op.symbol ++ right.code context ++ ")"

/-- The code of arguments: the positional ones, then each named one behind its key. -/
def Arguments.code (context : String) (args : Arguments) : String :=
  ",".intercalate <|
    args.positional.map (Value.code context) ++
      args.named.entries.map fun entry => entry.1 ++ ":" ++ entry.2.code context

/-- A name with arguments in parentheses. -/
def Code.call (context name : String) (args : Arguments) : String :=
  name ++ "(" ++ args.code context ++ ")"

end Stencil
