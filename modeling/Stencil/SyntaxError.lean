/-
Faults of a template's source.

A `Fault` is a cause and the byte offset where it shows; a `SyntaxError` adds the line and
the column.  `Fault.locate` is the only way from one to the other: it moves an offset behind
the source back to its end, and shows an offset inside a character at the line and column
where the source ends.
-/
import Stencil.Token
import Stencil.Text.Location

namespace Stencil

/-- Why a source is refused. -/
inductive Cause
  /-- Something else was expected where a token stands. -/
  | unexpected (expected found : String)
  /-- A close tag names another block than the innermost open one. -/
  | mismatchedClose (expected found : String)
  /-- A close tag stands where no block is open. -/
  | strayClose (name : String)
  /-- A block opens while as many blocks are open as may be. -/
  | nestedTooDeep (limit : Nat)
deriving DecidableEq, Repr

/-- The wording of a cause. -/
def Cause.message : Cause → String
  | .unexpected expected found => "expected " ++ expected ++ ", found " ++ found
  | .mismatchedClose expected found =>
    r"`{{/" ++ found ++ r"}}` does not close the open block `" ++ expected ++ "`"
  | .strayClose name => r"`{{/" ++ name ++ r"}}` closes a block that was never opened"
  | .nestedTooDeep limit => "blocks nested deeper than " ++ toString limit ++ " levels"

/-- A cause and the byte offset where it shows. -/
structure Fault where
  cause : Cause
  position : Nat
deriving DecidableEq, Repr

/-- A fault with its line and column. -/
structure SyntaxError extends Fault where
  location : Text.Location
deriving DecidableEq, Repr

namespace Fault

/-- The fault of `token` standing where `wanted` was expected. -/
def unexpected (wanted : Pattern) (token : Token) : Fault :=
  ⟨.unexpected wanted.describe token.lexeme.describe, token.position⟩

/-- The fault as seen in `source`. -/
def locate (source : String) (fault : Fault) : SyntaxError :=
  let position := min fault.position (Text.byteLength source.toList)
  { cause := fault.cause
    position := position
    location := Text.Location.ofOffset source.toList position }

end Fault

/-- The wording of a syntax error: its cause and where it shows. -/
def SyntaxError.message (e : SyntaxError) : String :=
  e.cause.message ++ " at line " ++ toString e.location.line ++ ", column " ++
    toString e.location.column

end Stencil
