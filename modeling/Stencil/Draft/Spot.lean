/-
Places between two tokens.

A tag is read token by token, and a `Spot` says what of it has been read: for instance a
name, a value that an operator may follow, or some of the arguments of a block.  The spot
alone decides what a refusal asks for (`Spot.wanted`): a name where a part of the tag is
missing, the close of the tag elsewhere in it, and text outside of tags.
-/
import Stencil.Arguments
import Stencil.Token

namespace Stencil

/-- What a list of arguments belongs to. -/
inductive ArgumentOwner
  | call (name : String)
  | block (name : String)
  | keyword (name : String)
deriving DecidableEq, Repr

/-- What becomes of a value once it is complete. -/
inductive Destination
  /-- It is what the tag prints. -/
  | tag
  /-- It is an argument, under a key if there is one. -/
  | argument (owner : ArgumentOwner) (args : Arguments) (key? : Option String)
deriving DecidableEq, Repr

/-- A place between two tokens. -/
inductive Spot
  /-- Outside of tags. -/
  | outside
  /-- Behind `{{`. -/
  | tagStart
  /-- Behind the name that starts a tag. -/
  | tagName (name : String)
  /-- Behind a value that may turn out to be the left side of a comparison. -/
  | value (destination : Destination) (value : Value)
  /-- Behind the operator of a comparison. -/
  | operator (destination : Destination) (op : Comparison) (left : Value)
  /-- Behind the comparison that a tag prints. -/
  | tagEnd (value : Value)
  /-- Between arguments. -/
  | arguments (owner : ArgumentOwner) (args : Arguments)
  /-- Behind a name among arguments, which is a key or a value. -/
  | argumentName (owner : ArgumentOwner) (args : Arguments) (name : String)
  /-- Behind the `=` of a named argument. -/
  | argumentKey (owner : ArgumentOwner) (args : Arguments) (key : String)
  /-- Behind `{{#`. -/
  | blockStart
  /-- Behind a `{{/` at the given offset. -/
  | closeStart (position : Nat)
  /-- Behind the name in a close tag. -/
  | closeEnd
deriving DecidableEq, Repr

/-- The kind of token that a refusal asks for. -/
def Spot.wanted : Spot → Kind
  | .outside => .text
  | .tagStart | .operator .. | .argumentKey .. | .blockStart | .closeStart _ => .identifier
  | .tagName _ | .value .. | .tagEnd _ | .arguments .. | .argumentName .. | .closeEnd => .tagClose

end Stencil
