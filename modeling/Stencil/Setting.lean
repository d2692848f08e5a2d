/-
Settings.

A `Setting` is one change of an engine: of the language that it reads, or of the code that it
writes.  Settings are plain data, so that a family of helpers can be handed over together
with the keywords that its blocks need.
-/
import Stencil.Helper

namespace Stencil

/-- A change of an engine. -/
inductive Setting
  /-- Lets `keyword` open a section in the blocks named `block`. -/
  | addSection (block keyword : String)
  /-- Sets how many blocks may be open at once. -/
  | setMaxDepth (limit : Nat)
  /-- Sets how a template without tags is written. -/
  | setConstant (write : String → String)
  /-- Registers a helper, in place of an earlier one of that name. -/
  | addHelper (name : String) (helper : Helper)
  /-- Registers a block helper, in place of an earlier one of that name. -/
  | addBlockHelper (name : String) (helper : BlockHelper)

end Stencil
