/-
Helpers.

A helper writes the code of a call, or stands for another helper.  A block helper writes the
code of a block from the code of its sections: which sections it uses, and how, is its own
affair, and an error in a section that it does not use is no error of the block.

`Helper.write` follows aliases from name to name.  Each name is used up on the way, so a ring
of aliases ends as an unknown helper.
-/
import Stencil.CompileError
import Stencil.Registry
import Stencil.Template

namespace Stencil

/-- How the calls of a name are written. -/
inductive Helper
  /-- By a rule, from the name of the context and the call. -/
  | rule (write : String → Call → Except CompileError String)
  /-- As if the call were of `target`. -/
  | alias (target : String)

/-- The code of `call` for the helpers of a registry. -/
def Helper.write (context : String) (helpers : Registry Helper) (call : Call) :
    Except CompileError String :=
  match h : helpers.get? call.name with
  | none => .error (.unknownHelper call.name)
  | some (.rule write) => write context call
  | some (.alias target) =>
    have := helpers.length_entries_erase_lt h
    Helper.write context (helpers.erase call.name) { call with name := target }
termination_by helpers.entries.length

/-- A section with the code of its items, or the first error in them. -/
structure CompiledSection where
  name? : Option String
  arguments : Arguments
  code : Except CompileError String

/-- A block with the code of its sections. -/
structure CompiledBlock where
  name : String
  arguments : Arguments
  main : CompiledSection
  sections : List CompiledSection

/-- The first of the block's sections behind `keyword`. -/
def CompiledBlock.section? (block : CompiledBlock) (keyword : String) : Option CompiledSection :=
  block.sections.find? fun s => s.name? = some keyword

/-- How the blocks of a name are written, from the name of the context and the block. -/
abbrev BlockHelper := String → CompiledBlock → Except CompileError String

end Stencil
