/-
Templates.

A template is a list of items: text, values to print, calls of helpers, and blocks.  A block
has a main section and, behind it, sections that a keyword introduces; each section has
arguments and items of its own.  So items, blocks and sections are defined together.

`Template.constant?` gives the text of a template that has no tags.
-/
import Stencil.Arguments

namespace Stencil

/-- A call of the helper `name`. -/
structure Call where
  name : String
  arguments : Arguments := {}
deriving DecidableEq, Repr

mutual

/-- A part of a template. -/
inductive Item
  | text (content : String)
  | expression (value : Value)
  | call (call : Call)
  | block (block : Block)

/-- A body handed to the block helper `name`. -/
structure Block where
  name : String
  arguments : Arguments
  /-- The part before the first keyword. -/
  main : Section
  /-- The parts behind a keyword, in order. -/
  sections : List Section

/-- A part of the body of a block. -/
structure Section where
  /-- The keyword that introduces the section; the main section has none. -/
  name? : Option String
  arguments : Arguments
  items : List Item

end

namespace Section

/-- A section without keyword and arguments. -/
def ofItems (items : List Item) : Section :=
  ⟨none, {}, items⟩

/-- The empty section behind a keyword. -/
def named (name : String) (arguments : Arguments) : Section :=
  ⟨some name, arguments, []⟩

/-- Whether no keyword introduces the section. -/
def isMain (s : Section) : Bool :=
  s.name?.isNone

end Section

/-- The first of the block's sections behind `keyword`. -/
def Block.section? (block : Block) (keyword : String) : Option Section :=
  block.sections.find? fun s => s.name? = some keyword

/-- A whole template. -/
structure Template where
  items : List Item := []

/-- The text that a template without tags stands for. -/
def Template.constant? (template : Template) : Option String :=
  match template.items with
  | [] => some ""
  | [.text content] => some content
  | _ => none

/-- Only a template that is empty, or a single text, is constant. -/
theorem Template.constant?_eq_some_iff {template : Template} {content : String} :
    template.constant? = some content ↔
      template.items = [] ∧ content = "" ∨ template.items = [.text content] := by
  obtain ⟨items⟩ := template
  rw [constant?]
  constructor
  · intro h
    split at h
    next hitems => exact .inl ⟨hitems, (Option.some.inj h).symm⟩
    next content' hitems => exact .inr (by rw [← Option.some.inj h]; exact hitems)
    next => cases h
  · rintro (⟨hitems, rfl⟩ | hitems)
    · rw [hitems]
    · rw [hitems]

end Stencil
