/-
Blocks under construction.

An `OpenBlock` waits for its close tag.  It knows the list of items in which it stands, its
sections so far and the heading of the section that is being filled; the items of that
section are kept outside of it, and handed over when the section ends (`Filling.next`) or
the block does (`OpenBlock.close`).
-/
import Stencil.Template

namespace Stencil

/-- The section of an open block that is being filled. -/
inductive Filling
  | ofMain
  /-- The section behind a keyword, with the sections before it. -/
  | ofKeyword (main : Section) (done : Array Section) (keyword : String) (arguments : Arguments)

namespace Filling

/-- All sections of a block when the one being filled ends up with `items`. -/
def sections (filling : Filling) (items : Array Item) : Section × Array Section :=
  match filling with
  | .ofMain => (Section.ofItems items.toList, #[])
  | .ofKeyword main done keyword arguments =>
    (main, done.push ⟨some keyword, arguments, items.toList⟩)

/-- Goes on to the section behind `keyword`. -/
def next (filling : Filling) (items : Array Item) (keyword : String) (arguments : Arguments) :
    Filling :=
  let (main, done) := filling.sections items
  .ofKeyword main done keyword arguments

end Filling

/-- A block whose close tag is still to come. -/
structure OpenBlock where
  name : String
  arguments : Arguments
  /-- The items before the block, in the list where it stands. -/
  outer : Array Item
  filling : Filling := .ofMain

/-- The block as it is when the section being filled ends up with `items`. -/
def OpenBlock.close (block : OpenBlock) (items : Array Item) : Block :=
  let (main, sections) := block.filling.sections items
  ⟨block.name, block.arguments, main, sections.toList⟩

end Stencil
