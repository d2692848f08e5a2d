/-
How deep blocks nest.

`Template.nesting` counts the blocks around the innermost item: none outside of blocks, and
one more inside a block than around it.  Lists nest as deep as their deepest member
(`listNesting_append`).
-/
import Stencil.Template

namespace Stencil

mutual

/-- How many blocks nest in an item. -/
def Item.nesting : Item → Nat
  | .text _ => 0
  | .expression _ => 0
  | .call _ => 0
  | .block block => block.nesting

/-- How many blocks nest in a block, itself included. -/
def Block.nesting : Block → Nat
  | ⟨_, _, main, sections⟩ => 1 + max main.nesting (Section.listNesting sections)

/-- How many blocks nest in a section. -/
def Section.nesting : Section → Nat
  | ⟨_, _, items⟩ => Item.listNesting items

/-- The deepest nesting in a list of items. -/
def Item.listNesting : List Item → Nat
  | [] => 0
  | item :: rest => max item.nesting (Item.listNesting rest)

/-- The deepest nesting in a list of sections. -/
def Section.listNesting : List Section → Nat
  | [] => 0
  | s :: rest => max s.nesting (Section.listNesting rest)

end

/-- How many blocks nest in a template. -/
def Template.nesting (template : Template) : Nat :=
  Item.listNesting template.items

theorem Item.listNesting_append (as bs : List Item) :
    Item.listNesting (as ++ bs) = max (Item.listNesting as) (Item.listNesting bs) := by
  induction as with
  | nil => simp [Item.listNesting]
  | cons a as ih => simp only [List.cons_append, Item.listNesting, ih, Nat.max_assoc]

theorem Section.listNesting_append (as bs : List Section) :
    Section.listNesting (as ++ bs) =
      max (Section.listNesting as) (Section.listNesting bs) := by
  induction as with
  | nil => simp [Section.listNesting]
  | cons a as ih => simp only [List.cons_append, Section.listNesting, ih, Nat.max_assoc]

end Stencil
