/-
Sameness of templates.

Two templates are the same if they differ at most in the order of named arguments.
Positional arguments, items and sections are compared in order; named arguments are the same
if there are equally many and each key has the same value on both sides, which for distinct
keys is equality up to order.
-/
import Stencil.Template

namespace Stencil

/-- Whether each key has the same value on both sides. -/
def NamedArguments.same (a b : NamedArguments) : Bool :=
  a.entries.length = b.entries.length &&
    a.entries.all fun entry => b.get? entry.1 = some entry.2

/-- Whether arguments agree up to the order of the named ones. -/
def Arguments.same (a b : Arguments) : Bool :=
  a.positional = b.positional && a.named.same b.named

/-- Whether calls agree up to the order of named arguments. -/
def Call.same (a b : Call) : Bool :=
  a.name = b.name && a.arguments.same b.arguments

mutual

/-- Whether items agree up to the order of named arguments. -/
def Item.same : Item → Item → Bool
  | .text a, .text b => a = b
  | .expression a, .expression b => a = b
  | .call a, .call b => a.same b
  | .block a, .block b => a.same b
  | _, _ => false

/-- Whether blocks agree up to the order of named arguments. -/
def Block.same : Block → Block → Bool
  | ⟨name, arguments, main, sections⟩, ⟨name', arguments', main', sections'⟩ =>
    name = name' && arguments.same arguments' && main.same main' &&
      Section.sameList sections sections'

/-- Whether sections agree up to the order of named arguments. -/
def Section.same : Section → Section → Bool
  | ⟨name?, arguments, items⟩, ⟨name?', arguments', items'⟩ =>
    name? = name?' && arguments.same arguments' && Item.sameList items items'

/-- Whether lists of items agree, item by item. -/
def Item.sameList : List Item → List Item → Bool
  | [], [] => true
  | a :: as, b :: bs => a.same b && Item.sameList as bs
  | _, _ => false

/-- Whether lists of sections agree, section by section. -/
def Section.sameList : List Section → List Section → Bool
  | [], [] => true
  | a :: as, b :: bs => a.same b && Section.sameList as bs
  | _, _ => false

end

/-- Whether templates agree up to the order of named arguments. -/
def Template.same (a b : Template) : Bool :=
  Item.sameList a.items b.items

end Stencil
