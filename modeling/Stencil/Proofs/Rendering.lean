/-
What texts, choices and their code stand for.

A `World` gives each variable a text and fixes what numbers, comparisons and truth are.  In a
world a template that is `Plain`, that is, made of texts, variables, quoted texts and the blocks
`if` and `switch`, renders as a text (`Template.render`), and code of the grammar
`Code.Expr` has a value (`Code.Expr.eval`).
-/
import Stencil.Proofs.CodeGrammar
import Stencil.Template

namespace Stencil

/-- Texts for the variables, and a meaning for numbers, comparisons and truth.  Values are texts
or something else that can be written as a text. -/
structure World where
  Datum : Type
  ofText : String → Datum
  toText : Datum → String
  toText_ofText : ∀ text, toText (ofText text) = text
  /-- The value of a number, from its digits. -/
  number : String → Datum
  compare : Comparison → Datum → Datum → Datum
  truthy : Datum → Bool
  /-- The text of a variable. -/
  lookup : String → String

/-! ### Values of code -/

/-- The value of a value in a tag. -/
def Value.eval (w : World) : Value → w.Datum
  | .variable name => w.ofText (w.lookup name)
  | .string text => w.ofText text
  | .number digits => w.number digits
  | .comparison op left right => w.compare op (left.eval w) (right.eval w)

namespace Code

mutual

/-- The value of an atom. -/
def Atom.eval (w : World) : Atom → w.Datum
  | .literal text => w.ofText text
  | .field name => w.ofText (w.lookup name)
  | .number digits => w.number digits
  | .comparison op left right => w.compare op (left.eval w) (right.eval w)
  | .choice condition yes no => if w.truthy (condition.eval w) then yes.eval w else no.eval w
  | .equals left right yes no =>
    if w.truthy (w.compare .eq (left.eval w) (right.eval w)) then yes.eval w else no.eval w

/-- The value of an expression: `+` joins texts. -/
def Expr.eval (w : World) : Expr → w.Datum
  | .single atom => atom.eval w
  | .plus atom rest => w.ofText (w.toText (atom.eval w) ++ w.toText (rest.eval w))

end

end Code

/-! ### Texts of templates -/

namespace ControlFlow

/-- An `if` renders its main section if the condition is true, and otherwise its first `else`
section or nothing. -/
def renderIf (w : World) (args : Arguments) (main : String) (sections : List (Section × String)) :
    String :=
  match args.get? 0 with
  | none => ""
  | some condition =>
    if w.truthy (condition.eval w) then main
    else ((sections.find? fun s => s.1.name? = some "else").map Prod.snd).getD ""

/-- Whether the section is a `case` whose label equals the subject. -/
def isMatchingCase (w : World) (subject : Value) (s : Section) : Bool :=
  s.name? = some "case" &&
    (s.arguments.get? 0).any fun label =>
      w.truthy (w.compare .eq (subject.eval w) (label.eval w))

/-- The text of the first `case` whose label equals the subject. -/
def firstCase? (w : World) (subject : Value) (sections : List (Section × String)) :
    Option String :=
  (sections.find? fun s => isMatchingCase w subject s.1).map Prod.snd

/-- The text of the last `default` section. -/
def lastDefault? (sections : List (Section × String)) : Option String :=
  (sections.filter fun s => s.1.name? = some "default").getLast?.map Prod.snd

/-- A `switch` renders its first case whose label equals the subject, and otherwise its last
`default` section or nothing. -/
def renderSwitch (w : World) (args : Arguments) (sections : List (Section × String)) : String :=
  match args.get? 0 with
  | none => ""
  | some subject => ((firstCase? w subject sections).or (lastDefault? sections)).getD ""

end ControlFlow

mutual

/-- The text of a plain item. -/
def Item.render (w : World) : Item → String
  | .text content => content
  | .expression (.variable name) => w.lookup name
  | .expression (.string text) => text
  | .block block => block.render w
  | .expression _ | .call _ => ""

/-- The text of an `if` or a `switch`. -/
def Block.render (w : World) : Block → String
  | ⟨name, args, main, sections⟩ =>
    if name = "if" then
      ControlFlow.renderIf w args (main.render w) (Section.renderAll w sections)
    else ControlFlow.renderSwitch w args (Section.renderAll w sections)

/-- The text of the items of a section. -/
def Section.render (w : World) : Section → String
  | ⟨_, _, items⟩ => Item.listRender w items

/-- The texts of items, one after another. -/
def Item.listRender (w : World) : List Item → String
  | [] => ""
  | item :: rest => item.render w ++ Item.listRender w rest

/-- Sections with their texts. -/
def Section.renderAll (w : World) : List Section → List (Section × String)
  | [] => []
  | s :: rest => (s, s.render w) :: Section.renderAll w rest

end

/-- The text of a plain template. -/
def Template.render (w : World) (template : Template) : String :=
  Item.listRender w template.items

mutual

/-- Whether an item is made of texts, variables, quoted texts, and the blocks `if` and
`switch`, whatever their arguments. -/
def Item.Plain : Item → Prop
  | .text _ | .expression (.variable _) | .expression (.string _) => True
  | .expression _ | .call _ => False
  | .block block => block.Plain

def Block.Plain : Block → Prop
  | ⟨name, _, main, sections⟩ =>
    (name = "if" ∨ name = "switch") ∧ main.Plain ∧ Section.ListPlain sections

def Section.Plain : Section → Prop
  | ⟨_, _, items⟩ => Item.ListPlain items

def Item.ListPlain : List Item → Prop
  | [] => True
  | item :: rest => item.Plain ∧ Item.ListPlain rest

def Section.ListPlain : List Section → Prop
  | [] => True
  | s :: rest => s.Plain ∧ Section.ListPlain rest

end

/-- Whether a template is made of texts, variables, quoted texts, and the blocks `if` and
`switch`. -/
def Template.Plain (template : Template) : Prop :=
  Item.ListPlain template.items

theorem Section.renderAll_eq_map (w : World) (sections : List Section) :
    Section.renderAll w sections = sections.map fun s => (s, s.render w) := by
  induction sections with
  | nil => rfl
  | cons s rest ih => rw [Section.renderAll, ih, List.map_cons]

end Stencil
