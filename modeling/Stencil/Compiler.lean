/-
From templates to code.

A `Compiler` knows the name of the context, the helpers, and how a constant is written.

* `codeOfItems` — the code of a list of items: their fragments, joined, or the first error
  (`fragments_append`);
* `compile` — the code of a template.  A template without tags is written as a constant;
  any other is a function of the context.

The code of the sections of a block is worked out before its helper sees the block, and the
helper chooses among the results.
-/
import Stencil.Code
import Stencil.Helper

namespace Stencil

/-- What it takes to write code for templates. -/
structure Compiler where
  /-- The parameter of the function, from which variables are read. -/
  context : String := "params"
  helpers : Registry Helper := {}
  blockHelpers : Registry BlockHelper := {}
  /-- How a template without tags is written. -/
  constant : String → String := Code.constant

namespace Compiler

/-- The code of a call. -/
def codeOfCall (compiler : Compiler) (call : Call) : Except CompileError String :=
  Helper.write compiler.context compiler.helpers call

/-- The code of a block whose sections have been compiled. -/
def codeOfBlock (compiler : Compiler) (block : CompiledBlock) : Except CompileError String :=
  match compiler.blockHelpers.get? block.name with
  | none => .error (.unknownBlockHelper block.name)
  | some write => write compiler.context block

mutual

/-- The code of an item. -/
def codeOfItem (compiler : Compiler) : Item → Except CompileError String
  | .text content => .ok (Text.jsonString content)
  | .expression value => .ok (value.code compiler.context)
  | .call call => compiler.codeOfCall call
  | .block block => compiler.codeOfBlock (compiler.compileBlock block)

/-- A block with the code of its sections. -/
def compileBlock (compiler : Compiler) : Block → CompiledBlock
  | ⟨name, arguments, main, sections⟩ =>
    ⟨name, arguments, compiler.compileSection main, compiler.compileSections sections⟩

/-- A section with the code of its items. -/
def compileSection (compiler : Compiler) : Section → CompiledSection
  | ⟨name?, arguments, items⟩ => ⟨name?, arguments, (compiler.fragments items).map Code.concat⟩

/-- The code of each item, or the first error. -/
def fragments (compiler : Compiler) : List Item → Except CompileError (List String)
  | [] => .ok []
  | item :: rest => do
    let code ← compiler.codeOfItem item
    let codes ← compiler.fragments rest
    return code :: codes

/-- The sections with the code of their items. -/
def compileSections (compiler : Compiler) : List Section → List CompiledSection
  | [] => []
  | s :: rest => compiler.compileSection s :: compiler.compileSections rest

end

/-- The fragments of two lists are those of the first and then those of the second; an error
in the first list comes first. -/
theorem fragments_append (compiler : Compiler) (as bs : List Item) :
    compiler.fragments (as ++ bs) = do
      let codes ← compiler.fragments as
      let more ← compiler.fragments bs
      return codes ++ more := by
  induction as with
  | nil =>
    show compiler.fragments bs = _
    cases h : compiler.fragments bs with
    | error e => rw [fragments]; rfl
    | ok codes => rw [fragments]; rfl
  | cons item rest ih =>
    rw [List.cons_append, fragments, fragments, ih]
    cases compiler.codeOfItem item with
    | error e => rfl
    | ok code =>
      cases compiler.fragments rest with
      | error e => rfl
      | ok codes =>
        cases compiler.fragments bs with
        | error e => rfl
        | ok more => rfl

/-- The code of a list of items. -/
def codeOfItems (compiler : Compiler) (items : List Item) : Except CompileError String :=
  (compiler.fragments items).map Code.concat

/-- The code of a section. -/
def codeOfSection (compiler : Compiler) (s : Section) : Except CompileError String :=
  compiler.codeOfItems s.items

/-- The code of a template. -/
def compile (compiler : Compiler) (template : Template) : Except CompileError String :=
  match template.constant? with
  | some text => .ok (compiler.constant text)
  | none => do
    let body ← compiler.codeOfItems template.items
    return Code.function compiler.context body

end Compiler

end Stencil
