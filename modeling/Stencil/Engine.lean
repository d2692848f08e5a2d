/-
Engines.

An engine is a dialect to read templates in and a compiler to write their code.  It starts
with nothing registered and is changed by settings, one after another:

* `Engine.configure` — the engine behind a list of settings;
* `Engine.parse` — the template of a source, which only the dialect decides (`parse_eq_ok_iff`);
* `Engine.process` — the code of a source, which is that of its template (`process_of_parse`).

The only errors are syntax errors, which come first, and compile errors.
-/
import Stencil.Compiler
import Stencil.Setting
import Stencil.Template.Source

namespace Stencil

/-- Why a source has no code. -/
inductive Error
  | malformed (error : SyntaxError)
  | uncompilable (error : CompileError)
deriving DecidableEq, Repr

/-- The wording of an error. -/
def Error.message : Error → String
  | .malformed error => "syntax error: " ++ error.message
  | .uncompilable error => "compile error: " ++ error.message

/-- What reads sources and writes code. -/
structure Engine where
  dialect : Dialect := {}
  compiler : Compiler := {}

namespace Engine

/-- An engine with nothing registered, whose functions call their parameter `context`. -/
def ofContext (context : String) : Engine :=
  { compiler := { context } }

/-- The engine behind one setting. -/
def apply (engine : Engine) : Setting → Engine
  | .addSection block keyword =>
    { engine with dialect := engine.dialect.addSection block keyword }
  | .setMaxDepth limit =>
    { engine with dialect := { engine.dialect with maxDepth := limit } }
  | .setConstant write =>
    { engine with compiler := { engine.compiler with constant := write } }
  | .addHelper name helper =>
    { engine with
      compiler := { engine.compiler with helpers := engine.compiler.helpers.insert name helper } }
  | .addBlockHelper name helper =>
    { engine with
      compiler :=
        { engine.compiler with
          blockHelpers := engine.compiler.blockHelpers.insert name helper } }

/-- The engine behind settings, one after another. -/
def configure (engine : Engine) (settings : List Setting) : Engine :=
  settings.foldl apply engine

/-- The template of a source. -/
def parse (engine : Engine) (source : String) : Except Error Template :=
  (Template.ofSource engine.dialect source).mapError .malformed

/-- The code of a template. -/
def compile (engine : Engine) (template : Template) : Except Error String :=
  (engine.compiler.compile template).mapError .uncompilable

/-- The code of a source. -/
def process (engine : Engine) (source : String) : Except Error String := do
  let template ← engine.parse source
  engine.compile template

variable {engine : Engine} {source : String} {template : Template}

/-- An engine finds the template that its dialect finds. -/
theorem parse_eq_ok_iff :
    engine.parse source = .ok template ↔
      Template.ofSource engine.dialect source = .ok template :=
  mapError_eq_ok

/-- The code of a source is the code of its template, if it has one. -/
theorem process_of_parse (h : engine.parse source = .ok template) :
    engine.process source = engine.compile template := by
  rw [process, h]
  rfl

end Engine

end Stencil
