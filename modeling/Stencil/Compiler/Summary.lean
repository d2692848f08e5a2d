/-
Compilers in a message.

`summary` shows the name of the context and the names of the helpers on one line, and
`indentedSummary` shows the same with one entry a line.  Names are in ascending order, as
registries keep them.
-/
import Stencil.Compiler
import Stencil.Text.Quoted

namespace Stencil.Compiler

open Text (quoted)

/-- Names in brackets. -/
def listOnLine (names : List String) : String :=
  "[" ++ ", ".intercalate (names.map quoted) ++ "]"

/-- Names in brackets, one a line. -/
def listOnLines : List String → String
  | [] => "[]"
  | names =>
    "[\n" ++ String.join (names.map fun name => "        " ++ quoted name ++ ",\n") ++ "    ]"

/-- A compiler on one line. -/
def summary (compiler : Compiler) : String :=
  r"Compiler { config: CompilerConfig { context_name: " ++ quoted compiler.context ++
    r" }, helpers: " ++ listOnLine compiler.helpers.names ++
    r", block_helpers: " ++ listOnLine compiler.blockHelpers.names ++ r", .. }"

/-- A compiler with one entry a line. -/
def indentedSummary (compiler : Compiler) : String :=
  r"Compiler {
    config: CompilerConfig {
        context_name: " ++ quoted compiler.context ++ r",
    },
    helpers: " ++ listOnLines compiler.helpers.names ++ r",
    block_helpers: " ++ listOnLines compiler.blockHelpers.names ++ r",
    ..
}"

end Stencil.Compiler
