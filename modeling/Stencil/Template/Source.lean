/-
Templates from their source.

* `Template.ofTokens` — the template that tokens make, or the first fault among them;
* `Template.ofSource` — the template of a source text, or its first syntax error.

The tokens are those before the end of the input, whose offset is all that the end itself
adds.
-/
import Stencil.Basic
import Stencil.Draft
import Stencil.Token.Scanner

namespace Stencil

namespace Template

/-- The template that `tokens` make when the source ends at the byte offset `position`. -/
def ofTokens (dialect : Dialect) (tokens : List Token) (position : Nat) :
    Except Fault Template := do
  let draft ← Draft.extendAll dialect {} tokens
  draft.finish position

/-- The template of a source, or its first syntax error. -/
def ofSource (dialect : Dialect) (source : String) : Except SyntaxError Template :=
  let scanner := Scanner.ofSource source
  (ofTokens dialect scanner.tokens scanner.endPosition).mapError (Fault.locate source)

end Template

end Stencil
