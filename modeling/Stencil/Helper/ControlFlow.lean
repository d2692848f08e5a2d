/-
Control flow.

Block helpers for choices and lists, and a helper for JSON:

* `if` takes a condition; the section behind `else` is written where the condition fails;
* `switch` takes a subject; a section behind `case` is written where the subject equals its
  label, the first such case wins, and the section behind `default` is written where none
  does;
* `each` takes a variable and writes its body once for every element;
* `json` takes one argument and writes it as JSON.

`settings` registers them together with their keywords.
-/
import Stencil.Code
import Stencil.Setting

namespace Stencil.ControlFlow

/-- Writes the main section where the condition holds and the `else` section where it
fails. -/
def ifBlock : BlockHelper := fun context block =>
  match block.arguments.get? 0 with
  | none => .error (.rejected "if" "expected a condition")
  | some condition => do
    -- An error behind `else` comes before one in the main section.
    let otherwise ←
      match block.section? "else" with
      | some s => s.code
      | none => .ok (Text.jsonString "")
    let body ← block.main.code
    return "(" ++ condition.code context ++ "?" ++ body ++ ":" ++ otherwise ++ ")"

/-- The cases of a `switch`, label and body, in order, and the code for the other values. -/
structure Arms where
  cases : List (String × String) := []
  fallback : String := Text.jsonString ""
deriving DecidableEq, Repr

namespace Arms

/-- The arms with one section more.  A section other than a `case` takes the place of the
fallback. -/
def add (context : String) (arms : Arms) (s : CompiledSection) : Except CompileError Arms :=
  if s.name? = some "case" then
    match s.arguments.get? 0 with
    | none => .error (.rejected "switch" "case without a label")
    | some label => do
      let body ← s.code
      return { arms with cases := arms.cases ++ [(label.code context, body)] }
  else do
    let fallback ← s.code
    return { arms with fallback }

/-- The code that compares `subject` with one label after the other. -/
def code (subject : String) (arms : Arms) : String :=
  arms.cases.foldr
    (fun case rest => "(" ++ subject ++ "==" ++ case.1 ++ "?" ++ case.2 ++ ":" ++ rest ++ ")")
    arms.fallback

end Arms

/-- Writes the first case whose label equals the subject, or else the fallback. -/
def switchBlock : BlockHelper := fun context block =>
  match block.arguments.get? 0 with
  | none => .error (.rejected "switch" "expected a subject")
  | some subject => do
    let arms ← block.sections.foldlM (Arms.add context) {}
    return arms.code (subject.code context)

/-- Writes the main section once for every element of a list. -/
def eachBlock : BlockHelper := fun context block =>
  match block.arguments.get? 0 with
  | some (.variable list) => do
    let body ← block.main.code
    return Code.field context list ++ ".map(" ++ Code.function "" body ++ ").join(\"\")"
  | _ => .error (.rejected "each" "expected a list variable")

/-- Writes its only positional argument as JSON. -/
def json : Helper := .rule fun context call =>
  match call.arguments.positional with
  | [value] => .ok ("JSON.stringify(" ++ value.code context ++ ")")
  | _ => .error (.rejected "json" "expected exactly one argument")

/-- The settings for choices, lists and JSON. -/
def settings : List Setting :=
  [.addSection "if" "else",
    .addSection "switch" "case",
    .addSection "switch" "default",
    .addBlockHelper "if" ifBlock,
    .addBlockHelper "switch" switchBlock,
    .addBlockHelper "each" eachBlock,
    .addHelper "json" json]

end Stencil.ControlFlow
