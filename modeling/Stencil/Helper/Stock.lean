/-
Helpers for common needs.

Rules that write a fixed text, reject everything, or show what they are given, for calls
(`Helper`) and for blocks (`BlockHelper`).
-/
import Stencil.Code
import Stencil.Helper

namespace Stencil

namespace Helper

/-- Writes `code` for every call. -/
def const (code : String) : Helper :=
  .rule fun _ _ => .ok code

/-- Rejects every call. -/
def fail (reason : String) : Helper :=
  .rule fun _ call => .error (.rejected call.name reason)

/-- Writes the call itself, with the code of its arguments. -/
def echo : Helper :=
  .rule fun context call => .ok (Code.call context call.name call.arguments)

/-- Writes the first positional argument. -/
def first : Helper :=
  .rule fun context call =>
    match call.arguments.get? 0 with
    | some value => .ok (value.code context)
    | none => .error (.rejected call.name "expected one argument")

/-- Writes the argument under `key`, or `undefined`. -/
def named (key : String) : Helper :=
  .rule fun context call =>
    match call.arguments.named.get? key with
    | some value => .ok (value.code context)
    | none => .ok "undefined"

end Helper

namespace BlockHelper

/-- Writes `code` for every block. -/
def const (code : String) : BlockHelper :=
  fun _ _ => .ok code

/-- Rejects every block. -/
def fail (reason : String) : BlockHelper :=
  fun _ block => .error (.rejected block.name reason)

/-- Writes the first section behind `keyword`, or the main section. -/
def pick (keyword : String) : BlockHelper :=
  fun _ block => ((block.section? keyword).getD block.main).code

/-- Writes all sections in order, the main one first, each in brackets behind its name and
arguments. -/
def echo : BlockHelper :=
  fun context block => do
    let shown := fun (name : String) (args : Arguments) (body : String) =>
      Code.call context name args ++ "[" ++ body ++ "]"
    let main ← block.main.code
    let parts ← block.sections.mapM fun s => do
      return "|" ++ shown (s.name?.getD "") s.arguments (← s.code)
    return shown block.name block.arguments main ++ String.join parts

end BlockHelper

end Stencil
