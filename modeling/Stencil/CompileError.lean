/-
Templates without code.

A template that can be read may still have no code: a helper that it asks for is not
registered, or a helper rejects what it is given.
-/
namespace Stencil

/-- Why a template has no code. -/
inductive CompileError
  | unknownHelper (name : String)
  | unknownBlockHelper (name : String)
  /-- The helper `name` does not take what it was given. -/
  | rejected (name reason : String)
deriving DecidableEq, Repr

/-- The wording of a compile error. -/
def CompileError.message : CompileError → String
  | .unknownHelper name => "helper `" ++ name ++ "` was not found"
  | .unknownBlockHelper name => "block helper `" ++ name ++ "` was not found"
  | .rejected name reason => "helper `" ++ name ++ "` failed: " ++ reason

end Stencil
