/-
Values.

What a tag can hold: a variable of the context, a quoted text, a number kept digit by digit
as it was written, or the comparison of two values.
-/
import Stencil.Comparison

namespace Stencil

/-- A value in a tag or among its arguments. -/
inductive Value
  | variable (name : String)
  | string (text : String)
  | number (digits : String)
  | comparison (op : Comparison) (left right : Value)
deriving DecidableEq, Repr

end Stencil
