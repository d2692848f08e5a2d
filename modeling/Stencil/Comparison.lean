/-
Comparisons.

The six operators that compare two operands, written alike in a template and in the code
made from it.  `ofSymbol?` reads back every symbol (`ofSymbol?_symbol`) and nothing else
(`symbol_of_ofSymbol?`); the lone `=` is not a comparison.
-/
namespace Stencil

/-- An operator that compares two operands. -/
inductive Comparison
  | eq
  | notEq
  | gt
  | lt
  | gtEq
  | ltEq
deriving DecidableEq, Repr

namespace Comparison

/-- How the operator is written. -/
def symbol : Comparison → String
  | .eq => "=="
  | .notEq => "!="
  | .gt => ">"
  | .lt => "<"
  | .gtEq => ">="
  | .ltEq => "<="

/-- The name of the operator in a dumped template. -/
def name : Comparison → String
  | .eq => "Eq"
  | .notEq => "NotEq"
  | .gt => "Gt"
  | .lt => "Lt"
  | .gtEq => "GtEq"
  | .ltEq => "LtEq"

/-- The operator that a symbol writes. -/
def ofSymbol? (s : String) : Option Comparison :=
  [eq, notEq, gt, lt, gtEq, ltEq].find? fun op => op.symbol = s

theorem ofSymbol?_symbol (op : Comparison) : ofSymbol? op.symbol = some op := by
  cases op <;> decide

theorem symbol_of_ofSymbol? {s : String} {op : Comparison} (h : ofSymbol? s = some op) :
    op.symbol = s := by
  simpa using List.find?_some h

end Comparison

end Stencil
