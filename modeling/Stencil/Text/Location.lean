/-
Lines and columns.

A location is what a person counts: lines and columns start at one, a line feed ends a line,
and every other character, however many bytes it takes, is one column.

* `Location.after cs` — where the next character stands once `cs` has been read; its line is
  one more than the line feeds of `cs` (`line_after`), and reading on from a text is reading
  on from its location (`after_append`);
* `Location.ofOffset source n` — the location of a byte offset.  An offset that is not the
  place of a character is shown where the source ends.
-/
import Stencil.Text.Bytes

namespace Stencil.Text

/-- A place in a text as a line and a column, both counted from one. -/
structure Location where
  line : Nat
  column : Nat
deriving DecidableEq, Repr

namespace Location

/-- The place of the first character. -/
def start : Location := ⟨1, 1⟩

/-- The place behind the character `c` that stands at `l`. -/
def step (l : Location) (c : Char) : Location :=
  if c = '\n' then ⟨l.line + 1, 1⟩ else ⟨l.line, l.column + 1⟩

/-- The place behind the text `cs`. -/
def after (cs : List Char) : Location :=
  cs.foldl step start

@[simp] theorem after_nil : after [] = start := rfl

@[simp] theorem after_append (cs ds : List Char) :
    after (cs ++ ds) = ds.foldl step (after cs) := by
  simp [after]

theorem line_foldl_step (cs : List Char) (l : Location) :
    (cs.foldl step l).line = l.line + cs.count '\n' := by
  induction cs generalizing l with
  | nil => simp
  | cons c cs ih =>
    by_cases h : c = '\n'
    · simp [ih, step, h]
      omega
    · simp [ih, step, h]

/-- A line feed more is a line more. -/
theorem line_after (cs : List Char) : (after cs).line = 1 + cs.count '\n' :=
  line_foldl_step cs start

/-- The place of the byte offset `n` in `source`.  An offset inside a character, or past the
end, has the place where the source ends. -/
def ofOffset (source : List Char) (n : Nat) : Location :=
  after ((takeBytes? source n).getD source)

end Location

end Stencil.Text
