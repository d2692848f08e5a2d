/-
A cursor over the tokens of a source.

The cursor shows one token and can look at the one behind it.  That second token is scanned
when it is first asked for and kept in `ahead?` until the cursor moves on to it, so the
scanner never goes back.  What the cursor answers does not depend on whether the slot is
filled: `lookAhead` and `advance` meet the same token (`advance_lookAhead`).
-/
import Stencil.Token.Scanner
import Stencil.SyntaxError

namespace Stencil

/-- A place among the tokens of a source. -/
structure Cursor where
  source : String
  current : Token
  ahead? : Option Token := none
  /-- Stands behind the current token, or behind the token ahead if there is one. -/
  scanner : Scanner
deriving Repr

namespace Cursor

/-- A cursor on the first token of `source`. -/
def ofSource (source : String) : Cursor :=
  let (first, scanner) := (Scanner.ofSource source).next
  { source, current := first, scanner }

/-- The token behind the current one. -/
def upcoming (cursor : Cursor) : Token :=
  cursor.ahead?.getD cursor.scanner.next.1

/-- The cursor with the token behind the current one at hand. -/
def lookAhead (cursor : Cursor) : Cursor :=
  match cursor.ahead? with
  | some _ => cursor
  | none =>
    let (token, scanner) := cursor.scanner.next
    { cursor with ahead? := some token, scanner }

/-- The cursor on the token behind the current one. -/
def advance (cursor : Cursor) : Cursor :=
  match cursor.ahead? with
  | some token => { cursor with current := token, ahead? := none }
  | none =>
    let (token, scanner) := cursor.scanner.next
    { cursor with current := token, scanner }

/-- Whether the current token matches. -/
def currentIs (cursor : Cursor) (pattern : Pattern) : Bool :=
  pattern.accepts cursor.current.lexeme

/-- Whether the token behind the current one matches, and the cursor that has seen it. -/
def upcomingIs (cursor : Cursor) (pattern : Pattern) : Bool × Cursor :=
  (pattern.accepts cursor.upcoming.lexeme, cursor.lookAhead)

/-- A fault of the source at the byte offset `position`. -/
def errorAt (cursor : Cursor) (cause : Cause) (position : Nat) : SyntaxError :=
  Fault.locate cursor.source ⟨cause, position⟩

/-- A fault of the source at the current token. -/
def error (cursor : Cursor) (cause : Cause) : SyntaxError :=
  cursor.errorAt cause cursor.current.position

/-- The fault of the current token standing where `wanted` was expected. -/
def unexpected (cursor : Cursor) (wanted : Pattern) : SyntaxError :=
  Fault.locate cursor.source (Fault.unexpected wanted cursor.current)

/-- Insists that the current token matches. -/
def expect (cursor : Cursor) (wanted : Pattern) : Except SyntaxError Unit :=
  if cursor.currentIs wanted then .ok () else .error (cursor.unexpected wanted)

@[simp] theorem current_advance (cursor : Cursor) : cursor.advance.current = cursor.upcoming := by
  unfold advance upcoming
  split
  next token h => simp [h]
  next h => simp [h]

@[simp] theorem current_lookAhead (cursor : Cursor) :
    cursor.lookAhead.current = cursor.current := by
  unfold lookAhead
  split <;> rfl

@[simp] theorem upcoming_lookAhead (cursor : Cursor) :
    cursor.lookAhead.upcoming = cursor.upcoming := by
  unfold lookAhead
  split
  next => rfl
  next h => simp [upcoming, h]

/-- Looking ahead does not change where the cursor goes. -/
theorem advance_lookAhead (cursor : Cursor) : cursor.lookAhead.advance = cursor.advance := by
  unfold lookAhead
  split
  next => rfl
  next h => simp [advance, h]

end Cursor

end Stencil
