/-
Cutting a source into tokens.

A `Scanner` stands at a byte offset of a source, outside of tags or inside one, and holds
the text that is left.  `next` takes one token off; once nothing is left, every further token
is the end of the input.

* `rest_next_lt` — a token other than the end of the input leaves less text;
* `tokens` — the tokens before the end of the input;
* `take` — that many tokens and the scanner behind them;
* `endPosition_next` — whatever is taken off, the scanner stays on course for the same end.
-/
import Stencil.Text.Bytes
import Stencil.Token.Reading

namespace Stencil

open Text (byteLength)

/-- Whether a scanner stands in free text or in a tag. -/
inductive Mode
  | text
  | tag
deriving DecidableEq, Repr

/-- The mode behind a lexeme that was read in `mode`. -/
def Lexeme.modeAfter (mode : Mode) : Lexeme → Mode
  | .tagOpen | .blockOpen | .blockClose => .tag
  | .tagClose => .text
  | _ => mode

/-- A place in a source. -/
structure Scanner where
  rest : List Char
  offset : Nat := 0
  mode : Mode := .text
deriving DecidableEq, Repr

namespace Scanner

/-- A scanner at the start of `source`. -/
def ofSource (source : String) : Scanner :=
  { rest := source.toList }

/-- The characters to skip before the next token: blanks inside a tag, none outside. -/
def gap (s : Scanner) : List Char :=
  match s.mode with
  | .text => []
  | .tag => s.rest.takeWhile isBlank

/-- What is left behind the gap. -/
def body (s : Scanner) : List Char :=
  match s.mode with
  | .text => s.rest
  | .tag => s.rest.dropWhile isBlank

/-- The offset of the next token. -/
def start (s : Scanner) : Nat :=
  s.offset + byteLength s.gap

/-- The first token of `c :: cs` in the scanner's mode. -/
def read (s : Scanner) (c : Char) (cs : List Char) : Reading Lexeme :=
  match s.mode with
  | .text => readOutside c cs
  | .tag => readInside c cs

/-- The next token and the place behind it. -/
def next (s : Scanner) : Token × Scanner :=
  match s.body with
  | [] => (⟨.endOfInput, s.start⟩, ⟨[], s.start, s.mode⟩)
  | c :: cs =>
    let reading := s.read c cs
    (⟨reading.value, s.start⟩,
      ⟨reading.rest, s.start + byteLength reading.spelling, reading.value.modeAfter s.mode⟩)

theorem gap_append_body (s : Scanner) : s.gap ++ s.body = s.rest := by
  unfold gap body
  split
  next => rfl
  next => exact List.takeWhile_append_dropWhile

theorem read_input (s : Scanner) (c : Char) (cs : List Char) : (s.read c cs).input = c :: cs := by
  unfold read
  split
  next => exact readOutside_input c cs
  next => exact readInside_input c cs

theorem read_ne_nil (s : Scanner) (c : Char) (cs : List Char) : (s.read c cs).spelling ≠ [] := by
  unfold read
  split
  next => exact readOutside_ne_nil c cs
  next => exact readInside_ne_nil c cs

/-- A token other than the end of the input leaves less text. -/
theorem rest_next_lt {s : Scanner} (h : s.next.1.lexeme ≠ .endOfInput) :
    s.next.2.rest.length < s.rest.length := by
  have hrest := congrArg List.length s.gap_append_body
  unfold next at h ⊢
  split
  next hb => simp [hb] at h
  next c cs hb =>
    have hin := congrArg List.length (s.read_input c cs)
    have hpos := List.length_pos_iff.2 (s.read_ne_nil c cs)
    simp only [Reading.input, List.length_append, hb] at hin hrest
    simp only
    omega

/-- The tokens before the end of the input. -/
def tokens (s : Scanner) : List Token :=
  let step := s.next
  if _ : step.1.lexeme = .endOfInput then [] else step.1 :: step.2.tokens
termination_by s.rest.length
decreasing_by exact rest_next_lt ‹_›

/-- The next `n` tokens and the place behind them. -/
def take : Nat → Scanner → List Token × Scanner
  | 0, s => ([], s)
  | n + 1, s =>
    let (token, s') := s.next
    let (more, s'') := take n s'
    (token :: more, s'')

/-- The offset where the source ends. -/
def endPosition (s : Scanner) : Nat :=
  s.offset + byteLength s.rest

/-- The tokens up to and with the end of the input, and `extra` more. -/
def drain (s : Scanner) (extra : Nat) : List Token :=
  (s.take (s.tokens.length + 1 + extra)).1

theorem tokens_eq (s : Scanner) :
    s.tokens = if s.next.1.lexeme = .endOfInput then [] else s.next.1 :: s.next.2.tokens := by
  rw [tokens]
  simp only [dite_eq_ite]

/-- The end of the input lies where the source ends. -/
theorem endPosition_ofSource (source : String) :
    (ofSource source).endPosition = byteLength source.toList :=
  Nat.zero_add _

/-- No token moves the end of the source. -/
theorem endPosition_next (s : Scanner) : s.next.2.endPosition = s.endPosition := by
  have hrest := congrArg byteLength s.gap_append_body
  unfold next
  split
  next hb =>
    simp only [hb, List.append_nil] at hrest
    simp [endPosition, start, hrest]
  next c cs hb =>
    have hin := congrArg byteLength (s.read_input c cs)
    simp only [Reading.input, Text.byteLength_append, hb] at hin hrest
    simp only [endPosition, start]
    omega

end Scanner

end Stencil
