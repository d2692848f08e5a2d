/-
The first token of a text.

A reader takes the front of a text for a token.  Its `Reading` holds the value found, the
characters that spell it and the rest of the text.

* `readOutside` — outside of tags: a delimiter that opens a tag, or the text before the next
  `{{`;
* `readInside` — inside a tag, behind any blanks: an operator, a quoted text, the closing
  `}}`, an identifier, a number, or a single character that starts none of these.

For each reader one lemma says that it loses nothing (`readOutside_input`,
`readInside_input`: the spelling followed by the rest is the text read) and one that it
moves on (`readOutside_ne_nil`, `readInside_ne_nil`: the spelling is not empty).  Names and
numbers are of ASCII letters, digits and the underscore only.
-/
import Stencil.Token

namespace Stencil

/-- The value that a reader found, how it is spelled and what follows. -/
structure Reading (α : Type) where
  value : α
  spelling : List Char
  rest : List Char
deriving DecidableEq, Repr

namespace Reading

variable {α β : Type}

/-- A reading of another value by the same characters. -/
def map (f : α → β) (r : Reading α) : Reading β :=
  ⟨f r.value, r.spelling, r.rest⟩

/-- The reading of a text that starts with `spelled`, which stands for `content`. -/
def cons (content spelled : List Char) (r : Reading (List Char)) : Reading (List Char) :=
  ⟨content ++ r.value, spelled ++ r.spelling, r.rest⟩

/-- The characters that were read. -/
def input (r : Reading α) : List Char :=
  r.spelling ++ r.rest

@[simp] theorem input_mk (value : α) (spelling rest : List Char) :
    (Reading.mk value spelling rest).input = spelling ++ rest := rfl

@[simp] theorem input_map (f : α → β) (r : Reading α) : (r.map f).input = r.input := rfl

@[simp] theorem spelling_map (f : α → β) (r : Reading α) : (r.map f).spelling = r.spelling := rfl

@[simp] theorem input_cons (content spelled : List Char) (r : Reading (List Char)) :
    (r.cons content spelled).input = spelled ++ r.input := by
  simp [cons, input]

end Reading

/-! ### Character classes -/

/-- The blanks between the parts of a tag. -/
def isBlank (c : Char) : Bool :=
  c = ' ' || c = '\t' || c = '\n' || c = '\r'

/-- Whether a name may start with `c`. -/
def startsName (c : Char) : Bool :=
  c.isAlpha || c = '_'

/-- Whether a name may go on with `c`. -/
def continuesName (c : Char) : Bool :=
  c.isAlphanum || c = '_'

/-! ### Outside of tags -/

/-- The text up to the first `{{`, or to the end. -/
def readText : List Char → Reading (List Char)
  | [] => ⟨[], [], []⟩
  | c :: cs =>
    if c = '{' ∧ cs.head? = some '{' then ⟨[], [], c :: cs⟩
    else (readText cs).cons [c] [c]

/-- The delimiter that `{{` and the characters after it make. -/
def readOpener : List Char → Reading Lexeme
  | '#' :: cs => ⟨.blockOpen, ['{', '{', '#'], cs⟩
  | '/' :: cs => ⟨.blockClose, ['{', '{', '/'], cs⟩
  | cs => ⟨.tagOpen, ['{', '{'], cs⟩

/-- The first token of `c :: cs` outside of tags. -/
def readOutside (c : Char) (cs : List Char) : Reading Lexeme :=
  if c = '{' ∧ cs.head? = some '{' then readOpener cs.tail
  else (readText (c :: cs)).map fun content => .text (String.ofList content)

theorem readText_input (cs : List Char) : (readText cs).input = cs := by
  induction cs with
  | nil => rfl
  | cons c cs ih =>
    unfold readText
    split
    next => rfl
    next => simp [ih]

theorem readText_value (cs : List Char) : (readText cs).value = (readText cs).spelling := by
  induction cs with
  | nil => rfl
  | cons c cs ih =>
    unfold readText
    split
    next => rfl
    next => simp [Reading.cons, ih]

theorem readOpener_input (cs : List Char) : (readOpener cs).input = '{' :: '{' :: cs := by
  unfold readOpener
  split <;> rfl

theorem readOpener_ne_nil (cs : List Char) : (readOpener cs).spelling ≠ [] := by
  unfold readOpener
  split <;> simp

/-- Outside of tags nothing is lost. -/
theorem readOutside_input (c : Char) (cs : List Char) : (readOutside c cs).input = c :: cs := by
  unfold readOutside
  split
  next h =>
    obtain ⟨rfl, h⟩ := h
    obtain ⟨ds, rfl⟩ := List.head?_eq_some_iff.1 h
    exact readOpener_input ds
  next => simp [readText_input]

/-- Outside of tags a reader moves on. -/
theorem readOutside_ne_nil (c : Char) (cs : List Char) : (readOutside c cs).spelling ≠ [] := by
  unfold readOutside
  split
  next => exact readOpener_ne_nil _
  next h => simp [readText, h, Reading.cons]

/-! ### Inside a tag -/

/-- The character that a backslash and `c` stand for. -/
def unescape : Char → Char
  | 'n' => '\n'
  | 'r' => '\r'
  | 't' => '\t'
  | c => c

/-- The text up to the next quote `q` that no backslash precedes, its escapes resolved.  The
spelling takes in the closing quote.  Without one the text goes on to the end. -/
def readQuoted (q : Char) : List Char → Reading (List Char)
  | [] => ⟨[], [], []⟩
  | c :: cs =>
    if c = q then ⟨[], [c], cs⟩
    else if c = '\\' then
      match cs with
      | [] => ⟨[], [c], []⟩
      | d :: ds => (readQuoted q ds).cons [unescape d] [c, d]
    else (readQuoted q cs).cons [c] [c]

/-- The characters up to the first that is not of the class. -/
def readWhile (p : Char → Bool) (cs : List Char) : Reading (List Char) :=
  ⟨cs.takeWhile p, cs.takeWhile p, cs.dropWhile p⟩

/-- The lexeme `long` if `d` follows on `c`, and `short` if not. -/
def readPair (c d : Char) (long short : Lexeme) : List Char → Reading Lexeme
  | [] => ⟨short, [c], []⟩
  | e :: cs => if e = d then ⟨long, [c, e], cs⟩ else ⟨short, [c], e :: cs⟩

/-- The first token of `c :: cs` inside a tag, where `c` is no blank. -/
def readInside (c : Char) (cs : List Char) : Reading Lexeme :=
  if c = '=' then readPair c '=' (.comparison .eq) .assign cs
  else if c = '!' then readPair c '=' (.comparison .notEq) (.unknown c) cs
  else if c = '>' then readPair c '=' (.comparison .gtEq) (.comparison .gt) cs
  else if c = '<' then readPair c '=' (.comparison .ltEq) (.comparison .lt) cs
  else if c = '}' then readPair c '}' .tagClose (.unknown c) cs
  else if c = '"' ∨ c = '\'' then
    ((readQuoted c cs).cons [] [c]).map fun content => .string (String.ofList content)
  else if startsName c then
    ((readWhile continuesName cs).cons [c] [c]).map fun name => .identifier (String.ofList name)
  else if c.isDigit then
    ((readWhile Char.isDigit cs).cons [c] [c]).map fun digits => .number (String.ofList digits)
  else ⟨.unknown c, [c], cs⟩

theorem readQuoted_input (q : Char) (cs : List Char) : (readQuoted q cs).input = cs := by
  fun_induction readQuoted q cs with
  | case1 => rfl
  | case2 => rfl
  | case3 => rfl
  | case4 d ds _ ih => simp [ih]
  | case5 c cs _ _ ih => simp [ih]

theorem readWhile_input (p : Char → Bool) (cs : List Char) : (readWhile p cs).input = cs :=
  List.takeWhile_append_dropWhile

theorem readPair_input (c d : Char) (long short : Lexeme) (cs : List Char) :
    (readPair c d long short cs).input = c :: cs := by
  unfold readPair
  split
  next => rfl
  next => split <;> rfl

theorem readPair_ne_nil (c d : Char) (long short : Lexeme) (cs : List Char) :
    (readPair c d long short cs).spelling ≠ [] := by
  unfold readPair
  split
  next => simp
  next => split <;> simp

/-- Inside a tag nothing is lost. -/
theorem readInside_input (c : Char) (cs : List Char) : (readInside c cs).input = c :: cs := by
  unfold readInside
  repeat' split
  all_goals simp [readPair_input, readQuoted_input, readWhile_input]

/-- Inside a tag a reader moves on. -/
theorem readInside_ne_nil (c : Char) (cs : List Char) : (readInside c cs).spelling ≠ [] := by
  unfold readInside
  repeat' split
  all_goals simp [readPair_ne_nil, Reading.cons]

end Stencil
