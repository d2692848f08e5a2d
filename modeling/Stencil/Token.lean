/-
Tokens of a template.

A template is free text with tags.  The scanner cuts it into tokens: pieces of text, the
four delimiters `{{`, `{{#`, `{{/` and `}}`, and the parts of a tag.  A `Lexeme` says what a
token is and a `Token` adds where it starts, in bytes.

Messages name a token by its kind, and by its value if it has one; a `Pattern` is the same
pair on the asking side, and `Lexeme.pattern_accepts` says that a lexeme matches its own
pattern.
-/
import Stencil.Comparison
import Stencil.Text.Quoted

namespace Stencil

/-- The kinds of tokens. -/
inductive Kind
  | text
  | number
  | endOfInput
  | tagOpen
  | blockOpen
  | blockClose
  | tagClose
  | operator
  | identifier
  | string
  | unknown
deriving DecidableEq, Repr

namespace Kind

/-- The name of a kind in a message. -/
def label : Kind → String
  | .text => "text"
  | .number => "number"
  | .endOfInput => "end of input"
  | .tagOpen => r"`{{`"
  | .blockOpen => r"`{{#`"
  | .blockClose => r"`{{/`"
  | .tagClose => r"`}}`"
  | .operator => "operator"
  | .identifier => "identifier"
  | .string => "string"
  | .unknown => "character"

/-- A kind in a message, followed by a value if there is one. -/
def describe (kind : Kind) : Option String → String
  | none => kind.label
  | some value => kind.label ++ " " ++ Text.quoted value

end Kind

/-- What a token is. -/
inductive Lexeme
  /-- Text outside of tags. -/
  | text (content : String)
  | tagOpen
  | blockOpen
  | blockClose
  | tagClose
  | identifier (name : String)
  | number (digits : String)
  /-- A quoted text, its escapes resolved. -/
  | string (content : String)
  | comparison (op : Comparison)
  /-- The `=` between the key and the value of a named argument. -/
  | assign
  /-- A character that starts no other token. -/
  | unknown (char : Char)
  | endOfInput
deriving DecidableEq, Repr

namespace Lexeme

/-- The kind of a lexeme. -/
def kind : Lexeme → Kind
  | .text _ => .text
  | .tagOpen => .tagOpen
  | .blockOpen => .blockOpen
  | .blockClose => .blockClose
  | .tagClose => .tagClose
  | .identifier _ => .identifier
  | .number _ => .number
  | .string _ => .string
  | .comparison _ => .operator
  | .assign => .operator
  | .unknown _ => .unknown
  | .endOfInput => .endOfInput

/-- The value of a lexeme.  Delimiters and the end of the input have none. -/
def value? : Lexeme → Option String
  | .text content => some content
  | .identifier name => some name
  | .number digits => some digits
  | .string content => some content
  | .comparison op => some op.symbol
  | .assign => some "="
  | .unknown char => some (String.singleton char)
  | .tagOpen | .blockOpen | .blockClose | .tagClose | .endOfInput => none

/-- The value of a lexeme, empty if it has none. -/
def value (lexeme : Lexeme) : String :=
  lexeme.value?.getD ""

/-- How a message names the lexeme. -/
def describe (lexeme : Lexeme) : String :=
  lexeme.kind.describe lexeme.value?

end Lexeme

/-- A lexeme and the byte offset of its first character. -/
structure Token where
  lexeme : Lexeme
  position : Nat
deriving DecidableEq, Repr

/-- What one asks of a token: a kind and, if it matters, a value. -/
structure Pattern where
  kind : Kind
  value? : Option String := none
deriving DecidableEq, Repr

namespace Pattern

/-- Whether a lexeme is of the kind asked for, and has the value if one is asked for. -/
def accepts (pattern : Pattern) (lexeme : Lexeme) : Bool :=
  lexeme.kind = pattern.kind && (pattern.value?.isNone || lexeme.value? = pattern.value?)

/-- How a message names what was asked for. -/
def describe (pattern : Pattern) : String :=
  pattern.kind.describe pattern.value?

end Pattern

/-- The narrowest pattern of a lexeme. -/
def Lexeme.pattern (lexeme : Lexeme) : Pattern :=
  ⟨lexeme.kind, lexeme.value?⟩

@[simp] theorem Lexeme.pattern_accepts (lexeme : Lexeme) :
    lexeme.pattern.accepts lexeme = true := by
  simp [Lexeme.pattern, Pattern.accepts]

end Stencil
