/-
Texts quoted for a message.

`quoted s` stands between double quotes.  A quote and a backslash inside it follow a
backslash, line feed, carriage return, tab and the null character have their usual short
forms, and an unprintable character is shown by its code point in lower-case hexadecimal.
Everything else, single quotes included, stands as it is.
-/
import Stencil.Text.Unprintable

namespace Stencil.Text

/-- The code point of `c` between braces, as in `\u{200b}`. -/
def codePointForm (c : Char) : List Char :=
  '\\' :: 'u' :: '{' :: (Nat.toDigits 16 c.toNat ++ ['}'])

/-- The letter that stands for `c` behind a backslash in a message, if there is one. -/
def quotedLetter? : Char → Option Char
  | '"' => some '"'
  | '\\' => some '\\'
  | '\n' => some 'n'
  | '\r' => some 'r'
  | '\t' => some 't'
  | '\x00' => some '0'
  | _ => none

/-- How `c` stands in a quoted text. -/
def quotedChar (c : Char) : List Char :=
  match quotedLetter? c with
  | some letter => ['\\', letter]
  | none => if isUnprintable c then codePointForm c else [c]

/-- The text `s` as a message shows it. -/
def quoted (s : String) : String :=
  String.ofList ('"' :: (s.toList.flatMap quotedChar ++ ['"']))

end Stencil.Text
