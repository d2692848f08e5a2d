/-
String literals.

`jsonString s` is the text `s` as a JSON string, which is a JavaScript string literal too.
Quote, backslash and five controls are written as a backslash and a letter of their own, the
other characters below the space with four hexadecimal digits in lower case, and every other
character stands for itself.

* `toList_jsonString` — a literal is its two quotes around the characters' own forms;
* `le_of_mem_escaped` — no form holds a character below the space.
-/
namespace Stencil.Text

/-- The letter that stands for `c` behind a backslash, if there is one. -/
def shortEscape? : Char → Option Char
  | '"' => some '"'
  | '\\' => some '\\'
  | '\x08' => some 'b'
  | '\t' => some 't'
  | '\n' => some 'n'
  | '\x0c' => some 'f'
  | '\r' => some 'r'
  | _ => none

/-- A hexadecimal digit, in lower case. -/
def hexDigit (n : Nat) : Char :=
  if n < 10 then Char.ofNat ('0'.toNat + n) else Char.ofNat ('a'.toNat + (n - 10))

/-- How `c` stands between the quotes of a literal. -/
def escaped (c : Char) : List Char :=
  match shortEscape? c with
  | some letter => ['\\', letter]
  | none =>
    if c.toNat < 0x20 then
      ['\\', 'u', '0', '0', hexDigit (c.toNat / 16), hexDigit (c.toNat % 16)]
    else [c]

/-- The literal that denotes `s`. -/
def jsonString (s : String) : String :=
  String.ofList ('"' :: (s.toList.flatMap escaped ++ ['"']))

@[simp] theorem toList_jsonString (s : String) :
    (jsonString s).toList = '"' :: (s.toList.flatMap escaped ++ ['"']) :=
  String.toList_ofList

theorem le_hexDigit : ∀ {n : Nat}, n < 16 → 0x20 ≤ (hexDigit n).toNat := by
  decide

theorem le_of_shortEscape?_eq_some {c letter : Char} (h : shortEscape? c = some letter) :
    0x20 ≤ letter.toNat := by
  unfold shortEscape? at h
  split at h <;> cases h <;> decide

/-- A literal has no control character. -/
theorem le_of_mem_escaped {c d : Char} (h : d ∈ escaped c) : 0x20 ≤ d.toNat := by
  unfold escaped at h
  split at h
  next letter hl =>
    simp only [List.mem_cons, List.not_mem_nil, or_false] at h
    rcases h with rfl | rfl
    · decide
    · exact le_of_shortEscape?_eq_some hl
  next hl =>
    split at h
    next hc =>
      simp only [List.mem_cons, List.not_mem_nil, or_false] at h
      rcases h with rfl | rfl | rfl | rfl | rfl | rfl
      · decide
      · decide
      · decide
      · decide
      · exact le_hexDigit (by omega)
      · exact le_hexDigit (by omega)
    next hc =>
      simp only [List.mem_cons, List.not_mem_nil, or_false] at h
      subst h
      omega

end Stencil.Text
