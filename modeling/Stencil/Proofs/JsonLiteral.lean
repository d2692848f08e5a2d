/-
JSON string literals.

`JsonLiteral literal content` says that `literal` is a JSON string and denotes `content`.  Any
literal counts, whether or not it escapes no more than it has to, so what is shown of a literal
holds of every reader of JSON.

* `JsonLiteral.unique` — where a literal starts, it ends in one place only, and denotes one text
  only;
* `jsonLiteral_jsonString` — `jsonString s` is a literal for `s`.

A code unit of UTF-16 that is half of a pair denotes no text by itself.
-/
import Stencil.Basic
import Stencil.Text.JsonString

namespace Stencil.Text

/-- The value of a hexadecimal digit, in either case. -/
def hexValue? (c : Char) : Option Nat :=
  if c.isDigit then some (c.toNat - '0'.toNat)
  else if 'a'.toNat ≤ c.toNat ∧ c.toNat ≤ 'f'.toNat then some (10 + (c.toNat - 'a'.toNat))
  else if 'A'.toNat ≤ c.toNat ∧ c.toNat ≤ 'F'.toNat then some (10 + (c.toNat - 'A'.toNat))
  else none

/-- The number that four hexadecimal digits write. -/
def codeUnit? (a b c d : Char) : Option Nat := do
  let i ← hexValue? a
  let j ← hexValue? b
  let k ← hexValue? c
  let l ← hexValue? d
  return ((i * 16 + j) * 16 + k) * 16 + l

/-- The character that a backslash and one letter denote. -/
def letterMeaning? : Char → Option Char
  | '"' => some '"'
  | '\\' => some '\\'
  | '/' => some '/'
  | 'b' => some '\x08'
  | 'f' => some '\x0c'
  | 'n' => some '\n'
  | 'r' => some '\r'
  | 't' => some '\t'
  | _ => none

/-- How one character can be written in a literal. -/
inductive JsonChar : List Char → Char → Prop
  | plain {c : Char} : 0x20 ≤ c.toNat → c ≠ '"' → c ≠ '\\' → JsonChar [c] c
  | letter {l c : Char} : letterMeaning? l = some c → JsonChar ['\\', l] c
  | unit {a b c d u : Char} :
      codeUnit? a b c d = some u.toNat → JsonChar ['\\', 'u', a, b, c, d] u
  /-- A high and a low half of a character beyond the first 65536. -/
  | pair {a b c d a' b' c' d' u : Char} {high low : Nat} :
      codeUnit? a b c d = some high → codeUnit? a' b' c' d' = some low →
      0xD800 ≤ high → high < 0xDC00 → 0xDC00 ≤ low → low < 0xE000 →
      u.toNat = 0x10000 + (high - 0xD800) * 0x400 + (low - 0xDC00) →
      JsonChar ['\\', 'u', a, b, c, d, '\\', 'u', a', b', c', d'] u

/-- How characters can be written between the quotes of a literal. -/
inductive JsonBody : List Char → List Char → Prop
  | nil : JsonBody [] []
  | cons {as bs cs : List Char} {c : Char} :
      JsonChar as c → JsonBody bs cs → JsonBody (as ++ bs) (c :: cs)

/-- Whether `literal` is a JSON string that denotes `content`. -/
def JsonLiteral (literal content : List Char) : Prop :=
  ∃ body, JsonBody body content ∧ literal = '"' :: (body ++ ['"'])

/-! ### Literals are read in one way only -/

theorem JsonChar.head {as : List Char} {c : Char} (h : JsonChar as c) :
    ∃ d ds, as = d :: ds ∧ d ≠ '"' := by
  cases h with
  | plain _ hquote _ => exact ⟨_, _, rfl, hquote⟩
  | _ => exact ⟨_, _, rfl, by decide⟩

/-- Where a character is written in a literal, it is written in one way only. -/
theorem JsonChar.unique {as bs r s : List Char} {c d : Char} (h : JsonChar as c)
    (h' : JsonChar bs d) (heq : as ++ r = bs ++ s) : c = d ∧ r = s := by
  cases h with
  | plain _ _ hbackslash =>
    cases h' with
    | plain => exact List.cons.inj heq
    | _ => exact absurd (List.cons.inj heq).1 hbackslash
  | letter hl =>
    cases h' with
    | plain _ _ hbackslash => exact absurd (List.cons.inj heq).1.symm hbackslash
    | letter hl' =>
      simp only [List.cons_append, List.nil_append, List.cons.injEq, true_and] at heq
      obtain ⟨rfl, rfl⟩ := heq
      exact ⟨Option.some.inj (hl.symm.trans hl'), rfl⟩
    | _ =>
      -- No letter is a `u`.
      simp only [List.cons_append, List.cons.injEq, true_and] at heq
      rw [heq.1] at hl
      cases hl
  | unit hu =>
    cases h' with
    | plain _ _ hbackslash => exact absurd (List.cons.inj heq).1.symm hbackslash
    | letter hl =>
      simp only [List.cons_append, List.cons.injEq, true_and] at heq
      rw [← heq.1] at hl
      cases hl
    | unit hu' =>
      simp only [List.cons_append, List.nil_append, List.cons.injEq, true_and] at heq
      obtain ⟨rfl, rfl, rfl, rfl, rfl⟩ := heq
      exact ⟨Char.toNat_inj.mp (Option.some.inj (hu.symm.trans hu')), rfl⟩
    | pair hhigh _ h1 h2 =>
      simp only [List.cons_append, List.nil_append, List.cons.injEq, true_and] at heq
      obtain ⟨rfl, rfl, rfl, rfl, -⟩ := heq
      have hhalf := Option.some.inj (hu.symm.trans hhigh)
      have hscalar := toNat_not_surrogate c
      omega
  | pair hhigh hlow h1 h2 _ _ hu =>
    cases h' with
    | plain _ _ hbackslash => exact absurd (List.cons.inj heq).1.symm hbackslash
    | letter hl =>
      simp only [List.cons_append, List.cons.injEq, true_and] at heq
      rw [← heq.1] at hl
      cases hl
    | unit hu' =>
      simp only [List.cons_append, List.nil_append, List.cons.injEq, true_and] at heq
      obtain ⟨rfl, rfl, rfl, rfl, -⟩ := heq
      have hhalf := Option.some.inj (hhigh.symm.trans hu')
      have hscalar := toNat_not_surrogate d
      omega
    | pair hhigh' hlow' _ _ _ _ hu' =>
      simp only [List.cons_append, List.nil_append, List.cons.injEq, true_and] at heq
      obtain ⟨rfl, rfl, rfl, rfl, rfl, rfl, rfl, rfl, rfl⟩ := heq
      obtain rfl := Option.some.inj (hhigh.symm.trans hhigh')
      obtain rfl := Option.some.inj (hlow.symm.trans hlow')
      exact ⟨Char.toNat_inj.mp (hu.trans hu'.symm), rfl⟩

theorem JsonBody.unique {as cs : List Char} (h : JsonBody as cs) : ∀ {bs ds r s : List Char},
    JsonBody bs ds → as ++ '"' :: r = bs ++ '"' :: s → cs = ds ∧ r = s := by
  induction h with
  | nil =>
    intro bs ds r s h' heq
    cases h' with
    | nil => exact ⟨rfl, (List.cons.inj heq).2⟩
    | cons hd =>
      obtain ⟨d, more, rfl, hquote⟩ := hd.head
      exact absurd (List.cons.inj heq).1.symm hquote
  | cons hc _ ih =>
    intro bs ds r s h' heq
    cases h' with
    | nil =>
      obtain ⟨c, more, rfl, hquote⟩ := hc.head
      exact absurd (List.cons.inj heq).1 hquote
    | cons hd hds =>
      rw [List.append_assoc, List.append_assoc] at heq
      obtain ⟨rfl, heq⟩ := hc.unique hd heq
      obtain ⟨rfl, rfl⟩ := ih hds heq
      exact ⟨rfl, rfl⟩

/-- Where a literal starts, it ends in one place only, and denotes one text only. -/
theorem JsonLiteral.unique {as bs cs ds r s : List Char} (h : JsonLiteral as cs)
    (h' : JsonLiteral bs ds) (heq : as ++ r = bs ++ s) : cs = ds ∧ r = s := by
  obtain ⟨body, hbody, rfl⟩ := h
  obtain ⟨body', hbody', rfl⟩ := h'
  simp only [List.cons_append, List.append_assoc, List.nil_append, List.cons.injEq,
    true_and] at heq
  exact hbody.unique hbody' heq

/-! ### The literals of `jsonString` -/

theorem letterMeaning?_of_shortEscape? {c l : Char} (h : shortEscape? c = some l) :
    letterMeaning? l = some c := by
  rw [shortEscape?.eq_def] at h
  split at h <;> cases h <;> rfl

theorem hexValue?_hexDigit : ∀ {n : Nat}, n < 16 → hexValue? (hexDigit n) = some n := by
  decide

theorem codeUnit?_escaped {n : Nat} (h : n < 0x20) :
    codeUnit? '0' '0' (hexDigit (n / 16)) (hexDigit (n % 16)) = some n := by
  have h0 : hexValue? '0' = some 0 := rfl
  rw [codeUnit?, h0, hexValue?_hexDigit (by omega), hexValue?_hexDigit (by omega)]
  show some (((0 * 16 + 0) * 16 + n / 16) * 16 + n % 16) = some n
  congr 1
  omega

theorem jsonChar_escaped (c : Char) : JsonChar (escaped c) c := by
  rw [escaped.eq_def]
  split
  next l hl => exact .letter (letterMeaning?_of_shortEscape? hl)
  next hl =>
    split
    next hc => exact .unit (codeUnit?_escaped hc)
    next hc =>
      refine .plain (by omega) ?_ ?_
      · rintro rfl
        cases hl
      · rintro rfl
        cases hl

theorem jsonBody_flatMap_escaped (cs : List Char) : JsonBody (cs.flatMap escaped) cs := by
  induction cs with
  | nil => exact .nil
  | cons c cs ih => exact .cons (jsonChar_escaped c) ih

/-- A text is denoted by the literal that is written for it. -/
theorem jsonLiteral_jsonString (s : String) : JsonLiteral (jsonString s).toList s.toList :=
  ⟨_, jsonBody_flatMap_escaped s.toList, toList_jsonString s⟩

end Stencil.Text
