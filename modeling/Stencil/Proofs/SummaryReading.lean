/-
Compilers read back from a message.

What a message shows of a compiler says which compiler it is, as far as it is shown at all: two
texts are equal only if the names in them are.  The names can hold anything, brackets, commas and
quotes included, so what matters is that a quoted text ends in one place only.

* `Text.firstShown?` — the character at the front of what stands between quotes, read back;
* `SelfDelimiting` — texts that say where they end, whatever stands behind them, and lists of them
  (`Delimited.nil`, `Delimited.cons`, `SelfDelimiting.flatMap`);
* `selfDelimiting_quoted`, `selfDelimiting_listOnLine`, `selfDelimiting_listOnLines` — quoted
  texts are of that kind, and so are names in brackets, on one line or one a line;
* `Compiler.summary_eq_iff`, `Compiler.indentedSummary_eq_iff` — so are compilers.
-/
import Stencil.Compiler.Summary
import Stencil.Proofs.JsonLiteral

namespace Stencil

namespace Text

/-! ### One character -/

/-- The number that hexadecimal digits write. -/
def hexNumber (digits : List Char) : Nat :=
  digits.foldl (fun n digit => 16 * n + (hexValue? digit).getD 0) 0

theorem hexValue?_digitChar : ∀ {n : Nat}, n < 16 → hexValue? n.digitChar = some n := by
  decide

/-- A number is what its digits write. -/
theorem hexNumber_toDigits (n : Nat) : hexNumber (Nat.toDigits 16 n) = n := by
  induction n using Nat.strongRecOn with
  | ind n ih =>
    rw [Nat.toDigits_eq_if (by decide)]
    split
    next h => simp [hexNumber, hexValue?_digitChar h]
    next h =>
      have hlast : n % 16 < 16 := Nat.mod_lt n (by decide)
      have hfirst : hexNumber (Nat.toDigits 16 (n / 16)) = n / 16 := ih _ (by omega)
      rw [hexNumber] at hfirst ⊢
      rw [List.foldl_append, hfirst, List.foldl_cons, List.foldl_nil, hexValue?_digitChar hlast,
        Option.getD_some]
      omega

theorem digitChar_ne_brace : ∀ {n : Nat}, n < 16 → n.digitChar ≠ '}' := by
  decide

theorem brace_notMem_toDigits (n : Nat) : '}' ∉ Nat.toDigits 16 n := by
  induction n using Nat.strongRecOn with
  | ind n ih =>
    rw [Nat.toDigits_eq_if (by decide)]
    split
    next h => simp [(digitChar_ne_brace h).symm]
    next h =>
      have hlast : n % 16 < 16 := Nat.mod_lt n (by decide)
      simp [ih (n / 16) (by omega), (digitChar_ne_brace hlast).symm]

/-- The character that a letter behind a backslash shows. -/
def letterShown : Char → Char
  | 'n' => '\n'
  | 'r' => '\r'
  | 't' => '\t'
  | '0' => '\x00'
  | c => c

/-- The first character that is shown between quotes, and what stands behind it. -/
def firstShown? : List Char → Option (Char × List Char)
  | [] => none
  | '"' :: _ => none
  | '\\' :: 'u' :: '{' :: cs =>
    some (.ofNat (hexNumber (cs.takeWhile (· ≠ '}'))), (cs.dropWhile (· ≠ '}')).tail)
  | '\\' :: letter :: cs => some (letterShown letter, cs)
  | c :: cs => some (c, cs)

theorem firstShown?_codePointForm (c : Char) (r : List Char) :
    firstShown? (codePointForm c ++ r) = some (c, r) := by
  have hdigits : ∀ d ∈ Nat.toDigits 16 c.toNat, decide (d ≠ '}') = true := fun d hd =>
    decide_eq_true fun h => brace_notMem_toDigits c.toNat (h ▸ hd)
  simp only [codePointForm, List.cons_append, List.append_assoc, List.nil_append, firstShown?]
  rw [List.takeWhile_append_of_pos hdigits, List.dropWhile_append_of_pos hdigits]
  simp [hexNumber_toDigits]

theorem firstShown?_letter {c letter : Char} (h : quotedLetter? c = some letter) (r : List Char) :
    firstShown? ('\\' :: letter :: r) = some (c, r) := by
  rw [quotedLetter?.eq_def] at h
  split at h <;> cases h <;> rfl

theorem firstShown?_plain {c : Char} (h : quotedLetter? c = none) (r : List Char) :
    firstShown? (c :: r) = some (c, r) := by
  rw [firstShown?.eq_def]
  split
  case h_1 heq => cases heq
  case h_5 heq =>
    cases heq
    rfl
  -- A quote and a backslash have a letter.
  all_goals
    next heq =>
      cases heq
      cases h

/-- What is written for a character shows that character, whatever stands behind it. -/
theorem firstShown?_quotedChar (c : Char) (r : List Char) :
    firstShown? (quotedChar c ++ r) = some (c, r) := by
  rw [quotedChar.eq_def]
  split
  next letter h => exact firstShown?_letter h r
  next h =>
    split
    · exact firstShown?_codePointForm c r
    · exact firstShown?_plain h r

/-! ### Texts that say where they end -/

/-- Whether what is written for `a` ends in one place only, whatever stands behind it, and is
written for nothing else. -/
def Delimited {α : Type} (write : α → List Char) (a : α) : Prop :=
  ∀ ⦃b r s⦄, write a ++ r = write b ++ s → a = b ∧ r = s

/-- Whether all that is written is delimited. -/
def SelfDelimiting {α : Type} (write : α → List Char) : Prop :=
  ∀ a, Delimited write a

section Lists

variable {α : Type} {list more : List α → List Char} {first : α → List Char} {empty : List Char}

/-- What is written for no elements is delimited if what is written for some starts unlike it. -/
theorem Delimited.nil (hnil : list [] = empty)
    (hcons : ∀ a as, list (a :: as) = first a ++ more as)
    (hempty : ∀ a r s, first a ++ r ≠ empty ++ s) : Delimited list [] := by
  intro bs r s heq
  cases bs with
  | nil => exact ⟨rfl, List.append_cancel_left heq⟩
  | cons b bs =>
    rw [hnil, hcons, List.append_assoc] at heq
    exact absurd heq.symm (hempty _ _ _)

/-- What is written for more is delimited if what is written for the first and the others is. -/
theorem Delimited.cons (hnil : list [] = empty)
    (hcons : ∀ a as, list (a :: as) = first a ++ more as)
    (hempty : ∀ a r s, first a ++ r ≠ empty ++ s) {a : α} {as : List α}
    (hfirst : Delimited first a) (hmore : Delimited more as) : Delimited list (a :: as) := by
  intro bs r s heq
  cases bs with
  | nil =>
    rw [hnil, hcons, List.append_assoc] at heq
    exact absurd heq (hempty _ _ _)
  | cons b bs =>
    rw [hcons, hcons, List.append_assoc, List.append_assoc] at heq
    obtain ⟨rfl, hrest⟩ := hfirst heq
    obtain ⟨rfl, rfl⟩ := hmore hrest
    exact ⟨rfl, rfl⟩

theorem SelfDelimiting.ofCons (hnil : list [] = empty)
    (hcons : ∀ a as, list (a :: as) = first a ++ more as)
    (hempty : ∀ a r s, first a ++ r ≠ empty ++ s) (hfirst : SelfDelimiting first)
    (hmore : SelfDelimiting more) : SelfDelimiting list
  | [] => .nil hnil hcons hempty
  | a :: as => .cons hnil hcons hempty (hfirst a) (hmore as)

end Lists

namespace SelfDelimiting

variable {α : Type} {write : α → List Char}

/-- Something else may be written around it. -/
theorem between (h : SelfDelimiting write) (before after : List Char) :
    SelfDelimiting fun a => before ++ (write a ++ after) := by
  intro a b r s heq
  simp only [List.append_assoc] at heq
  obtain ⟨rfl, hrest⟩ := h a (List.append_cancel_left heq)
  exact ⟨rfl, List.append_cancel_left hrest⟩

/-- Many in a row are delimited by what stands behind the last of them, if none starts like
that. -/
theorem flatMap (h : SelfDelimiting write) {stop : List Char}
    (hstop : ∀ a r s, write a ++ r ≠ stop ++ s) :
    SelfDelimiting fun as : List α => as.flatMap write ++ stop := by
  have hcons (a : α) (as : List α) :
      (a :: as).flatMap write ++ stop = write a ++ (as.flatMap write ++ stop) := by
    rw [List.flatMap_cons, List.append_assoc]
  intro as
  induction as with
  | nil => exact .nil rfl hcons hstop
  | cons a as ih => exact .cons rfl hcons hstop (h a) ih

end SelfDelimiting

theorem selfDelimiting_quotedChar : SelfDelimiting quotedChar := by
  intro c d r s heq
  have hread : some (c, r) = some (d, s) :=
    calc some (c, r) = firstShown? (quotedChar c ++ r) := (firstShown?_quotedChar c r).symm
      _ = firstShown? (quotedChar d ++ s) := by rw [heq]
      _ = some (d, s) := firstShown?_quotedChar d s
  cases hread
  exact ⟨rfl, rfl⟩

/-- No character is written with a quote in front. -/
theorem quotedChar_append_ne (c : Char) (r s : List Char) : quotedChar c ++ r ≠ ['"'] ++ s := by
  intro heq
  have hread : some (c, r) = none :=
    calc some (c, r) = firstShown? (quotedChar c ++ r) := (firstShown?_quotedChar c r).symm
      _ = firstShown? ('"' :: s) := by rw [heq]; rfl
      _ = none := rfl
  cases hread

theorem toList_quoted (s : String) :
    (quoted s).toList = ['"'] ++ (s.toList.flatMap quotedChar ++ ['"']) :=
  String.toList_ofList

/-- A quoted text ends in one place only, and shows one text only. -/
theorem selfDelimiting_quoted : SelfDelimiting fun s => (quoted s).toList := by
  intro a b r s heq
  have hbody := (selfDelimiting_quotedChar.flatMap quotedChar_append_ne).between ['"'] []
  simp only [toList_quoted] at heq
  obtain ⟨hchars, hrest⟩ := hbody a.toList (by simpa only [List.append_nil] using heq)
  exact ⟨String.toList_inj.mp hchars, hrest⟩

end Text

namespace Compiler

open Text (quoted SelfDelimiting selfDelimiting_quoted toList_quoted)

/-! ### Names in brackets -/

/-- Behind the first name each name follows a comma and a blank. -/
theorem toList_intercalate_quoted (name : String) (names : List String) :
    (", ".intercalate ((name :: names).map quoted)).toList =
      (quoted name).toList ++ names.flatMap fun name => ", ".toList ++ (quoted name).toList := by
  induction names generalizing name with
  | nil => simp
  | cons name' names ih =>
    have hcons : (", ".intercalate ((name :: name' :: names).map quoted)).toList =
        (quoted name).toList ++ ", ".toList ++
          (", ".intercalate ((name' :: names).map quoted)).toList := by
      simp only [List.map_cons, String.intercalate_cons_cons, String.toList_append]
    rw [hcons, ih, List.flatMap_cons]
    simp only [List.append_assoc]

/-- Names in brackets end in one place only, and are the names of one list only. -/
theorem selfDelimiting_listOnLine : SelfDelimiting fun names => (listOnLine names).toList := by
  have hfirst := selfDelimiting_quoted.between "[".toList []
  have hmore : SelfDelimiting fun names : List String =>
      names.flatMap (fun name => ", ".toList ++ ((quoted name).toList ++ [])) ++ "]".toList :=
    (selfDelimiting_quoted.between ", ".toList []).flatMap (by simp)
  have hcons (name : String) (names : List String) : (listOnLine (name :: names)).toList =
      "[".toList ++ ((quoted name).toList ++ []) ++
        (names.flatMap (fun name => ", ".toList ++ ((quoted name).toList ++ [])) ++
          "]".toList) := by
    unfold listOnLine
    simp only [String.toList_append, toList_intercalate_quoted, List.append_assoc, List.append_nil]
  -- A quote is no bracket.
  have hempty (name : String) (r s : List Char) :
      "[".toList ++ ((quoted name).toList ++ []) ++ r ≠ "[]".toList ++ s := by
    rw [toList_quoted]
    simp
  exact .ofCons rfl hcons hempty hfirst hmore

/-- So do names in brackets with one name a line. -/
theorem selfDelimiting_listOnLines : SelfDelimiting fun names => (listOnLines names).toList := by
  have hfirst := selfDelimiting_quoted.between "[\n        ".toList ",\n".toList
  have hmore : SelfDelimiting fun names : List String =>
      names.flatMap (fun name => "        ".toList ++ ((quoted name).toList ++ ",\n".toList)) ++
        "    ]".toList :=
    (selfDelimiting_quoted.between "        ".toList ",\n".toList).flatMap (by simp)
  have hcons (name : String) (names : List String) : (listOnLines (name :: names)).toList =
      "[\n        ".toList ++ ((quoted name).toList ++ ",\n".toList) ++
        (names.flatMap (fun name => "        ".toList ++ ((quoted name).toList ++ ",\n".toList)) ++
          "    ]".toList) := by
    unfold listOnLines
    simp [String.toList_append, String.toList_join, List.flatMap_map]
  have hempty (name : String) (r s : List Char) :
      "[\n        ".toList ++ ((quoted name).toList ++ ",\n".toList) ++ r ≠ "[]".toList ++ s := by
    simp
  exact .ofCons rfl hcons hempty hfirst hmore

/-! ### Compilers -/

/-- Whatever stands between them, a context and two lists of names are read off a text that they
are written in. -/
theorem entries_eq_iff {list : List String → String}
    (hlist : SelfDelimiting fun names => (list names).toList) {a b c d context context' : String}
    {helpers helpers' blockHelpers blockHelpers' : List String} :
    a ++ quoted context ++ b ++ list helpers ++ c ++ list blockHelpers ++ d =
        a ++ quoted context' ++ b ++ list helpers' ++ c ++ list blockHelpers' ++ d ↔
      context = context' ∧ helpers = helpers' ∧ blockHelpers = blockHelpers' := by
  constructor
  · intro h
    rw [← String.toList_inj] at h
    simp only [String.toList_append, List.append_assoc] at h
    obtain ⟨hcontext, h⟩ := selfDelimiting_quoted _ (List.append_cancel_left h)
    obtain ⟨hhelpers, h⟩ := hlist _ (List.append_cancel_left h)
    obtain ⟨hblockHelpers, -⟩ := hlist _ (List.append_cancel_left h)
    exact ⟨hcontext, hhelpers, hblockHelpers⟩
  · rintro ⟨rfl, rfl, rfl⟩
    rfl

theorem listOnLines_eq (names : List String) :
    listOnLines names = if names = [] then "[]" else "[\n" ++
      String.join (names.map fun name => "        " ++ quoted name ++ ",\n") ++ "    ]" := by
  cases names <;> rfl

variable {compiler compiler' : Compiler}

/-- The text of a compiler on one line shows its context and all its names. -/
theorem summary_eq_iff :
    compiler.summary = compiler'.summary ↔
      compiler.context = compiler'.context ∧
        compiler.helpers.names = compiler'.helpers.names ∧
        compiler.blockHelpers.names = compiler'.blockHelpers.names :=
  entries_eq_iff selfDelimiting_listOnLine

/-- So does its text with one entry a line. -/
theorem indentedSummary_eq_iff :
    compiler.indentedSummary = compiler'.indentedSummary ↔
      compiler.context = compiler'.context ∧
        compiler.helpers.names = compiler'.helpers.names ∧
        compiler.blockHelpers.names = compiler'.blockHelpers.names :=
  entries_eq_iff selfDelimiting_listOnLines

end Compiler

end Stencil
