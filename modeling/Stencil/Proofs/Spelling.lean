/-
How lexemes are spelled.

`l.Spelled spelling rest` says which characters stand for a lexeme in a source, and what may
follow on them so that they do not stand for another one: a text goes up to the next `{{`, a
name, a number and an operator go on as far as they can, and a quoted text ends at the first
quote that no backslash precedes, or at the end of the source.

* `readOutside_eq_iff`, `readInside_eq_iff` — a reader finds a lexeme exactly where the lexeme
  is spelled;
* `readQuoted_eq_iff` — the same for the inside of a quoted text, told by `QuotedBody`.
-/
import Stencil.Basic
import Stencil.Token.Scanner

namespace Stencil

/-! ### Character classes -/

/-- A letter or underscore, and then letters, digits and underscores. -/
def isName : List Char → Bool
  | [] => false
  | c :: cs => startsName c && cs.all continuesName

/-- One digit or more. -/
def isNumber : List Char → Bool
  | [] => false
  | c :: cs => c.isDigit && cs.all Char.isDigit

/-- The characters that open a tag. -/
def openBraces : List Char := ['{', '{']

/-- A character that may stand for itself inside a tag. -/
def standsAlone (c : Char) : Bool :=
  !isBlank c && !startsName c && !c.isDigit && c ∉ ['=', '>', '<', '"', '\'']

/-! ### Quoted texts -/

/-- `body` has no quote `q` but behind a backslash, and means `content`: a backslash and the
character behind it stand for one character, and any other character for itself. -/
inductive QuotedBody (q : Char) : (body content : List Char) → Prop
  | nil : QuotedBody q [] []
  | plain {c : Char} {body content : List Char} :
      c ≠ q → c ≠ '\\' → QuotedBody q body content → QuotedBody q (c :: body) (c :: content)
  | escape {c : Char} {body content : List Char} :
      QuotedBody q body content →
      QuotedBody q ('\\' :: c :: body) (unescape c :: content)

/-- How a character of a text stands between two quotes `q`. -/
def protect (q c : Char) : List Char :=
  if c = q ∨ c = '\\' then ['\\', c] else [c]

/-- Every text has a body: a backslash protects each quote and each backslash in it. -/
theorem quotedBody_protect {q : Char} (hq : unescape q = q) (cs : List Char) :
    QuotedBody q (cs.flatMap (protect q)) cs := by
  induction cs with
  | nil => exact .nil
  | cons c cs ih =>
    rw [List.flatMap_cons, protect]
    by_cases hc : c = q ∨ c = '\\'
    · rw [if_pos hc]
      have hescape := QuotedBody.escape (c := c) ih
      have hc' : unescape c = c := by
        rcases hc with rfl | rfl
        · exact hq
        · rfl
      rwa [hc'] at hescape
    · rw [if_neg hc]
      obtain ⟨hquote, hbackslash⟩ := not_or.mp hc
      exact .plain hquote hbackslash ih

/-- What follows the opening quote up to the end of the quoted text: a body and its closing
quote, or, at the end of the source, a body without one, perhaps with a lone backslash. -/
def QuotedEnd (q : Char) (content spelling rest : List Char) : Prop :=
  ∃ body, QuotedBody q body content ∧
    (spelling = body ++ [q] ∨ rest = [] ∧ (spelling = body ∨ spelling = body ++ ['\\']))

variable {q : Char}

theorem readQuoted_quote (cs : List Char) : readQuoted q (q :: cs) = ⟨[], [q], cs⟩ := by
  rw [readQuoted.eq_def]
  exact if_pos rfl

theorem readQuoted_plain {c : Char} (hne : c ≠ q) (hbackslash : c ≠ '\\') (cs : List Char) :
    readQuoted q (c :: cs) = (readQuoted q cs).cons [c] [c] := by
  rw [readQuoted.eq_def]
  exact (if_neg hne).trans (if_neg hbackslash)

theorem readQuoted_escape (hq : q ≠ '\\') (c : Char) (cs : List Char) :
    readQuoted q ('\\' :: c :: cs) = (readQuoted q cs).cons [unescape c] ['\\', c] := by
  rw [readQuoted.eq_def]
  exact (if_neg hq.symm).trans (if_pos rfl)

/-- A body is read through whatever follows on it. -/
theorem readQuoted_append (hq : q ≠ '\\') {body content : List Char}
    (h : QuotedBody q body content) (cs : List Char) :
    readQuoted q (body ++ cs) = (readQuoted q cs).cons content body := by
  induction h with
  | nil => rfl
  | plain hne hbackslash _ ih => simp [readQuoted_plain hne hbackslash, ih, Reading.cons]
  | escape _ ih => simp [readQuoted_escape hq, ih, Reading.cons]

/-- What may stand in front of a body may stand in front of all up to the end of the quoted
text. -/
theorem QuotedEnd.cons {as bs content spelling rest : List Char}
    (hfront : ∀ {body content}, QuotedBody q body content →
      QuotedBody q (bs ++ body) (as ++ content))
    (h : QuotedEnd q content spelling rest) :
    QuotedEnd q (as ++ content) (bs ++ spelling) rest := by
  obtain ⟨body, hbody, hend⟩ := h
  refine ⟨bs ++ body, hfront hbody, ?_⟩
  rcases hend with rfl | ⟨hrest, rfl | rfl⟩
  · exact .inl (List.append_assoc ..).symm
  · exact .inr ⟨hrest, .inl rfl⟩
  · exact .inr ⟨hrest, .inr (List.append_assoc ..).symm⟩

theorem quotedEnd_readQuoted (q : Char) (cs : List Char) :
    QuotedEnd q (readQuoted q cs).value (readQuoted q cs).spelling (readQuoted q cs).rest := by
  fun_induction readQuoted q cs with
  | case1 => exact ⟨[], .nil, .inr ⟨rfl, .inl rfl⟩⟩
  | case2 => exact ⟨[], .nil, .inl rfl⟩
  | case3 => exact ⟨[], .nil, .inr ⟨rfl, .inr rfl⟩⟩
  | case4 d ds hq ih => exact @QuotedEnd.cons q [unescape d] ['\\', d] _ _ _ .escape ih
  | case5 c cs hne hbackslash ih =>
    exact @QuotedEnd.cons q [c] [c] _ _ _ (.plain hne hbackslash) ih

/-- A quoted text is read exactly as it is spelled. -/
theorem readQuoted_eq_iff (hq : q ≠ '\\') {cs content spelling rest : List Char} :
    readQuoted q cs = ⟨content, spelling, rest⟩ ↔
      cs = spelling ++ rest ∧ QuotedEnd q content spelling rest := by
  constructor
  · intro h
    have hinput := readQuoted_input q cs
    have hend := quotedEnd_readQuoted q cs
    rw [h] at hinput hend
    exact ⟨hinput.symm, hend⟩
  · rintro ⟨rfl, body, hbody, hend⟩
    -- Behind the body come the quote, the end of the source, or a backslash in front of it.
    rcases hend with rfl | ⟨rfl, rfl | rfl⟩
    · simp [readQuoted_append hq hbody, readQuoted_quote, Reading.cons]
    · rw [readQuoted_append hq hbody]
      simp [readQuoted, Reading.cons]
    · have hlone : readQuoted q ['\\'] = ⟨[], ['\\'], []⟩ := by
        rw [readQuoted.eq_def]
        exact (if_neg hq.symm).trans (if_pos rfl)
      simp [readQuoted_append hq hbody, hlone, Reading.cons]

/-! ### Lexemes -/

namespace Lexeme

/-- Whether the lexeme stands outside of tags: a text, or a delimiter that opens a tag. -/
def standsOutside : Lexeme → Bool
  | .text _ | .tagOpen | .blockOpen | .blockClose => true
  | _ => false

/-- Whether `spelling` stands for the lexeme where `rest` follows. -/
def Spelled (l : Lexeme) (spelling rest : List Char) : Prop :=
  match l with
  | .text content =>
    spelling = content.toList ∧ spelling ≠ [] ∧ ¬openBraces <:+: spelling ∧
      (rest = [] ∨ openBraces <+: rest ∧ spelling.getLast? ≠ some '{')
  | .tagOpen => spelling = openBraces ∧ rest.head? ≠ some '#' ∧ rest.head? ≠ some '/'
  | .blockOpen => spelling = openBraces ++ ['#']
  | .blockClose => spelling = openBraces ++ ['/']
  | .tagClose => spelling = ['}', '}']
  | .identifier name =>
    spelling = name.toList ∧ isName spelling = true ∧
      ∀ c, rest.head? = some c → continuesName c = false
  | .number digits =>
    spelling = digits.toList ∧ isNumber spelling = true ∧
      ∀ c, rest.head? = some c → c.isDigit = false
  | .string content =>
    ∃ q tail, (q = '"' ∨ q = '\'') ∧ spelling = q :: tail ∧
      QuotedEnd q content.toList tail rest
  | .comparison op =>
    spelling = op.symbol.toList ∧ (op = .gt ∨ op = .lt → rest.head? ≠ some '=')
  | .assign => spelling = ['='] ∧ rest.head? ≠ some '='
  | .unknown c =>
    spelling = [c] ∧ standsAlone c = true ∧ (c = '!' → rest.head? ≠ some '=') ∧
      (c = '}' → rest.head? ≠ some '}')
  | .endOfInput => False

end Lexeme

/-! ### Outside of tags -/

theorem readText_spec (cs : List Char) :
    ¬openBraces <:+: (readText cs).spelling ∧
      ((readText cs).rest = [] ∨ openBraces <+: (readText cs).rest ∧
        (readText cs).spelling.getLast? ≠ some '{') := by
  induction cs with
  | nil => exact ⟨by simp [readText, openBraces], .inl rfl⟩
  | cons c cs ih =>
    rw [readText]
    by_cases hopen : c = '{' ∧ cs.head? = some '{'
    · rw [if_pos hopen]
      obtain ⟨rfl, hhead⟩ := hopen
      obtain ⟨ds, rfl⟩ := List.head?_eq_some_iff.mp hhead
      exact ⟨by simp [openBraces], .inr ⟨⟨ds, rfl⟩, by simp⟩⟩
    · rw [if_neg hopen]
      obtain ⟨hclear, hend⟩ := ih
      have hinput := readText_input cs
      simp only [Reading.input] at hinput
      refine ⟨?_, ?_⟩
      · show ¬openBraces <:+: c :: (readText cs).spelling
        -- A `{{` in the text would start with `c`, where the text would have ended, or later.
        rw [List.infix_cons_iff]
        rintro (hhere | hlater)
        · obtain ⟨rfl, ds, hds⟩ := List.cons_prefix_cons.mp hhere
          refine hopen ⟨rfl, ?_⟩
          rw [← hinput, ← hds]
          rfl
        · exact hclear hlater
      · rcases hend with hend | ⟨hrest, hlast⟩
        · exact .inl hend
        refine .inr ⟨hrest, ?_⟩
        show (c :: (readText cs).spelling).getLast? ≠ some '{'
        rcases hspelling : (readText cs).spelling with _ | ⟨d, ds⟩
        · intro hc
          rw [hspelling, List.nil_append] at hinput
          obtain ⟨es, hes⟩ := hrest
          rw [List.getLast?_singleton, Option.some_inj] at hc
          exact hopen ⟨hc, by rw [← hinput, ← hes]; rfl⟩
        · rw [List.getLast?_cons_cons, ← hspelling]
          exact hlast

theorem readText_append : ∀ {cs rest : List Char}, ¬openBraces <:+: cs →
    (rest = [] ∨ openBraces <+: rest ∧ cs.getLast? ≠ some '{') →
    readText (cs ++ rest) = ⟨cs, cs, rest⟩ := by
  intro cs
  induction cs with
  | nil =>
    rintro rest - (rfl | ⟨⟨ds, rfl⟩, -⟩)
    · rfl
    · rfl
  | cons c cs ih =>
    intro rest hclear hend
    have hopen : ¬(c = '{' ∧ (cs ++ rest).head? = some '{') := by
      rintro ⟨rfl, hhead⟩
      rcases cs with _ | ⟨d, ds⟩
      · rcases hend with rfl | ⟨-, hlast⟩
        · simp at hhead
        · exact hlast rfl
      · obtain rfl : d = '{' := by simpa using hhead
        exact hclear ⟨[], ds, rfl⟩
    rw [List.cons_append, readText, if_neg hopen, ih]
    · rfl
    · exact fun h => hclear (List.infix_cons_iff.mpr (.inr h))
    · rcases hend with hend | ⟨hrest, hlast⟩
      · exact .inl hend
      refine .inr ⟨hrest, ?_⟩
      rcases cs with _ | ⟨d, ds⟩
      · simp
      · rwa [List.getLast?_cons_cons] at hlast

theorem spelled_readOutside (c : Char) (cs : List Char) :
    (readOutside c cs).value.standsOutside = true ∧
      (readOutside c cs).value.Spelled (readOutside c cs).spelling (readOutside c cs).rest := by
  rw [readOutside]
  by_cases hopen : c = '{' ∧ cs.head? = some '{'
  · rw [if_pos hopen, readOpener.eq_def]
    split
    next => exact ⟨rfl, rfl⟩
    next => exact ⟨rfl, rfl⟩
    next hblock hclose =>
      refine ⟨rfl, rfl, ?_, ?_⟩
      · intro h
        obtain ⟨ds, hds⟩ := List.head?_eq_some_iff.mp h
        exact hblock ds hds
      · intro h
        obtain ⟨ds, hds⟩ := List.head?_eq_some_iff.mp h
        exact hclose ds hds
  · rw [if_neg hopen]
    obtain ⟨hclear, hend⟩ := readText_spec (c :: cs)
    refine ⟨rfl, ?_, ?_, hclear, hend⟩
    · show _ = (String.ofList (readText (c :: cs)).value).toList
      rw [String.toList_ofList, readText_value]
      rfl
    · show (readText (c :: cs)).spelling ≠ []
      rw [readText, if_neg hopen]
      exact List.cons_ne_nil _ _

/-- Outside of tags a lexeme is read exactly where it is spelled. -/
theorem readOutside_eq_iff {c : Char} {cs spelling rest : List Char} {l : Lexeme} :
    readOutside c cs = ⟨l, spelling, rest⟩ ↔
      c :: cs = spelling ++ rest ∧ l.standsOutside = true ∧ l.Spelled spelling rest := by
  constructor
  · intro h
    have hinput := readOutside_input c cs
    have hspelled := spelled_readOutside c cs
    rw [h] at hinput hspelled
    exact ⟨hinput.symm, hspelled⟩
  · rintro ⟨hcs, houtside, hspelled⟩
    cases l with
    | text content =>
      obtain ⟨rfl, hne, hclear, hend⟩ := hspelled
      have htext := readText_append hclear hend
      rw [← hcs] at htext
      have hopen : ¬(c = '{' ∧ cs.head? = some '{') := by
        intro hopen
        rw [readText, if_pos hopen] at htext
        exact hne (congrArg Reading.spelling htext).symm
      rw [readOutside, if_neg hopen, htext]
      simp [Reading.map]
    | tagOpen =>
      obtain ⟨rfl, hblock, hclose⟩ := hspelled
      cases hcs
      rw [readOutside, if_pos ⟨rfl, rfl⟩]
      show readOpener rest = _
      rw [readOpener]
      · rfl
      · rintro ds rfl
        exact hblock rfl
      · rintro ds rfl
        exact hclose rfl
    | blockOpen =>
      obtain rfl : spelling = openBraces ++ ['#'] := hspelled
      cases hcs
      rfl
    | blockClose =>
      obtain rfl : spelling = openBraces ++ ['/'] := hspelled
      cases hcs
      rfl
    | _ => cases houtside

/-! ### Inside a tag -/

theorem readPair_of_head {c d : Char} {long short : Lexeme} {cs : List Char}
    (h : cs.head? = some d) : readPair c d long short cs = ⟨long, [c, d], cs.tail⟩ := by
  obtain ⟨ds, rfl⟩ := List.head?_eq_some_iff.mp h
  exact if_pos rfl

theorem readPair_of_head_ne {c d : Char} {long short : Lexeme} {cs : List Char}
    (h : cs.head? ≠ some d) : readPair c d long short cs = ⟨short, [c], cs⟩ := by
  rcases cs with _ | ⟨e, ds⟩
  · rfl
  · exact if_neg fun he => h (congrArg some he)

/-- What a reader finds is a lexeme of the inside of a tag, and is spelled there. -/
def SpelledInside (r : Reading Lexeme) : Prop :=
  r.value.standsOutside = false ∧ r.value.Spelled r.spelling r.rest

theorem spelledInside_readPair {c d : Char} {long short : Lexeme}
    (hlong : ∀ rest, SpelledInside ⟨long, [c, d], rest⟩)
    (hshort : ∀ rest : List Char, rest.head? ≠ some d → SpelledInside ⟨short, [c], rest⟩)
    (cs : List Char) : SpelledInside (readPair c d long short cs) := by
  by_cases h : cs.head? = some d
  · rw [readPair_of_head h]
    exact hlong _
  · rw [readPair_of_head_ne h]
    exact hshort _ h

theorem spelledInside_readInside {c : Char} (hc : isBlank c = false) (cs : List Char) :
    SpelledInside (readInside c cs) := by
  rw [readInside]
  -- Operators and `}}`: with the second character, or alone where it does not follow.
  split
  next h =>
    subst h
    refine spelledInside_readPair (fun rest => ?_) (fun rest hrest => ?_) cs
    · exact ⟨rfl, rfl, nofun⟩
    · exact ⟨rfl, rfl, hrest⟩
  split
  next h =>
    subst h
    refine spelledInside_readPair (fun rest => ?_) (fun rest hrest => ?_) cs
    · exact ⟨rfl, rfl, nofun⟩
    · exact ⟨rfl, rfl, rfl, fun _ => hrest, nofun⟩
  split
  next h =>
    subst h
    refine spelledInside_readPair (fun rest => ?_) (fun rest hrest => ?_) cs
    · exact ⟨rfl, rfl, nofun⟩
    · exact ⟨rfl, rfl, fun _ => hrest⟩
  split
  next h =>
    subst h
    refine spelledInside_readPair (fun rest => ?_) (fun rest hrest => ?_) cs
    · exact ⟨rfl, rfl, nofun⟩
    · exact ⟨rfl, rfl, fun _ => hrest⟩
  split
  next h =>
    subst h
    refine spelledInside_readPair (fun rest => ?_) (fun rest hrest => ?_) cs
    · exact ⟨rfl, rfl⟩
    · exact ⟨rfl, rfl, rfl, nofun, fun _ => hrest⟩
  -- A quoted text.
  split
  next h =>
    refine ⟨rfl, c, _, h, rfl, ?_⟩
    rw [String.toList_ofList]
    exact quotedEnd_readQuoted c cs
  -- Names and numbers go on as far as they can.
  split
  next h =>
    refine ⟨rfl, ?_, ?_, head?_dropWhile_eq_false continuesName cs⟩
    · rw [String.toList_ofList]
      rfl
    · show (startsName c && (cs.takeWhile continuesName).all continuesName) = true
      rw [h, List.all_takeWhile]
      rfl
  split
  next h =>
    refine ⟨rfl, ?_, ?_, head?_dropWhile_eq_false Char.isDigit cs⟩
    · rw [String.toList_ofList]
      rfl
    · show (c.isDigit && (cs.takeWhile Char.isDigit).all Char.isDigit) = true
      rw [h, List.all_takeWhile]
      rfl
  next heq hnot hgt hlt hbrace hquote hname hdigit =>
    refine ⟨rfl, rfl, ?_, fun h => absurd h hnot, fun h => absurd h hbrace⟩
    simp only [not_or] at hquote
    simp [standsAlone, hc, hname, hdigit, heq, hgt, hlt, hquote]

/-- A character of a class without the signs of operators, quotes and braces is read by the
branches behind theirs. -/
theorem readInside_of_class {p : Char → Bool} {c : Char} (hc : p c = true)
    (hp : ['=', '!', '>', '<', '}', '"', '\''].any p = false) (cs : List Char) :
    readInside c cs =
      if startsName c then
        ((readWhile continuesName cs).cons [c] [c]).map
          fun name => .identifier (String.ofList name)
      else if c.isDigit then
        ((readWhile Char.isDigit cs).cons [c] [c]).map
          fun digits => .number (String.ofList digits)
      else ⟨.unknown c, [c], cs⟩ := by
  have hne : ∀ d ∈ ['=', '!', '>', '<', '}', '"', '\''], c ≠ d :=
    fun d hd => ne_of_class hc (eq_false_of_ne_true (List.any_eq_false.mp hp d hd))
  simp only [List.forall_mem_cons] at hne
  obtain ⟨heq, hnot, hgt, hlt, hbrace, hdouble, hsingle, -⟩ := hne
  rw [readInside, if_neg heq, if_neg hnot, if_neg hgt, if_neg hlt, if_neg hbrace,
    if_neg (not_or.mpr ⟨hdouble, hsingle⟩)]

theorem readInside_of_startsName {c : Char} (hc : startsName c = true) (cs : List Char) :
    readInside c cs =
      ((readWhile continuesName cs).cons [c] [c]).map
        fun name => .identifier (String.ofList name) := by
  rw [readInside_of_class hc rfl, if_pos hc]

theorem startsName_eq_false_of_isDigit {c : Char} (hc : c.isDigit = true) :
    startsName c = false := by
  have hne : c ≠ '_' := ne_of_class hc rfl
  -- Between `0` and `9` there is neither a capital nor a small letter.
  simp only [Char.isDigit, Bool.and_eq_true, decide_eq_true_eq, ge_iff_le,
    UInt32.le_iff_toNat_le] at hc
  have hstarts : startsName c = (decide ('A'.val ≤ c.val ∧ c.val ≤ 'Z'.val) ||
    (decide ('a'.val ≤ c.val) && decide (c.val ≤ 'z'.val)) || decide (c = '_')) := rfl
  simp only [hstarts, UInt32.le_iff_toNat_le, hne, decide_false, Bool.or_false,
    Bool.or_eq_false_iff, Bool.and_eq_false_iff, decide_eq_false_iff_not]
  obtain ⟨-, hc⟩ := hc
  have h9 : ('9' : Char).val.toNat = 57 := rfl
  have hA : ('A' : Char).val.toNat = 65 := rfl
  have ha : ('a' : Char).val.toNat = 97 := rfl
  omega

theorem readInside_of_isDigit {c : Char} (hc : c.isDigit = true) (cs : List Char) :
    readInside c cs =
      ((readWhile Char.isDigit cs).cons [c] [c]).map
        fun digits => .number (String.ofList digits) := by
  rw [readInside_of_class hc rfl, if_neg (by simp [startsName_eq_false_of_isDigit hc]),
    if_pos hc]

theorem readInside_of_standsAlone {c : Char} {cs : List Char} (hc : standsAlone c = true)
    (hnot : c = '!' → cs.head? ≠ some '=') (hbrace : c = '}' → cs.head? ≠ some '}') :
    readInside c cs = ⟨.unknown c, [c], cs⟩ := by
  by_cases h : c = '!'
  · subst h
    exact readPair_of_head_ne (hnot rfl)
  by_cases h' : c = '}'
  · subst h'
    exact readPair_of_head_ne (hbrace rfl)
  · simp only [standsAlone, Bool.and_eq_true, Bool.not_eq_true', decide_eq_true_eq,
      List.mem_cons, List.not_mem_nil, or_false, not_or] at hc
    obtain ⟨⟨⟨hblank, hname⟩, hdigit⟩, heq, hgt, hlt, hdouble, hsingle⟩ := hc
    simp [readInside, h, h', heq, hgt, hlt, hdouble, hsingle, hname, hdigit]

theorem readWhile_append {p : Char → Bool} {cs rest : List Char} (hcs : cs.all p = true)
    (hrest : ∀ c, rest.head? = some c → p c = false) :
    readWhile p (cs ++ rest) = ⟨cs, cs, rest⟩ := by
  have hall : ∀ c ∈ cs, p c = true := List.all_eq_true.mp hcs
  have htake : rest.takeWhile p = [] := by
    rcases rest with _ | ⟨c, rest⟩
    · rfl
    · rw [List.takeWhile_cons, hrest c rfl]
      rfl
  have hdrop : rest.dropWhile p = rest := by
    rcases rest with _ | ⟨c, rest⟩
    · rfl
    · rw [List.dropWhile_cons, hrest c rfl]
      rfl
  rw [readWhile, List.takeWhile_append_of_pos hall, List.dropWhile_append_of_pos hall, htake,
    hdrop, List.append_nil]

/-- Inside a tag a lexeme is read exactly where it is spelled. -/
theorem readInside_eq_iff {c : Char} (hc : isBlank c = false) {cs spelling rest : List Char}
    {l : Lexeme} :
    readInside c cs = ⟨l, spelling, rest⟩ ↔
      c :: cs = spelling ++ rest ∧ l.standsOutside = false ∧ l.Spelled spelling rest := by
  constructor
  · intro h
    have hinput := readInside_input c cs
    have hspelled := spelledInside_readInside hc cs
    rw [h] at hinput hspelled
    exact ⟨hinput.symm, hspelled⟩
  · rintro ⟨hcs, hinside, hspelled⟩
    cases l with
    | tagClose =>
      obtain rfl : spelling = ['}', '}'] := hspelled
      cases hcs
      rfl
    | identifier name =>
      obtain ⟨hspelling, hname, hrest⟩ := hspelled
      rcases spelling with _ | ⟨d, ds⟩
      · cases hname
      · cases hcs
        obtain ⟨hstart, hcontinue⟩ := Bool.and_eq_true_iff.mp hname
        show readInside c (ds ++ rest) = _
        rw [readInside_of_startsName hstart, readWhile_append hcontinue hrest]
        simp [Reading.map, Reading.cons, hspelling]
    | number digits =>
      obtain ⟨hspelling, hnumber, hrest⟩ := hspelled
      rcases spelling with _ | ⟨d, ds⟩
      · cases hnumber
      · cases hcs
        obtain ⟨hstart, hcontinue⟩ := Bool.and_eq_true_iff.mp hnumber
        show readInside c (ds ++ rest) = _
        rw [readInside_of_isDigit hstart, readWhile_append hcontinue hrest]
        simp [Reading.map, Reading.cons, hspelling]
    | string content =>
      obtain ⟨q, tail, hq, rfl, hend⟩ := hspelled
      cases hcs
      have hquoted : readQuoted c (tail ++ rest) = ⟨content.toList, tail, rest⟩ :=
        (readQuoted_eq_iff (by rcases hq with rfl | rfl <;> decide)).mpr ⟨rfl, hend⟩
      have hread : readInside c (tail ++ rest) =
          ((readQuoted c (tail ++ rest)).cons [] [c]).map
            fun content => .string (String.ofList content) := by
        rcases hq with rfl | rfl <;> rfl
      show readInside c (tail ++ rest) = _
      rw [hread, hquoted]
      simp [Reading.map, Reading.cons]
    | comparison op =>
      obtain ⟨rfl, hrest⟩ := hspelled
      cases op with
      | gt =>
        cases hcs
        exact readPair_of_head_ne (hrest (.inl rfl))
      | lt =>
        cases hcs
        exact readPair_of_head_ne (hrest (.inr rfl))
      | _ =>
        cases hcs
        rfl
    | assign =>
      obtain ⟨rfl, hrest⟩ := hspelled
      cases hcs
      exact readPair_of_head_ne hrest
    | unknown d =>
      obtain ⟨rfl, halone, hnot, hbrace⟩ := hspelled
      cases hcs
      exact readInside_of_standsAlone halone hnot hbrace
    | endOfInput => cases hspelled
    | _ => cases hinside

end Stencil
