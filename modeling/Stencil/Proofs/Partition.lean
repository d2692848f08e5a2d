/-
How tokens cut a source into pieces.

A `Piece` is a token with the blanks in front of it and the characters that spell it.  The
tokens of a source, each in its piece, make up the whole source but for blanks at its end:

* `Cut` says so piece by piece, from the mode and the offset of a scanner on;
* `cut_tokens`, `Cut.tokens_eq` — a scanner finds these tokens, and no others;
* `exists_partition` — the same for a whole source, each piece seen in its place.
-/
import Mathlib
import Stencil.Proofs.Spelling

namespace Stencil

open Text (byteLength)

/-- A token in its place in a source. -/
structure Piece where
  /-- The blanks in front of the token. -/
  gap : List Char
  /-- The characters that spell the token. -/
  spelling : List Char
  token : Token

namespace Piece

/-- What the token of the piece is. -/
def lexeme (p : Piece) : Lexeme :=
  p.token.lexeme

/-- The characters of pieces, one after another. -/
def join (pieces : List Piece) : List Char :=
  pieces.flatMap fun p => p.gap ++ p.spelling

@[simp] theorem join_cons (p : Piece) (pieces : List Piece) :
    join (p :: pieces) = p.gap ++ (p.spelling ++ join pieces) := by
  simp [join]

theorem join_concat (pieces : List Piece) (p : Piece) :
    join (pieces ++ [p]) = join pieces ++ (p.gap ++ p.spelling) := by
  simp [join]

end Piece

/-! ### Modes -/

/-- The mode in which a lexeme is read. -/
def Lexeme.modeOf (l : Lexeme) : Mode :=
  if l.standsOutside then .text else .tag

/-- The mode behind lexemes that were read from `mode` on. -/
def Mode.behind (mode : Mode) (ls : List Lexeme) : Mode :=
  ls.foldl (fun mode l => l.modeAfter mode) mode

/-- Whether a lexeme opens a tag. -/
def Lexeme.opensTag (l : Lexeme) : Prop :=
  l = .tagOpen ∨ l = .blockOpen ∨ l = .blockClose

/-- Whether the place behind lexemes is inside a tag: one of them opens a tag, and none behind
it closes it. -/
def InTag (before : List Lexeme) : Prop :=
  ∃ as l bs, before = as ++ l :: bs ∧ l.opensTag ∧ .tagClose ∉ bs

theorem inTag_concat {before : List Lexeme} {l : Lexeme} :
    InTag (before ++ [l]) ↔ l.opensTag ∨ l ≠ .tagClose ∧ InTag before := by
  constructor
  · rintro ⟨as, l', bs, heq, hopens, hbs⟩
    rcases List.eq_nil_or_concat bs with rfl | ⟨bs, b, rfl⟩
    · obtain ⟨-, rfl⟩ := List.append_inj' heq rfl |>.imp id (List.cons.inj · |>.1)
      exact .inl hopens
    · rw [List.concat_eq_append] at heq hbs
      rw [← List.cons_append, ← List.append_assoc] at heq
      obtain ⟨rfl, hl⟩ := List.append_inj' heq rfl
      obtain rfl := (List.cons.inj hl).1
      simp only [List.mem_append, List.mem_singleton, not_or] at hbs
      exact .inr ⟨Ne.symm hbs.2, as, l', bs, rfl, hopens, hbs.1⟩
  · rintro (hopens | ⟨hl, as, l', bs, rfl, hopens, hbs⟩)
    · exact ⟨before, l, [], rfl, hopens, List.not_mem_nil⟩
    · refine ⟨as, l', bs ++ [l], by simp, hopens, ?_⟩
      simp only [List.mem_append, List.mem_singleton, not_or]
      exact ⟨hbs, Ne.symm hl⟩

theorem behind_concat (mode : Mode) (before : List Lexeme) (l : Lexeme) :
    mode.behind (before ++ [l]) = l.modeAfter (mode.behind before) := by
  simp [Mode.behind]

/-- From the start of a source on, the mode is that of a tag exactly inside tags. -/
theorem behind_eq_tag_iff (before : List Lexeme) :
    Mode.text.behind before = .tag ↔ InTag before := by
  induction before using List.reverseRecOn with
  | nil =>
    refine ⟨nofun, ?_⟩
    rintro ⟨as, l, bs, heq, -⟩
    simp at heq
  | append_singleton before l ih =>
    rw [behind_concat, inTag_concat, ← ih]
    cases l <;> simp [Lexeme.modeAfter, Lexeme.opensTag]

/-- Outside of tags there are no blanks to skip, so where some were the place is in a tag. -/
theorem inTag_of_ne_nil {before : List Lexeme} {blanks : List Char}
    (htext : Mode.text.behind before = .text → blanks = []) (hblanks : blanks ≠ []) :
    InTag before := by
  rw [← behind_eq_tag_iff]
  cases hbehind : Mode.text.behind before with
  | text => exact absurd (htext hbehind) hblanks
  | tag => rfl

/-! ### Cuts -/

/-- Pieces, and then blanks, make up the characters from a place on.  Outside of tags there are
no blanks to skip. -/
inductive Cut : Mode → Nat → List Char → List Piece → List Char → Prop
  | nil {mode : Mode} {offset : Nat} {trail : List Char} :
      (∀ c ∈ trail, isBlank c = true) → (mode = .text → trail = []) →
      Cut mode offset trail [] trail
  | cons {mode : Mode} {offset : Nat} {gap spelling rest trail : List Char} {l : Lexeme}
      {pieces : List Piece} :
      (∀ c ∈ gap, isBlank c = true) → (mode = .text → gap = []) → l.modeOf = mode →
      l.Spelled spelling rest →
      Cut (l.modeAfter mode) (offset + byteLength gap + byteLength spelling) rest pieces trail →
      Cut mode offset (gap ++ (spelling ++ rest))
        (⟨gap, spelling, ⟨l, offset + byteLength gap⟩⟩ :: pieces) trail

theorem Lexeme.Spelled.ne_nil {l : Lexeme} {spelling rest : List Char}
    (h : l.Spelled spelling rest) : spelling ≠ [] := by
  cases l with
  | text content => exact h.2.1
  | tagOpen => exact h.1 ▸ List.cons_ne_nil _ _
  | blockOpen => exact h ▸ List.cons_ne_nil _ _
  | blockClose => exact h ▸ List.cons_ne_nil _ _
  | tagClose => exact h ▸ List.cons_ne_nil _ _
  | identifier name =>
    rintro rfl
    cases h.2.1
  | number digits =>
    rintro rfl
    cases h.2.1
  | string content =>
    obtain ⟨q, tail, -, rfl, -⟩ := h
    exact List.cons_ne_nil _ _
  | comparison op =>
    rw [h.1]
    cases op <;> exact List.cons_ne_nil _ _
  | assign => exact h.1 ▸ List.cons_ne_nil _ _
  | unknown c => exact h.1 ▸ List.cons_ne_nil _ _
  | endOfInput => cases h

/-- No character of a class without blanks is a blank. -/
theorem isBlank_eq_false_of_class {p : Char → Bool} {c : Char} (hc : p c = true)
    (hp : [' ', '\t', '\r', '\n'].any p = false) : isBlank c = false := by
  have hne : ∀ d ∈ [' ', '\t', '\r', '\n'], c ≠ d :=
    fun d hd => ne_of_class hc (eq_false_of_ne_true (List.any_eq_false.mp hp d hd))
  simp only [List.forall_mem_cons] at hne
  obtain ⟨hspace, htab, hreturn, hnewline, -⟩ := hne
  simp [isBlank, hspace, htab, hreturn, hnewline]

theorem isBlank_eq_false_of_startsName {c : Char} (hc : startsName c = true) :
    isBlank c = false :=
  isBlank_eq_false_of_class hc rfl

theorem isBlank_eq_false_of_isDigit {c : Char} (hc : c.isDigit = true) : isBlank c = false :=
  isBlank_eq_false_of_class hc rfl

/-- Inside a tag no lexeme starts with a blank. -/
theorem Lexeme.Spelled.head_not_blank {l : Lexeme} {c : Char} {cs rest : List Char}
    (h : l.Spelled (c :: cs) rest) (hl : l.standsOutside = false) : isBlank c = false := by
  cases l with
  | tagClose =>
    cases h
    rfl
  | identifier name => exact isBlank_eq_false_of_startsName (Bool.and_eq_true_iff.mp h.2.1).1
  | number digits => exact isBlank_eq_false_of_isDigit (Bool.and_eq_true_iff.mp h.2.1).1
  | string content =>
    obtain ⟨q, tail, hq, heq, -⟩ := h
    obtain rfl := (List.cons.inj heq).1
    rcases hq with rfl | rfl <;> rfl
  | comparison op =>
    obtain ⟨heq, -⟩ := h
    cases op <;> cases heq <;> rfl
  | assign =>
    cases h.1
    rfl
  | unknown d =>
    obtain ⟨heq, halone, -⟩ := h
    obtain rfl := (List.cons.inj heq).1
    simp only [standsAlone, Bool.and_eq_true, Bool.not_eq_true'] at halone
    exact halone.1.1.1
  | endOfInput => cases h
  | _ => cases hl

theorem Lexeme.Spelled.head_not_blank_of_modeOf {l : Lexeme} {mode : Mode} {c : Char}
    {cs rest : List Char} (h : l.Spelled (c :: cs) rest) (hmode : l.modeOf = mode)
    (htag : mode = .tag) : isBlank c = false := by
  refine h.head_not_blank ?_
  rw [htag, Lexeme.modeOf] at hmode
  cases hl : l.standsOutside
  · rfl
  · rw [hl] at hmode
    cases hmode

namespace Scanner

theorem isBlank_of_mem_gap (s : Scanner) : ∀ c ∈ s.gap, isBlank c = true := by
  intro c hc
  rw [gap] at hc
  split at hc
  next => cases hc
  next => exact List.mem_takeWhile_imp hc

theorem gap_eq_nil {s : Scanner} (h : s.mode = .text) : s.gap = [] := by
  rw [gap, h]

theorem isBlank_body {s : Scanner} (h : s.mode = .tag) {c : Char} {cs : List Char}
    (hbody : s.body = c :: cs) : isBlank c = false := by
  rw [body, h] at hbody
  exact head?_dropWhile_eq_false isBlank s.rest c (congrArg List.head? hbody)

/-- Behind the gap a lexeme is read exactly where it is spelled. -/
theorem read_eq_iff {s : Scanner} {c : Char} {cs spelling rest : List Char} {l : Lexeme}
    (hc : s.mode = .tag → isBlank c = false) :
    s.read c cs = ⟨l, spelling, rest⟩ ↔
      c :: cs = spelling ++ rest ∧ l.modeOf = s.mode ∧ l.Spelled spelling rest := by
  rw [read, Lexeme.modeOf]
  split
  next hmode =>
    rw [readOutside_eq_iff, hmode]
    cases l.standsOutside <;> simp
  next hmode =>
    rw [readInside_eq_iff (hc hmode), hmode]
    cases l.standsOutside <;> simp

/-- Where only the gap is left the next token is the end of the input. -/
theorem next_of_body_nil {s : Scanner} (h : s.body = []) :
    s.next = (⟨.endOfInput, s.start⟩, ⟨[], s.start, s.mode⟩) := by
  rw [next, h]

/-- Behind the gap the next token is the lexeme that is spelled there. -/
theorem next_eq {s : Scanner} {spelling rest : List Char} {l : Lexeme}
    (hbody : s.body = spelling ++ rest) (hmode : l.modeOf = s.mode)
    (h : l.Spelled spelling rest) :
    s.next = (⟨l, s.start⟩, ⟨rest, s.start + byteLength spelling, l.modeAfter s.mode⟩) := by
  rcases spelling with _ | ⟨c, cs⟩
  · exact absurd rfl h.ne_nil
  · have hread : s.read c (cs ++ rest) = ⟨l, c :: cs, rest⟩ :=
      (read_eq_iff (h.head_not_blank_of_modeOf hmode)).mpr ⟨rfl, hmode, h⟩
    rw [next, hbody, List.cons_append]
    simp only [hread]

/-- What is next in a source: nothing behind the gap, or a lexeme that is spelled there. -/
theorem body_cases (s : Scanner) :
    s.body = [] ∨ ∃ (l : Lexeme) (spelling rest : List Char),
      s.body = spelling ++ rest ∧ l.modeOf = s.mode ∧ l.Spelled spelling rest := by
  rcases hbody : s.body with _ | ⟨c, cs⟩
  · exact .inl rfl
  · obtain ⟨hcs, hmode, hspelled⟩ :=
      (read_eq_iff fun htag => isBlank_body htag hbody).mp (rfl : s.read c cs = ⟨_, _, _⟩)
    exact .inr ⟨_, _, _, hcs, hmode, hspelled⟩

/-- The end of the input is next only where nothing is left behind the gap: a lexeme that is
spelled there is another one. -/
theorem body_eq_nil {s : Scanner} (h : s.next.1.lexeme = .endOfInput) : s.body = [] := by
  rcases s.body_cases with hbody | ⟨l, spelling, rest, hbody, hmode, hspelled⟩
  · exact hbody
  · rw [next_eq hbody hmode hspelled] at h
    obtain rfl : l = .endOfInput := h
    cases hspelled

/-- Scanning cuts what is left of a source into pieces. -/
theorem cut_tokens (s : Scanner) :
    ∃ pieces trail, Cut s.mode s.offset s.rest pieces trail ∧
      pieces.map Piece.token = s.tokens := by
  fun_induction tokens s with
  | case1 s step hend =>
    refine ⟨[], s.gap, ?_, rfl⟩
    rw [← s.gap_append_body, body_eq_nil hend, List.append_nil]
    exact .nil s.isBlank_of_mem_gap gap_eq_nil
  | case2 s step hend ih =>
    rcases s.body_cases with hbody | ⟨l, spelling, rest, hbody, hmode, hspelled⟩
    · simp [step, next_of_body_nil hbody] at hend
    · obtain ⟨pieces, trail, hcut, htokens⟩ := ih
      simp only [step, next_eq hbody hmode hspelled] at hcut htokens ⊢
      refine ⟨⟨s.gap, spelling, ⟨l, s.start⟩⟩ :: pieces, trail, ?_, ?_⟩
      · rw [← s.gap_append_body, hbody]
        exact .cons s.isBlank_of_mem_gap gap_eq_nil hmode hspelled hcut
      · rw [List.map_cons, htokens]

/-- Taking one token more than there are before the end of the input finds the end itself. -/
theorem take_length_tokens_succ (s : Scanner) :
    (s.take (s.tokens.length + 1)).1 = s.tokens ++ [⟨.endOfInput, s.endPosition⟩] := by
  fun_induction tokens s with
  | case1 s step hend =>
    have hbody := body_eq_nil hend
    have hgap := congrArg byteLength s.gap_append_body
    rw [hbody, List.append_nil] at hgap
    simp [take, next_of_body_nil hbody, start, endPosition, hgap]
  | case2 s step hend ih =>
    rw [List.length_cons, take]
    simp only [ih, step, endPosition_next, List.cons_append]

end Scanner

/-- Characters make up the pieces of their cut. -/
theorem Cut.eq_join {mode : Mode} {offset : Nat} {cs : List Char} {pieces : List Piece}
    {trail : List Char} (h : Cut mode offset cs pieces trail) :
    cs = Piece.join pieces ++ trail := by
  induction h with
  | nil => rfl
  | cons _ _ _ _ _ ih => simp [ih]

/-- The next token is that of the first piece. -/
theorem Cut.next_eq {mode : Mode} {offset : Nat} {cs : List Char} {p : Piece}
    {pieces : List Piece} {trail : List Char} (h : Cut mode offset cs (p :: pieces) trail) :
    (Scanner.mk cs offset mode).next =
      (p.token, ⟨Piece.join pieces ++ trail, p.token.position + byteLength p.spelling,
        p.lexeme.modeAfter mode⟩) := by
  cases h with
  | @cons _ _ gap spelling rest _ l _ hblank htext hmode hspelled hcut =>
    obtain rfl := hcut.eq_join
    generalize Piece.join pieces ++ trail = rest at hspelled
    have hsplit : (Scanner.mk (gap ++ (spelling ++ rest)) offset mode).gap = gap ∧
        (Scanner.mk (gap ++ (spelling ++ rest)) offset mode).body = spelling ++ rest := by
      cases mode with
      | text => simp [Scanner.gap, Scanner.body, htext rfl]
      | tag =>
        rcases spelling with _ | ⟨c, spelling⟩
        · exact absurd rfl hspelled.ne_nil
        · have hc := hspelled.head_not_blank_of_modeOf hmode rfl
          simp only [Scanner.gap, Scanner.body, List.takeWhile_append_of_pos hblank,
            List.dropWhile_append_of_pos hblank]
          simp [hc]
    obtain ⟨hgap, hbody⟩ := hsplit
    rw [Scanner.next_eq hbody hmode hspelled, Scanner.start, hgap]
    rfl

/-- A scanner finds the pieces of a cut: there is no other way to cut. -/
theorem Cut.tokens_eq {mode : Mode} {offset : Nat} {cs : List Char} {pieces : List Piece}
    {trail : List Char} (h : Cut mode offset cs pieces trail) :
    (Scanner.mk cs offset mode).tokens = pieces.map Piece.token := by
  induction h with
  | @nil mode offset trail hblank htext =>
    have hbody : (Scanner.mk trail offset mode).body = [] := by
      cases mode with
      | text => exact htext rfl
      | tag => exact List.dropWhile_eq_nil_iff.mpr hblank
    rw [Scanner.tokens_eq, Scanner.next_of_body_nil hbody]
    rfl
  | @cons mode offset gap spelling rest trail l pieces hblank htext hmode hspelled hcut ih =>
    have hnext := (Cut.cons hblank htext hmode hspelled hcut).next_eq
    rw [← hcut.eq_join] at hnext
    rw [Scanner.tokens_eq, hnext, if_neg]
    · exact congrArg _ ih
    · show l ≠ .endOfInput
      rintro rfl
      cases hspelled

/-! ### Pieces in their place -/

/-- What is left of a cut behind some of its pieces. -/
theorem Cut.drop : ∀ {mode : Mode} {offset : Nat} {cs : List Char} {before after : List Piece}
    {trail : List Char}, Cut mode offset cs (before ++ after) trail →
    Cut (mode.behind (before.map Piece.lexeme)) (offset + byteLength (Piece.join before))
      (Piece.join after ++ trail) after trail := by
  intro mode offset cs before
  induction before generalizing mode offset cs with
  | nil =>
    intro after trail h
    obtain rfl := h.eq_join
    exact h
  | cons p before ih =>
    intro after trail h
    cases h with
    | cons _ _ _ _ hcut =>
      have h' := ih hcut
      simp only [Piece.join_cons, Text.byteLength_append, ← Nat.add_assoc]
      exact h'

theorem Cut.head {mode : Mode} {offset : Nat} {cs : List Char} {p : Piece}
    {pieces : List Piece} {trail : List Char} (h : Cut mode offset cs (p :: pieces) trail) :
    (∀ c ∈ p.gap, isBlank c = true) ∧ (mode = .text → p.gap = []) ∧ p.lexeme.modeOf = mode ∧
      p.lexeme.Spelled p.spelling (Piece.join pieces ++ trail) ∧
      p.token.position = offset + byteLength p.gap := by
  cases h with
  | cons hblank htext hmode hspelled hcut =>
    obtain rfl := hcut.eq_join
    exact ⟨hblank, htext, hmode, hspelled, rfl⟩

theorem Cut.trail {mode : Mode} {offset : Nat} {cs : List Char} {pieces : List Piece}
    {trail : List Char} (h : Cut mode offset cs pieces trail) :
    (∀ c ∈ trail, isBlank c = true) ∧
      (mode.behind (pieces.map Piece.lexeme) = .text → trail = []) := by
  have hdrop : Cut _ _ _ [] trail := (List.append_nil pieces ▸ h : Cut _ _ _ (pieces ++ []) _).drop
  -- The indices of `hdrop` are no variables yet, which `cases` needs.
  generalize mode.behind (pieces.map Piece.lexeme) = mode' at hdrop
  generalize Piece.join [] ++ trail = cs' at hdrop
  cases hdrop with
  | nil hblank htext => exact ⟨hblank, htext⟩

/-- A character that, in front of a name or a number, would belong to it. -/
def Lexeme.joins : Lexeme → Char → Bool
  | .identifier _, c => startsName c
  | .number _, c => c.isDigit
  | _, _ => false

/-- A piece in its place: `before` are the pieces in front of it, and `rest` is what follows. -/
structure Piece.Placed (before : List Piece) (p : Piece) (rest : List Char) : Prop where
  gap_blank : ∀ c ∈ p.gap, isBlank c = true
  gap_inTag : p.gap ≠ [] → InTag (before.map lexeme)
  spelling_ne_nil : p.spelling ≠ []
  position : p.token.position = byteLength (join before ++ p.gap)
  spelling_eq_value : ∀ value, p.lexeme.value? = some value → p.lexeme.kind ≠ .string →
    p.spelling = value.toList
  spelled : p.lexeme.Spelled p.spelling rest
  not_joins : ∀ c, (join before ++ p.gap).getLast? = some c → p.lexeme.joins c = false
  standsOutside_iff : p.lexeme.standsOutside = true ↔ ¬InTag (before.map lexeme)

/-- The pieces of a whole source, and the blanks behind the last one. -/
structure Partition (source : List Char) (pieces : List Piece) (trail : List Char) : Prop where
  source_eq : source = Piece.join pieces ++ trail
  trail_blank : ∀ c ∈ trail, isBlank c = true
  trail_inTag : trail ≠ [] → InTag (pieces.map Piece.lexeme)
  placed : ∀ {before after : List Piece} {p : Piece}, pieces = before ++ p :: after →
    p.Placed before (Piece.join after ++ trail)
  texts_apart : ∀ {before after : List Piece} {p q : Piece}, pieces = before ++ p :: q :: after →
    p.lexeme.kind = .text → q.lexeme.kind ≠ .text

theorem Lexeme.Spelled.eq_value {l : Lexeme} {spelling rest : List Char}
    (h : l.Spelled spelling rest) {value : String} (hvalue : l.value? = some value)
    (hkind : l.kind ≠ .string) : spelling = value.toList := by
  cases l <;> cases hvalue
  case text => exact h.1
  case identifier => exact h.1
  case number => exact h.1
  case string => exact absurd rfl hkind
  case comparison => exact h.1
  case assign => exact h.1
  case unknown => exact h.1.trans (String.toList_singleton _).symm

/-- Behind a text comes no text. -/
theorem Lexeme.Spelled.not_text_text {content content' : String}
    {spelling spelling' rest : List Char}
    (h : (Lexeme.text content).Spelled spelling (spelling' ++ rest))
    (h' : (Lexeme.text content').Spelled spelling' rest) : False := by
  obtain ⟨-, hne, hclear, hend'⟩ := h'
  rcases h.2.2.2 with hnil | ⟨hopen, -⟩
  · exact hne (List.append_eq_nil_iff.mp hnil).1
  -- The second text would start with `{{`, or be a lone `{` in front of another one.
  · rcases spelling' with _ | ⟨c, _ | ⟨d, cs⟩⟩
    · exact hne rfl
    · obtain ⟨rfl, hrest⟩ : '{' = c ∧ ['{'] <+: rest := List.cons_prefix_cons.mp hopen
      rcases hend' with rfl | ⟨-, hlast⟩
      · simp at hrest
      · exact hlast rfl
    · obtain ⟨rfl, hrest⟩ : '{' = c ∧ ['{'] <+: d :: (cs ++ rest) := List.cons_prefix_cons.mp hopen
      obtain ⟨rfl, -⟩ := List.cons_prefix_cons.mp hrest
      exact hclear ⟨[], cs, rfl⟩

theorem Lexeme.head_of_joins {l : Lexeme} {c : Char} {spelling rest : List Char}
    (hc : l.joins c = true) (h : l.Spelled spelling rest) :
    ∃ d, spelling.head? = some d ∧
      (startsName c = true ∧ startsName d = true ∨ c.isDigit = true ∧ d.isDigit = true) := by
  rcases spelling with _ | ⟨d, ds⟩
  · exact absurd rfl h.ne_nil
  · refine ⟨d, rfl, ?_⟩
    cases l with
    | identifier name => exact .inl ⟨hc, (Bool.and_eq_true_iff.mp h.2.1).1⟩
    | number digits => exact .inr ⟨hc, (Bool.and_eq_true_iff.mp h.2.1).1⟩
    | _ => cases hc

theorem continuesName_of_startsName {c : Char} (hc : startsName c = true) :
    continuesName c = true := by
  have halphanum : c.isAlphanum = (c.isAlpha || c.isDigit) := rfl
  rw [continuesName, halphanum, Bool.or_eq_true, Bool.or_eq_true]
  exact (Bool.or_eq_true_iff.mp hc).imp .inl id

theorem continuesName_of_isDigit {c : Char} (hc : c.isDigit = true) : continuesName c = true := by
  have halphanum : c.isAlphanum = (c.isAlpha || c.isDigit) := rfl
  rw [continuesName, halphanum, hc, Bool.or_true, Bool.true_or]

theorem isDigit_of_mem {cs : List Char} (h : isNumber cs = true) {c : Char} (hc : c ∈ cs) :
    c.isDigit = true := by
  rcases cs with _ | ⟨d, ds⟩
  · cases hc
  · obtain ⟨hd, hds⟩ := Bool.and_eq_true_iff.mp h
    rcases List.mem_cons.mp hc with rfl | hc
    · exact hd
    · exact List.all_eq_true.mp hds c hc

/-- A quoted text that something follows ends with its quote. -/
theorem QuotedEnd.getLast? {q : Char} {content spelling rest : List Char}
    (h : QuotedEnd q content spelling rest) (hrest : rest ≠ []) : spelling.getLast? = some q := by
  obtain ⟨body, -, rfl | ⟨hnil, -⟩⟩ := h
  · exact List.getLast?_concat
  · exact absurd hnil hrest

/-- A lexeme other than a text, a name and a number ends with no character of a name or a
number. -/
theorem Lexeme.Spelled.last_of_no_run {l : Lexeme} {spelling rest : List Char}
    (h : l.Spelled spelling rest) (hrest : rest ≠ []) (htext : l.kind ≠ .text)
    (hname : l.kind ≠ .identifier) (hnumber : l.kind ≠ .number) {c : Char}
    (hc : spelling.getLast? = some c) : startsName c = false ∧ c.isDigit = false := by
  cases l with
  | text content => exact absurd rfl htext
  | identifier name => exact absurd rfl hname
  | number digits => exact absurd rfl hnumber
  | tagOpen =>
    rw [h.1] at hc
    cases hc
    exact ⟨rfl, rfl⟩
  | blockOpen =>
    obtain rfl : spelling = _ := h
    cases hc
    exact ⟨rfl, rfl⟩
  | blockClose =>
    obtain rfl : spelling = _ := h
    cases hc
    exact ⟨rfl, rfl⟩
  | tagClose =>
    obtain rfl : spelling = _ := h
    cases hc
    exact ⟨rfl, rfl⟩
  | string content =>
    obtain ⟨q, tail, hq, rfl, hend⟩ := h
    have hlast := hend.getLast? hrest
    obtain ⟨body, rfl⟩ := List.getLast?_eq_some_iff.mp hlast
    rw [← List.cons_append, List.getLast?_concat] at hc
    cases hc
    rcases hq with rfl | rfl <;> exact ⟨rfl, rfl⟩
  | comparison op =>
    rw [h.1] at hc
    cases op <;> cases hc <;> exact ⟨rfl, rfl⟩
  | assign =>
    rw [h.1] at hc
    cases hc
    exact ⟨rfl, rfl⟩
  | unknown d =>
    obtain ⟨rfl, halone, -⟩ := h
    cases hc
    simp only [standsAlone, Bool.and_eq_true, Bool.not_eq_true'] at halone
    exact ⟨halone.1.1.2, halone.1.2⟩
  | endOfInput => cases h

/-- A name or a number is not spelled right behind a character that would belong to it. -/
theorem Lexeme.Spelled.last_not_joins {l m : Lexeme} {spelling spelling' rest : List Char}
    (h : l.Spelled spelling (spelling' ++ rest)) (h' : m.Spelled spelling' rest) {c : Char}
    (hc : spelling.getLast? = some c) : m.joins c = false := by
  by_contra hjoins
  rw [Bool.not_eq_false] at hjoins
  obtain ⟨d, hhead, hclass⟩ := head_of_joins hjoins h'
  obtain ⟨ds, rfl⟩ := List.head?_eq_some_iff.mp hhead
  -- Only behind a text, a name or a number does it matter what `rest` starts with.
  by_cases htext : l.kind = .text
  · cases l <;> cases htext
    obtain ⟨-, -, -, hnil | ⟨hopen, -⟩⟩ := h
    · cases hnil
    · obtain ⟨rfl, -⟩ : '{' = d ∧ ['{'] <+: ds ++ rest := List.cons_prefix_cons.mp hopen
      rcases hclass with ⟨-, hd⟩ | ⟨-, hd⟩ <;> cases hd
  by_cases hname : l.kind = .identifier
  · cases l <;> cases hname
    have hd : continuesName d = true :=
      hclass.elim (continuesName_of_startsName ·.2) (continuesName_of_isDigit ·.2)
    rw [h.2.2 d rfl] at hd
    cases hd
  by_cases hnumber : l.kind = .number
  · cases l <;> cases hnumber
    rcases hclass with ⟨hc', -⟩ | ⟨-, hd⟩
    · have hdigit := isDigit_of_mem h.2.1 (List.mem_of_getLast? hc)
      rw [startsName_eq_false_of_isDigit hdigit] at hc'
      cases hc'
    · rw [h.2.2 d rfl] at hd
      cases hd
  · obtain ⟨hc', hdigit⟩ := h.last_of_no_run (List.cons_ne_nil _ _) htext hname hnumber hc
    rw [hc', hdigit] at hclass
    simp at hclass

theorem Lexeme.joins_of_isBlank {c : Char} (hc : isBlank c = true) (l : Lexeme) :
    l.joins c = false := by
  by_contra hjoins
  rw [Bool.not_eq_false] at hjoins
  cases l with
  | identifier name => simp [isBlank_eq_false_of_startsName hjoins] at hc
  | number digits => simp [isBlank_eq_false_of_isDigit hjoins] at hc
  | _ => cases hjoins

/-- In a cut of a whole source every piece is in its place. -/
theorem Cut.placed {source : List Char} {before after : List Piece} {p : Piece}
    {trail : List Char} (h : Cut .text 0 source (before ++ p :: after) trail) :
    p.Placed before (Piece.join after ++ trail) := by
  obtain ⟨hblank, htext, hmode, hspelled, hposition⟩ := h.drop.head
  refine ⟨hblank, inTag_of_ne_nil htext, hspelled.ne_nil, ?_, fun _ => hspelled.eq_value,
    hspelled, ?_, ?_⟩
  · rw [hposition, Nat.zero_add, Text.byteLength_append]
  · intro c hc
    -- The last character before the piece is a blank of its gap or belongs to the piece before.
    by_cases hgap : p.gap = []
    · rw [hgap, List.append_nil] at hc
      rcases List.eq_nil_or_concat before with rfl | ⟨others, q, rfl⟩
      · cases hc
      · rw [List.concat_eq_append] at h hc
        rw [List.append_assoc, List.singleton_append] at h
        obtain ⟨-, -, -, hq, -⟩ := h.drop.head
        rw [Piece.join_concat, ← List.append_assoc,
          List.getLast?_append_of_ne_nil _ hq.ne_nil] at hc
        rw [Piece.join_cons, hgap, List.nil_append, List.append_assoc] at hq
        exact hq.last_not_joins hspelled hc
    · rw [List.getLast?_append_of_ne_nil _ hgap] at hc
      exact p.lexeme.joins_of_isBlank (hblank c (List.mem_of_getLast? hc))
  · rw [← behind_eq_tag_iff, ← hmode, Lexeme.modeOf]
    cases p.lexeme.standsOutside <;> simp

/-- A cut of a whole source partitions it. -/
theorem Cut.partition {source : List Char} {pieces : List Piece} {trail : List Char}
    (h : Cut .text 0 source pieces trail) : Partition source pieces trail where
  source_eq := h.eq_join
  trail_blank := h.trail.1
  trail_inTag := inTag_of_ne_nil h.trail.2
  placed := by
    rintro before after p rfl
    exact h.placed
  texts_apart := by
    rintro before after p q rfl hp hq
    obtain ⟨-, -, hmode, hspelled, -⟩ := h.drop.head
    have h' : Cut .text 0 source ((before ++ [p]) ++ q :: after) trail := by
      rwa [List.append_assoc]
    obtain ⟨-, htext, -, hspelled', -⟩ := h'.drop.head
    rw [List.map_append, List.map_singleton, behind_concat, ← hmode] at htext
    rw [Piece.join_cons] at hspelled
    generalize p.lexeme = l, q.lexeme = m at *
    cases l <;> cases hp
    cases m <;> cases hq
    rw [htext rfl, List.nil_append, List.append_assoc] at hspelled
    exact hspelled.not_text_text hspelled'

/-- Taking tokens off a source until the end of the input takes it to pieces: the tokens with
the blanks before them make up the source, each one is what its characters spell there, and the
end of the input lies where the source ends. -/
theorem Scanner.exists_partition (source : String) :
    ∃ pieces trail, Partition source.toList pieces trail ∧
      ((Scanner.ofSource source).take (pieces.length + 1)).1 =
        pieces.map Piece.token ++ [⟨.endOfInput, byteLength source.toList⟩] ∧
      ∀ p ∈ pieces, p.lexeme ≠ .endOfInput := by
  obtain ⟨pieces, trail, hcut, htokens⟩ := (Scanner.ofSource source).cut_tokens
  have hpartition := hcut.partition
  refine ⟨pieces, trail, hpartition, ?_, ?_⟩
  · have htake := (Scanner.ofSource source).take_length_tokens_succ
    rw [← htokens, List.length_map] at htake
    rw [htake, Scanner.endPosition]
    simp [Scanner.ofSource]
  · rintro p hp hend
    obtain ⟨before, after, rfl⟩ := List.append_of_mem hp
    have hspelled := (hpartition.placed rfl).spelled
    rw [hend] at hspelled
    cases hspelled

end Stencil
