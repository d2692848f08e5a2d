/-
Sources with given lexemes.

* `write ls` — characters for the lexemes `ls`, with a space in front of each one that stands
  inside a tag and with texts in double quotes;
* `exists_source_iff` — which lexemes a source can have: those that characters can spell at
  all, read in the modes where they belong, and with no text that another one follows or that
  would lend a `{` to the tag behind it.
-/
import Mathlib
import Stencil.Proofs.Partition

namespace Stencil

/-! ### Lexemes of a source -/

namespace Lexeme

/-- Whether some characters spell the lexeme. -/
def Valid : Lexeme → Prop
  | .text content => content.toList ≠ [] ∧ ¬openBraces <:+: content.toList
  | .identifier name => isName name.toList = true
  | .number digits => isNumber digits.toList = true
  | .unknown c => standsAlone c = true
  | .endOfInput => False
  | _ => True

/-- Whether a lexeme may follow on another one: on a text there is no text, and no tag if the
text ends with a `{`. -/
def Before (l m : Lexeme) : Prop :=
  ∀ content, l = .text content → m.kind ≠ .text ∧ content.toList.getLast? ≠ some '{'

theorem Spelled.valid {l : Lexeme} {spelling rest : List Char} (h : l.Spelled spelling rest) :
    l.Valid := by
  cases l with
  | text content => exact ⟨h.1 ▸ h.2.1, h.1 ▸ h.2.2.1⟩
  | identifier name =>
    obtain ⟨rfl, hname, -⟩ := h
    exact hname
  | number digits =>
    obtain ⟨rfl, hnumber, -⟩ := h
    exact hnumber
  | unknown c => exact h.2.1
  | endOfInput => cases h
  | _ => trivial

end Lexeme

/-- Whether each of the lexemes stands in the mode in which it is read, from `mode` on. -/
def Mode.Runs : Mode → List Lexeme → Prop
  | _, [] => True
  | mode, l :: ls => l.modeOf = mode ∧ (l.modeAfter mode).Runs ls

/-- Whether a source can have these lexemes behind a place in `mode`. -/
structure Writable (mode : Mode) (ls : List Lexeme) : Prop where
  valid : ∀ l ∈ ls, l.Valid
  runs : mode.Runs ls
  isChain : ls.IsChain Lexeme.Before

theorem Lexeme.before_of_kind_ne_text {l : Lexeme} (h : l.kind ≠ .text) (m : Lexeme) :
    l.Before m := by
  rintro content rfl
  exact absurd rfl h

theorem Writable.cons {mode : Mode} {l : Lexeme} {ls : List Lexeme} (hvalid : l.Valid)
    (hmode : l.modeOf = mode) (hnext : ∀ m ∈ ls.head?, l.Before m)
    (h : Writable (l.modeAfter mode) ls) : Writable mode (l :: ls) :=
  ⟨List.forall_mem_cons.mpr ⟨hvalid, h.valid⟩, ⟨hmode, h.runs⟩, h.isChain.cons hnext⟩

namespace Cut

variable {mode : Mode} {offset : Nat} {cs trail : List Char} {pieces : List Piece}

theorem valid (h : Cut mode offset cs pieces trail) :
    ∀ l ∈ pieces.map Piece.lexeme, l.Valid := by
  induction h with
  | nil => exact nofun
  | cons _ _ _ hspelled _ ih =>
    intro l hl
    rcases List.mem_cons.mp hl with rfl | hl
    · exact hspelled.valid
    · exact ih l hl

theorem runs (h : Cut mode offset cs pieces trail) : mode.Runs (pieces.map Piece.lexeme) := by
  induction h with
  | nil => trivial
  | cons _ _ hmode _ _ ih => exact ⟨hmode, ih⟩

theorem isChain (h : Cut mode offset cs pieces trail) :
    (pieces.map Piece.lexeme).IsChain Lexeme.Before := by
  induction h with
  | nil => exact .nil
  | @cons mode _ _ _ _ _ l pieces _ _ hmode hspelled hcut ih =>
    refine ih.cons ?_
    rintro m hm content rfl
    rcases pieces with _ | ⟨p, pieces⟩
    · cases hm
    · cases hm
      -- Behind a text nothing is skipped, so the next piece is spelled right where it ends.
      obtain ⟨-, htext, -, hspelled', -⟩ := hcut.head
      obtain rfl := hcut.eq_join
      rw [Piece.join_cons, htext hmode.symm, List.nil_append, List.append_assoc] at hspelled
      refine ⟨fun hkind => ?_, ?_⟩
      · generalize p.lexeme = m at hkind hspelled'
        cases m <;> cases hkind
        exact hspelled.not_text_text hspelled'
      · rcases hspelled.2.2.2 with hnil | ⟨-, hlast⟩
        · exact absurd (List.append_eq_nil_iff.mp hnil).1 hspelled'.ne_nil
        · exact hspelled.1 ▸ hlast

theorem writable (h : Cut mode offset cs pieces trail) :
    Writable mode (pieces.map Piece.lexeme) :=
  ⟨h.valid, h.runs, h.isChain⟩

end Cut

/-! ### Writing lexemes -/

/-- How a character stands between double quotes in a tag. -/
def quotedChar (c : Char) : List Char :=
  if c = '"' ∨ c = '\\' then ['\\', c] else [c]

theorem quotedBody_quotedChar (cs : List Char) :
    QuotedBody '"' (cs.flatMap quotedChar) cs :=
  quotedBody_protect rfl cs

namespace Lexeme

/-- Characters that spell the lexeme. -/
def spelling : Lexeme → List Char
  | .text content => content.toList
  | .tagOpen => openBraces
  | .blockOpen => openBraces ++ ['#']
  | .blockClose => openBraces ++ ['/']
  | .tagClose => ['}', '}']
  | .identifier name => name.toList
  | .number digits => digits.toList
  | .string content => '"' :: (content.toList.flatMap quotedChar ++ ['"'])
  | .comparison op => op.symbol.toList
  | .assign => ['=']
  | .unknown c => [c]
  | .endOfInput => []

/-- The space in front of a lexeme inside a tag. -/
def gap (l : Lexeme) : List Char :=
  if l.standsOutside then [] else [' ']

/-- The characters that are written for the lexeme. -/
def write (l : Lexeme) : List Char :=
  l.gap ++ l.spelling

/-- What is written for a lexeme spells it where something follows that it can precede: a space
behind a lexeme in a tag, an open tag behind a text. -/
theorem spelled_spelling {l : Lexeme} {rest : List Char} (hvalid : l.Valid)
    (htext : ∀ content, l = .text content →
      rest = [] ∨ openBraces <+: rest ∧ content.toList.getLast? ≠ some '{')
    (htag : l.modeAfter l.modeOf = .tag → ∀ c, rest.head? = some c → c = ' ') :
    l.Spelled l.spelling rest := by
  have hne : l.modeAfter l.modeOf = .tag → ∀ c, c ≠ ' ' → rest.head? ≠ some c :=
    fun h c hc hhead => hc (htag h c hhead)
  cases l with
  | text content => exact ⟨rfl, hvalid.1, hvalid.2, htext content rfl⟩
  | tagOpen => exact ⟨rfl, hne rfl '#' (by decide), hne rfl '/' (by decide)⟩
  | blockOpen => rfl
  | blockClose => rfl
  | tagClose => rfl
  | identifier name =>
    refine ⟨rfl, hvalid, fun c hc => ?_⟩
    obtain rfl := htag rfl c hc
    rfl
  | number digits =>
    refine ⟨rfl, hvalid, fun c hc => ?_⟩
    obtain rfl := htag rfl c hc
    rfl
  | string content => exact ⟨'"', _, .inl rfl, rfl, _, quotedBody_quotedChar _, .inl rfl⟩
  | comparison op => exact ⟨rfl, fun _ => hne rfl '=' (by decide)⟩
  | assign => exact ⟨rfl, hne rfl '=' (by decide)⟩
  | unknown c =>
    exact ⟨rfl, hvalid, fun _ => hne rfl '=' (by decide), fun _ => hne rfl '}' (by decide)⟩
  | endOfInput => cases hvalid

theorem gap_eq (l : Lexeme) : l.gap = if l.modeOf = .text then [] else [' '] := by
  rw [gap, modeOf]
  cases l.standsOutside <;> rfl

theorem gap_of_modeOf_text {l : Lexeme} (h : l.modeOf = .text) : l.gap = [] := by
  rw [gap_eq, if_pos h]

theorem gap_of_modeOf_tag {l : Lexeme} (h : l.modeOf = .tag) : l.gap = [' '] := by
  rw [gap_eq, h]
  rfl

/-- An opening of a tag is written with its braces. -/
theorem openBraces_prefix_write {l : Lexeme} (h : l.modeOf = .text) (htext : l.kind ≠ .text) :
    openBraces <+: l.write := by
  rw [write, gap_of_modeOf_text h]
  cases l with
  | text content => exact absurd rfl htext
  | tagOpen => exact ⟨[], rfl⟩
  | blockOpen => exact ⟨['#'], rfl⟩
  | blockClose => exact ⟨['/'], rfl⟩
  | _ => cases h

end Lexeme

/-- The characters that are written for lexemes. -/
def write (ls : List Lexeme) : List Char :=
  ls.flatMap Lexeme.write

theorem head_write {ls : List Lexeme} (h : Mode.tag.Runs ls) {c : Char}
    (hc : (write ls).head? = some c) : c = ' ' := by
  rcases ls with _ | ⟨l, ls⟩
  · cases hc
  · rw [write, List.flatMap_cons, Lexeme.write, Lexeme.gap_of_modeOf_tag h.1] at hc
    exact (Option.some.inj hc).symm

/-- What is written for lexemes is cut into them again. -/
theorem exists_cut_write {ls : List Lexeme} : ∀ {mode : Mode} (offset : Nat), Writable mode ls →
    ∃ pieces, Cut mode offset (write ls) pieces [] ∧ pieces.map Piece.lexeme = ls := by
  induction ls with
  | nil => exact fun _ _ => ⟨[], .nil nofun fun _ => rfl, rfl⟩
  | cons l ls ih =>
    intro mode offset h
    obtain ⟨hmode, hruns⟩ := h.runs
    obtain ⟨hnext, hchain⟩ := List.isChain_cons.mp h.isChain
    obtain ⟨hl, hls⟩ := List.forall_mem_cons.mp h.valid
    obtain ⟨pieces, hcut, hpieces⟩ :=
      ih (offset + Text.byteLength l.gap + Text.byteLength l.spelling) ⟨hls, hruns, hchain⟩
    refine ⟨⟨l.gap, l.spelling, ⟨l, offset + Text.byteLength l.gap⟩⟩ :: pieces, ?_, ?_⟩
    · rw [write, List.flatMap_cons, Lexeme.write, List.append_assoc]
      refine .cons ?_ ?_ hmode (Lexeme.spelled_spelling hl ?_ ?_) hcut
      · intro c hc
        rw [Lexeme.gap] at hc
        split at hc
        · cases hc
        · rw [List.mem_singleton.mp hc]
          rfl
      · rintro rfl
        exact Lexeme.gap_of_modeOf_text hmode
      · rintro content rfl
        -- Behind a text comes an open tag or nothing.
        rcases ls with _ | ⟨m, ls⟩
        · exact .inl rfl
        · obtain ⟨hm, hlast⟩ := hnext m rfl content rfl
          have hopen := Lexeme.openBraces_prefix_write (hruns.1.trans hmode.symm) hm
          exact .inr ⟨hopen.trans ⟨_, rfl⟩, hlast⟩
      -- What is read inside the tag has a space in front of it.
      · intro htag c hc
        rw [hmode] at htag
        exact head_write (htag ▸ hruns) hc
    · rw [List.map_cons, hpieces]
      rfl

namespace Scanner

/-- A source can have the lexemes that it has. -/
theorem writable_tokens (source : String) :
    Writable .text ((ofSource source).tokens.map Token.lexeme) := by
  obtain ⟨pieces, trail, hcut, htokens⟩ := (ofSource source).cut_tokens
  rw [← htokens, List.map_map]
  exact hcut.writable

/-- The lexemes of sources are those that can be written. -/
theorem exists_source_iff {ls : List Lexeme} :
    (∃ source, (ofSource source).tokens.map Token.lexeme = ls) ↔ Writable .text ls := by
  constructor
  · rintro ⟨source, rfl⟩
    exact writable_tokens source
  · intro h
    obtain ⟨pieces, hcut, rfl⟩ := exists_cut_write 0 h
    refine ⟨String.ofList (write (pieces.map Piece.lexeme)), ?_⟩
    rw [ofSource, String.toList_ofList, hcut.tokens_eq, List.map_map]
    rfl

end Scanner

end Stencil
