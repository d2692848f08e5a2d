/-
Places where a source can go on.

What is cut off behind a token may leave a token that the next character would change: a name
takes in a letter, a `!` an `=`, and a quoted text without its quote all that follows.

* `Mode.Separates` — characters that no lexeme in front of them takes in: a blank inside a tag,
  and outside of tags the braces of the next one;
* `Lexeme.Spelled.of_separates` — a lexeme that something followed on can be followed by these;
* `Lexeme.Spelled.exists_sealed` — at the end of a source a text may have to be made longer for
  that, and a quoted text needs its quote;
* `Extensible` — pieces on which such characters can follow: those behind which the source goes
  on (`extensible_of_ne_nil`), and all pieces once the last of them is sealed
  (`exists_extensible`).
-/
import Mathlib
import Stencil.Proofs.Splice

namespace Stencil

open Text (byteLength)

/-- No class without blanks holds a blank. -/
theorem eq_false_of_isBlank {p : Char → Bool} {c : Char} (hc : isBlank c = true)
    (hp : [' ', '\t', '\r', '\n'].any p = false) : p c = false := by
  by_contra hclass
  rw [Bool.not_eq_false] at hclass
  have hblank := isBlank_eq_false_of_class hclass hp
  rw [hc] at hblank
  cases hblank

/-- A character that is no blank does not start what starts with a blank. -/
theorem head?_ne_of_isBlank {cs : List Char} {d : Char}
    (hcs : ∀ c, cs.head? = some c → isBlank c = true) (hd : isBlank d = false) :
    cs.head? ≠ some d := by
  intro h
  rw [hcs d h] at hd
  cases hd

/-- Whether nothing that stands in front of the characters can take them in: they are a blank
inside a tag, or another tag outside of it. -/
def Mode.Separates (mode : Mode) (rest : List Char) : Prop :=
  (mode = .tag → ∀ c, rest.head? = some c → isBlank c = true) ∧
    (mode = .text → rest = [] ∨ openBraces <+: rest)

/-! ### Sealed lexemes -/

namespace Lexeme

/-- Lexemes that differ at most in the text that they hold. -/
inductive SameShape : Lexeme → Lexeme → Prop
  | refl (l : Lexeme) : SameShape l l
  | text (content content' : String) : SameShape (.text content) (.text content')
  | string (content content' : String) : SameShape (.string content) (.string content')

variable {l : Lexeme} {spelling rest rest' : List Char}

/-- A lexeme may be followed by what it cannot take in.  A text or a quoted text that ends where
the source does may be unfinished. -/
theorem Spelled.of_separates (h : l.Spelled spelling rest)
    (hrest : l.kind = .text ∨ l.kind = .string → rest ≠ [])
    (hseparates : (l.modeAfter l.modeOf).Separates rest') : l.Spelled spelling rest' := by
  obtain ⟨hblank, htext⟩ := hseparates
  cases l with
  | text content =>
    obtain ⟨heq, hne, hclear, hnil | ⟨-, hlast⟩⟩ := h
    · exact absurd hnil (hrest (.inl rfl))
    · exact ⟨heq, hne, hclear, (htext rfl).imp id fun hopen => ⟨hopen, hlast⟩⟩
  | tagOpen =>
    exact ⟨h.1, head?_ne_of_isBlank (hblank rfl) rfl, head?_ne_of_isBlank (hblank rfl) rfl⟩
  | blockOpen => exact h
  | blockClose => exact h
  | tagClose => exact h
  | identifier name =>
    exact ⟨h.1, h.2.1, fun c hc => eq_false_of_isBlank (hblank rfl c hc) rfl⟩
  | number digits =>
    exact ⟨h.1, h.2.1, fun c hc => eq_false_of_isBlank (hblank rfl c hc) rfl⟩
  | string content =>
    obtain ⟨q, tail, hq, heq, body, hbody, hclosed | ⟨hnil, -⟩⟩ := h
    · exact ⟨q, tail, hq, heq, body, hbody, .inl hclosed⟩
    · exact absurd hnil (hrest (.inr rfl))
  | comparison op => exact ⟨h.1, fun _ => head?_ne_of_isBlank (hblank rfl) rfl⟩
  | assign => exact ⟨h.1, head?_ne_of_isBlank (hblank rfl) rfl⟩
  | unknown c =>
    exact ⟨h.1, h.2.1, fun _ => head?_ne_of_isBlank (hblank rfl) rfl,
      fun _ => head?_ne_of_isBlank (hblank rfl) rfl⟩
  | endOfInput => exact h

end Lexeme

/-- A backslash and the character behind it can be put behind a body. -/
theorem QuotedBody.concat_escape {q : Char} {body content : List Char}
    (h : QuotedBody q body content) (c : Char) :
    QuotedBody q (body ++ ['\\', c]) (content ++ [unescape c]) := by
  induction h with
  | nil => exact .escape .nil
  | plain hquote hbackslash _ ih => exact .plain hquote hbackslash ih
  | escape _ ih => exact .escape ih

namespace Lexeme

variable {l : Lexeme} {spelling : List Char}

/-- A text is ended by another character, so that its last one is no brace. -/
theorem spelled_text_concat {content : String} (h : (Lexeme.text content).Spelled spelling [])
    {rest : List Char} (hrest : rest = [] ∨ openBraces <+: rest) :
    (Lexeme.text (String.ofList (spelling ++ [' ']))).Spelled (spelling ++ [' ']) rest := by
  obtain ⟨-, -, hclear, -⟩ := h
  refine ⟨String.toList_ofList.symm, List.concat_ne_nil _ _, ?_, hrest.imp id fun hopen => ?_⟩
  · intro hinfix
    rcases List.infix_concat_iff.mp hinfix with hsuffix | hinfix
    · obtain ⟨front, hfront⟩ := hsuffix
      have hlast := congrArg List.getLast? hfront
      rw [openBraces, List.getLast?_append_of_ne_nil _ (by decide), List.getLast?_concat] at hlast
      cases hlast
    · exact hclear hinfix
  · refine ⟨hopen, ?_⟩
    rw [List.getLast?_concat]
    decide

/-- A quoted text is ended by its quote, behind a character for a lone backslash. -/
theorem exists_closed_string {content : String} (h : (Lexeme.string content).Spelled spelling []) :
    ∃ extra content', ∀ rest, (Lexeme.string content').Spelled (spelling ++ extra) rest := by
  obtain ⟨q, tail, hq, rfl, body, hbody, hend⟩ := h
  rcases hend with rfl | ⟨-, rfl | rfl⟩
  · refine ⟨[], content, fun rest => ⟨q, body ++ [q], hq, ?_, body, hbody, .inl rfl⟩⟩
    rw [List.append_nil]
  · exact ⟨[q], content, fun rest => ⟨q, tail ++ [q], hq, rfl, tail, hbody, .inl rfl⟩⟩
  · refine ⟨['\\', q], String.ofList (content.toList ++ ['\\']),
      fun rest => ⟨q, body ++ ['\\', '\\'] ++ [q], hq, by simp, body ++ ['\\', '\\'], ?_, .inl rfl⟩⟩
    rw [String.toList_ofList]
    exact hbody.concat_escape '\\'

/-- The last lexeme of a source can be sealed. -/
theorem Spelled.exists_sealed (h : l.Spelled spelling []) :
    ∃ extra l', l.SameShape l' ∧
      ∀ rest, (l'.modeAfter l'.modeOf).Separates rest → l'.Spelled (spelling ++ extra) rest := by
  by_cases htext : l.kind = .text
  · cases l <;> cases htext
    exact ⟨[' '], _, .text _ _, fun rest hrest => spelled_text_concat h (hrest.2 rfl)⟩
  by_cases hstring : l.kind = .string
  · cases l <;> cases hstring
    obtain ⟨extra, content', hclosed⟩ := exists_closed_string h
    exact ⟨extra, _, .string _ content', fun rest _ => hclosed rest⟩
  · refine ⟨[], l, .refl l, fun rest hrest => ?_⟩
    rw [List.append_nil]
    exact h.of_separates (fun hkind => (hkind.elim htext hstring).elim) hrest

/-- Lexemes of one shape are read in the same mode, and lead to the same mode. -/
theorem SameShape.modeOf {l' : Lexeme} (h : l.SameShape l') : l'.modeOf = l.modeOf := by
  cases h <;> rfl

end Lexeme

/-! ### Extensible pieces -/

/-- Whether a source can start with the pieces and go on with whatever separates. -/
def Extensible (front : List Piece) : Prop :=
  ∀ (ds : List Char) (more : List Piece) (trail : List Char),
    (Mode.text.behind (front.map Piece.lexeme)).Separates ds →
    Cut (Mode.text.behind (front.map Piece.lexeme)) (byteLength (Piece.join front)) ds more trail →
    Cut .text 0 (Piece.join front ++ ds) (front ++ more) trail

variable {cs trail : List Char} {front back : List Piece}

/-- A source can start with no piece. -/
theorem extensible_nil : Extensible [] := by
  intro ds more trail _ hmore
  exact hmore

/-- Extensible pieces make up a source by themselves. -/
theorem Extensible.cut (h : Extensible front) : Cut .text 0 (Piece.join front) front [] := by
  have hseparates : (Mode.text.behind (front.map Piece.lexeme)).Separates [] :=
    ⟨fun _ => nofun, fun _ => .inl rfl⟩
  have hwhole := h [] [] [] hseparates (.nil nofun fun _ => rfl)
  rwa [List.append_nil, List.append_nil] at hwhole

/-- More blanks can be put in front of pieces that stand inside a tag. -/
theorem Cut.exists_prepend {mode : Mode} {offset : Nat} {pieces : List Piece} {gap : List Char}
    (hgap : ∀ c ∈ gap, isBlank c = true) (hgaptext : mode = .text → gap = [])
    (h : Cut mode (offset + byteLength gap) cs pieces trail) :
    ∃ pieces' trail', Cut mode offset (gap ++ cs) pieces' trail' ∧
      pieces'.map Piece.lexeme = pieces.map Piece.lexeme := by
  cases h with
  | nil hblank htext =>
    refine ⟨[], gap ++ cs, .nil (List.forall_mem_append.mpr ⟨hgap, hblank⟩) ?_, rfl⟩
    intro hmode
    rw [hgaptext hmode, htext hmode, List.append_nil]
  | @cons _ _ gap' spelling rest _ l pieces hblank htext hmode hspelled hcut =>
    have hposition : offset + byteLength gap + byteLength gap' =
        offset + byteLength (gap ++ gap') := by
      rw [Text.byteLength_append, Nat.add_assoc]
    rw [hposition] at hcut
    refine ⟨⟨gap ++ gap', spelling, ⟨l, offset + byteLength (gap ++ gap')⟩⟩ :: pieces, trail, ?_,
      rfl⟩
    rw [← List.append_assoc]
    refine .cons (List.forall_mem_append.mpr ⟨hgap, hblank⟩) ?_ hmode hspelled hcut
    intro hmode
    rw [hgaptext hmode, htext hmode, List.append_nil]

/-- The mode behind pieces is that behind the last one. -/
theorem Cut.behind_eq {p : Piece} (h : Cut .text 0 cs (front ++ p :: back) trail) :
    Mode.text.behind ((front ++ [p]).map Piece.lexeme) = p.lexeme.modeAfter p.lexeme.modeOf := by
  obtain ⟨-, -, hmode, -, -⟩ := h.drop.head
  rw [List.map_append, List.map_singleton, behind_concat, hmode]

/-- Pieces behind which the source goes on are extensible. -/
theorem extensible_of_ne_nil (h : Cut .text 0 cs (front ++ back) trail)
    (hrest : Piece.join back ++ trail ≠ []) : Extensible front := by
  intro ds more trail' hseparates hmore
  refine h.splice ((Nat.zero_add _).symm ▸ hmore) ?_
  intro p hp
  obtain ⟨front, rfl⟩ := List.getLast?_eq_some_iff.mp hp
  rw [List.append_assoc, List.singleton_append] at h
  rw [h.behind_eq] at hseparates
  obtain ⟨-, -, -, hspelled, -⟩ := h.drop.head
  exact hspelled.of_separates (fun _ => hrest) hseparates

/-- The piece with more characters, which together spell `l`. -/
def Piece.lengthen (p : Piece) (extra : List Char) (l : Lexeme) : Piece :=
  ⟨p.gap, p.spelling ++ extra, ⟨l, p.token.position⟩⟩

/-- The pieces of a whole source are extensible once the last one is sealed. -/
theorem exists_extensible {p : Piece} (h : Cut .text 0 cs (front ++ [p]) []) :
    ∃ extra l', p.lexeme.SameShape l' ∧ Extensible (front ++ [p.lengthen extra l']) := by
  obtain ⟨hblank, htext, hmode, hspelled, hposition⟩ := h.drop.head
  obtain ⟨extra, l', hshape, hsealed⟩ := hspelled.exists_sealed
  refine ⟨extra, l', hshape, ?_⟩
  intro ds more trail' hseparates hmore
  have hbehind : Mode.text.behind ((front ++ [p.lengthen extra l']).map Piece.lexeme) =
      l'.modeAfter l'.modeOf := by
    rw [List.map_append, List.map_singleton, behind_concat, hshape.modeOf, hmode]
    rfl
  rw [hbehind] at hseparates hmore
  -- The sealed piece, and then the pieces in front of it.
  have hsealed : Cut (Mode.text.behind (front.map Piece.lexeme))
      (0 + byteLength (Piece.join front)) (p.gap ++ (p.spelling ++ extra ++ ds))
      (p.lengthen extra l' :: more) trail' := by
    rw [Piece.lengthen, hposition]
    refine .cons hblank htext (hshape.modeOf.trans hmode) (hsealed ds hseparates) ?_
    rw [Piece.join_concat, Text.byteLength_append, Text.byteLength_append] at hmore
    rwa [← hmode, ← hshape.modeOf, Nat.zero_add, Nat.add_assoc]
  have hwhole := h.splice hsealed fun q hq => by
    obtain ⟨others, rfl⟩ := List.getLast?_eq_some_iff.mp hq
    rw [List.append_assoc, List.singleton_append] at h
    rw [List.append_assoc]
    exact h.drop.spelled_of_next _
  rw [Piece.join_concat, List.append_assoc, List.append_assoc, List.append_assoc,
    List.singleton_append]
  exact hwhole

end Stencil
