/-
Sources that go on in another way.

What stands behind a token matters only for where the token ends.

* `Lexeme.Spelled.congr_rest` — one character behind a lexeme decides, and for a text the two
  braces;
* `Cut.splice` — so the pieces in front of a place stay what they are when other characters
  follow there, if the last of them does;
* `Cut.tokensBefore`, `Cut.offset_take` — a place is found again by the tokens in front of it;
* `Fault.locate_eq` — and its line and column are those of the characters in front of it.
-/
import Mathlib
import Stencil.Proofs.Partition
import Stencil.SyntaxError

namespace Stencil

open Text (byteLength)

/-! ### What may follow on a lexeme -/

namespace Lexeme

variable {l : Lexeme} {spelling rest rest' : List Char}

/-- What starts with the same character may follow on the same lexeme, but for the braces that
end a text. -/
theorem Spelled.congr_rest (h : l.Spelled spelling rest) (hne : rest ≠ [])
    (hhead : rest'.head? = rest.head?) (htext : l.kind = .text → openBraces <+: rest') :
    l.Spelled spelling rest' := by
  cases l with
  | text content =>
    obtain ⟨heq, hspelling, hclear, hnil | ⟨-, hlast⟩⟩ := h
    · exact absurd hnil hne
    · exact ⟨heq, hspelling, hclear, .inr ⟨htext rfl, hlast⟩⟩
  | tagOpen => exact ⟨h.1, hhead ▸ h.2.1, hhead ▸ h.2.2⟩
  | blockOpen => exact h
  | blockClose => exact h
  | tagClose => exact h
  | identifier name => exact ⟨h.1, h.2.1, fun c hc => h.2.2 c (hhead ▸ hc)⟩
  | number digits => exact ⟨h.1, h.2.1, fun c hc => h.2.2 c (hhead ▸ hc)⟩
  | string content =>
    obtain ⟨q, tail, hq, heq, body, hbody, hclosed | ⟨hnil, -⟩⟩ := h
    · exact ⟨q, tail, hq, heq, body, hbody, .inl hclosed⟩
    · exact absurd hnil hne
  | comparison op => exact ⟨h.1, fun hop => hhead ▸ h.2 hop⟩
  | assign => exact ⟨h.1, hhead ▸ h.2⟩
  | unknown c =>
    exact ⟨h.1, h.2.1, fun hc => hhead ▸ h.2.2.1 hc, fun hc => hhead ▸ h.2.2.2 hc⟩
  | endOfInput => exact h

/-- A lexeme behind which the source goes on stays what it is when the source gets longer. -/
theorem Spelled.append (h : l.Spelled spelling rest) (hne : rest ≠ []) (more : List Char) :
    l.Spelled spelling (rest ++ more) := by
  refine h.congr_rest hne (List.head?_append_of_ne_nil _ hne) fun htext => ?_
  cases l with
  | text content =>
    obtain ⟨-, -, -, hnil | ⟨hopen, -⟩⟩ := h
    · exact absurd hnil hne
    · exact hopen.trans (List.prefix_append _ _)
  | _ => cases htext

/-- Outside of tags, what is no text starts with the two braces. -/
theorem Spelled.openBraces_prefix (h : l.Spelled spelling rest) (hmode : l.modeOf = .text)
    (htext : l.kind ≠ .text) : openBraces <+: spelling := by
  cases l with
  | text content => exact absurd rfl htext
  | tagOpen => exact h.1 ▸ List.prefix_rfl
  | blockOpen => exact ⟨['#'], h.symm⟩
  | blockClose => exact ⟨['/'], h.symm⟩
  | _ => cases hmode

end Lexeme

/-! ### Another end -/

theorem Piece.join_append (as bs : List Piece) : join (as ++ bs) = join as ++ join bs :=
  List.flatMap_append

/-- All that is left of a source can be cut. -/
theorem exists_cut (mode : Mode) (offset : Nat) (cs : List Char) :
    ∃ pieces trail, Cut mode offset cs pieces trail := by
  obtain ⟨pieces, trail, hcut, -⟩ := (Scanner.mk cs offset mode).cut_tokens
  exact ⟨pieces, trail, hcut⟩

namespace Cut

variable {mode : Mode} {offset : Nat} {cs trail : List Char} {p q : Piece}
  {before after pieces : List Piece}

/-- A piece stays what it is when only what stands behind the next piece changes. -/
theorem spelled_of_next (h : Cut mode offset cs (p :: q :: pieces) trail) (rest : List Char) :
    p.lexeme.Spelled p.spelling (q.gap ++ (q.spelling ++ rest)) := by
  obtain ⟨-, -, hmode, hspelled, -⟩ := h.head
  have hnext : Cut mode offset cs ([p] ++ q :: pieces) trail := h
  obtain ⟨-, hgap, hmode', hspelled', -⟩ := hnext.drop.head
  have hbehind : mode.behind ([p].map Piece.lexeme) = p.lexeme.modeAfter mode := rfl
  rw [hbehind] at hgap hmode'
  have hne : q.gap ++ q.spelling ≠ [] := List.append_ne_nil_of_right_ne_nil _ hspelled'.ne_nil
  rw [Piece.join_cons, List.append_assoc, List.append_assoc, ← List.append_assoc] at hspelled
  rw [← List.append_assoc]
  refine hspelled.congr_rest (List.append_ne_nil_of_left_ne_nil hne _) ?_ fun htext => ?_
  · rw [List.head?_append_of_ne_nil _ hne, List.head?_append_of_ne_nil _ hne]
  -- Behind a text nothing is skipped, and what is spelled there is no text.
  · generalize p.lexeme = l at *
    cases l <;> cases htext
    obtain rfl : Mode.text = mode := hmode
    rw [hgap rfl, List.nil_append] at hspelled ⊢
    have hkind : q.lexeme.kind ≠ .text := by
      intro hkind
      generalize q.lexeme = m at *
      cases m <;> cases hkind
      exact hspelled.not_text_text hspelled'
    exact (hspelled'.openBraces_prefix hmode' hkind).trans (List.prefix_append _ _)

/-- The pieces in front of a place, and the pieces of what follows there instead. -/
theorem splice (h : Cut mode offset cs (before ++ after) trail) {ds : List Char}
    {more : List Piece} {trail' : List Char}
    (hmore : Cut (mode.behind (before.map Piece.lexeme))
      (offset + byteLength (Piece.join before)) ds more trail')
    (hlast : ∀ p ∈ before.getLast?, p.lexeme.Spelled p.spelling ds) :
    Cut mode offset (Piece.join before ++ ds) (before ++ more) trail' := by
  induction before generalizing mode offset cs with
  | nil => exact hmore
  | cons p before ih =>
    have hspelled : p.lexeme.Spelled p.spelling (Piece.join before ++ ds) := by
      rcases before with _ | ⟨q, before⟩
      · exact hlast p rfl
      · rw [Piece.join_cons, List.append_assoc, List.append_assoc]
        exact h.spelled_of_next _
    cases h with
    | cons hblank htext hmode _ hcut =>
      rw [Piece.join_cons, List.append_assoc, List.append_assoc]
      refine .cons hblank htext hmode hspelled (ih hcut ?_ ?_)
      · rw [Piece.join_cons, Text.byteLength_append, Text.byteLength_append, ← Nat.add_assoc,
          ← Nat.add_assoc] at hmore
        exact hmore
      · rcases before with _ | ⟨q, before⟩
        · exact nofun
        · rwa [List.getLast?_cons_cons] at hlast

/-- Only no pieces at all are spelled by no characters. -/
theorem eq_nil_of_join (h : Cut mode offset cs (before ++ after) trail)
    (hjoin : Piece.join after = []) : after = [] := by
  rcases after with _ | ⟨p, after⟩
  · rfl
  · obtain ⟨-, -, -, hspelled, -⟩ := h.drop.head
    rw [Piece.join_cons] at hjoin
    obtain ⟨-, hrest⟩ := List.append_eq_nil_iff.mp hjoin
    exact absurd (List.append_eq_nil_iff.mp hrest).1 hspelled.ne_nil

/-! ### Places -/

theorem position_eq (h : Cut mode offset cs (before ++ p :: after) trail) :
    p.token.position = offset + byteLength (Piece.join before ++ p.gap) := by
  obtain ⟨-, -, -, -, hposition⟩ := h.drop.head
  rw [hposition, Text.byteLength_append, Nat.add_assoc]

/-- A token starts in front of the end of its piece. -/
theorem position_lt (h : Cut mode offset cs (before ++ after) trail) :
    ∀ t ∈ before.map Piece.token, t.position < offset + byteLength (Piece.join before) := by
  intro t ht
  obtain ⟨q, hq, rfl⟩ := List.mem_map.mp ht
  obtain ⟨as, bs, rfl⟩ := List.append_of_mem hq
  rw [List.append_assoc, List.cons_append] at h
  have hpos : 0 < byteLength q.spelling := by
    obtain ⟨-, -, -, hspelled, -⟩ := h.drop.head
    exact Nat.pos_of_ne_zero fun h => hspelled.ne_nil (Text.byteLength_eq_zero_iff.mp h)
  rw [h.position_eq, Piece.join_append, Piece.join_cons]
  simp only [Text.byteLength_append]
  omega

/-- No token starts in front of the place where its cut does. -/
theorem le_position (h : Cut mode offset cs pieces trail) :
    ∀ t ∈ pieces.map Piece.token, offset ≤ t.position := by
  intro t ht
  obtain ⟨q, hq, rfl⟩ := List.mem_map.mp ht
  obtain ⟨as, bs, rfl⟩ := List.append_of_mem hq
  rw [h.position_eq]
  exact Nat.le_add_right _ _

/-- The tokens behind a token do not start in front of it. -/
theorem position_le (h : Cut mode offset cs (before ++ p :: after) trail) :
    ∀ t ∈ after.map Piece.token, p.token.position ≤ t.position := by
  intro t ht
  have hp := h.position_eq
  rw [← List.singleton_append, ← List.append_assoc] at h
  have hle := h.drop.le_position t ht
  simp only [Piece.join_concat, Text.byteLength_append] at hp hle
  omega

/-- The tokens in front of a token are those that start in front of it. -/
theorem filter_position (h : Cut mode offset cs (before ++ after) trail) {position : Nat}
    (hbefore : offset + byteLength (Piece.join before) ≤ position)
    (hafter : ∀ p ∈ after.head?, p.token.position = position) :
    ((before ++ after).map Piece.token).filter (·.position < position) =
      before.map Piece.token := by
  have hfront : (before.map Piece.token).filter (·.position < position) =
      before.map Piece.token := by
    refine List.filter_eq_self.mpr fun t ht => decide_eq_true ?_
    exact Nat.lt_of_lt_of_le (h.position_lt t ht) hbefore
  have hback : (after.map Piece.token).filter (·.position < position) = [] := by
    refine List.filter_eq_nil_iff.mpr fun t ht => ?_
    rw [decide_eq_true_eq, Nat.not_lt]
    rcases after with _ | ⟨p, after⟩
    · cases ht
    · rw [← hafter p rfl]
      rcases List.mem_cons.mp ht with rfl | ht
      · exact Nat.le_refl _
      · exact h.position_le t ht
  rw [List.map_append, List.filter_append, hfront, hback, List.append_nil]

/-- Taking tokens off leads behind the last one's piece. -/
theorem take_eq (h : Cut mode offset cs (before ++ after) trail) :
    ((Scanner.mk cs offset mode).take before.length).2 =
      ⟨Piece.join after ++ trail, offset + byteLength (Piece.join before),
        mode.behind (before.map Piece.lexeme)⟩ := by
  induction before generalizing mode offset cs with
  | nil =>
    obtain rfl := h.eq_join
    rfl
  | cons p before ih =>
    have hfirst : Cut mode offset cs ([p] ++ (before ++ after)) trail := h
    have hjoin : Piece.join [p] = p.gap ++ p.spelling := by simp [Piece.join]
    have hend : p.token.position + byteLength p.spelling =
        offset + byteLength (Piece.join [p]) := by
      obtain ⟨-, -, -, -, hposition⟩ := h.head
      rw [hposition, hjoin, Text.byteLength_append, Nat.add_assoc]
    have hrest := ih hfirst.drop
    rw [← hend] at hrest
    rw [List.length_cons, Scanner.take, h.next_eq]
    refine hrest.trans ?_
    rw [hend, hjoin, Piece.join_cons]
    simp only [Text.byteLength_append, Nat.add_assoc]
    rfl

theorem offset_take (h : Cut mode offset cs (before ++ after) trail) :
    ((Scanner.mk cs offset mode).take before.length).2.offset =
      offset + byteLength (Piece.join before) :=
  congrArg Scanner.offset h.take_eq

end Cut

/-- The tokens of a source in front of a byte offset. -/
def Scanner.tokensBefore (s : Scanner) (position : Nat) : List Token :=
  s.tokens.filter (·.position < position)

/-- No token starts behind the end of its source. -/
theorem Scanner.position_lt {source : String} {token : Token}
    (h : token ∈ (Scanner.ofSource source).tokens) :
    token.position < byteLength source.toList := by
  obtain ⟨pieces, trail, hcut, htokens⟩ := (Scanner.ofSource source).cut_tokens
  rw [← List.append_nil pieces] at hcut
  have hlt := hcut.position_lt token (htokens ▸ h)
  have hlength : byteLength source.toList = _ := congrArg byteLength hcut.eq_join
  rw [List.append_nil, Text.byteLength_append] at hlength
  rw [show (Scanner.ofSource source).offset = 0 from rfl] at hlt
  omega

/-- A token starts between two characters of its source. -/
theorem Scanner.exists_split {source : String} {token : Token}
    (h : token ∈ (Scanner.ofSource source).tokens) :
    ∃ pre post, source.toList = pre ++ post ∧ token.position = byteLength pre := by
  obtain ⟨pieces, trail, hcut, htokens⟩ := (Scanner.ofSource source).cut_tokens
  rw [← htokens] at h
  obtain ⟨p, hp, rfl⟩ := List.mem_map.mp h
  obtain ⟨front, after, rfl⟩ := List.append_of_mem hp
  refine ⟨Piece.join front ++ p.gap, p.spelling ++ (Piece.join after ++ trail), ?_, ?_⟩
  · have hjoin : source.toList = _ := hcut.eq_join
    simp [hjoin, Piece.join_append]
  · exact hcut.position_eq.trans (Nat.zero_add _)

/-- The line and the column of a fault are those of the characters in front of it. -/
theorem Fault.locate_eq {source : String} {fault : Fault} {pre post : List Char}
    (hsource : source.toList = pre ++ post) (hposition : fault.position = byteLength pre) :
    Fault.locate source fault = ⟨fault, Text.Location.after pre⟩ := by
  obtain ⟨cause, position⟩ := fault
  obtain rfl : position = byteLength pre := hposition
  have hmin : min (byteLength pre) (byteLength source.toList) = byteLength pre := by
    rw [hsource, Text.byteLength_append, Nat.min_eq_left (Nat.le_add_right _ _)]
  have hlocation : Text.Location.ofOffset source.toList (byteLength pre) =
      Text.Location.after pre := by
    rw [Text.Location.ofOffset, hsource, Text.takeBytes?_append, Option.getD_some]
  simp only [Fault.locate, hmin, hlocation]

end Stencil
