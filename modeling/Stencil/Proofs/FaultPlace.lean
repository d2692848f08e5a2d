/-
Where faults show.

A fault shows at the token that is refused, but for a close tag that closes nothing: the name in
it is refused, and the fault shows at its `{{/`.

* `Draft.exists_shown` — the token at which a fault shows, and the draft in front of it;
* `Template.exists_stop` — the same for a whole source: where reading stops, seen in a cut;
* `SyntaxError.offenderEnd` — where the token that is refused ends, found from the syntax error
  alone.
-/
import Stencil.Proofs.OpenBlocks
import Stencil.Proofs.Refusal
import Stencil.Proofs.Splice

namespace Stencil

open Text (byteLength)

/-- Whether a cause is that something else was expected. -/
def Cause.isUnexpected : Cause → Bool
  | .unexpected _ _ => true
  | .mismatchedClose _ _ | .strayClose _ | .nestedTooDeep _ => false

/-- How many tokens stand between the place of a fault and the end of the token that is refused:
that one, or the `{{/` of a close tag and the name behind it. -/
def Cause.span : Cause → Nat
  | .unexpected _ _ | .nestedTooDeep _ => 1
  | .mismatchedClose _ _ | .strayClose _ => 2

/-- The byte offset behind the token that is refused. -/
def SyntaxError.offenderEnd (e : SyntaxError) (source : String) : Nat :=
  let scanner := Scanner.ofSource source
  (scanner.take ((scanner.tokensBefore e.position).length + e.cause.span)).2.offset

/-! ### Drafts behind an open close tag -/

namespace Draft

variable {dialect : Dialect} {draft draft' : Draft} {ls : List Lexeme} {token : Token}
  {tokens : List Token}

/-- A `{{/` that is taken stands outside of tags. -/
theorem Spells.eq_moveTo_of_blockClose (h : draft.Spells dialect ls)
    (hextend : draft.extend dialect token = .ok draft') (hlexeme : token.lexeme = .blockClose) :
    draft.spot = .outside ∧ draft' = draft.moveTo (.closeStart token.position) := by
  have htext : token.lexeme.modeOf = .text := by
    rw [hlexeme]
    rfl
  have hspot := h.spot_eq_outside hextend htext
  rw [extend_outside hspot, extendOutside, hlexeme] at hextend
  exact ⟨hspot, (Except.ok.inj hextend).symm⟩

/-- The token in front of the name in a close tag is its `{{/`. -/
theorem Spells.lexeme_eq_blockClose {position : Nat} (h : draft.Spells dialect ls)
    (hextend : draft.extend dialect token = .ok draft')
    (hspot : draft'.spot = .closeStart position) : token.lexeme = .blockClose := by
  obtain ⟨as, bs, heq, -, hbs⟩ := spells_extend h hextend
  rw [hspot] at hbs
  cases hbs
  exact (List.cons.inj (List.append_inj' heq rfl).2).1

/-- In front of the name in a close tag stand tokens that lead outside of tags, and the `{{/`. -/
theorem exists_of_closeStart {position : Nat}
    (h : Draft.extendAll dialect {} tokens = .ok draft)
    (hspot : draft.spot = .closeStart position) :
    ∃ before mid, tokens = before ++ [⟨.blockClose, position⟩] ∧
      Draft.extendAll dialect {} before = .ok mid ∧ mid.spot = .outside ∧
      mid.blocks = draft.blocks := by
  rcases List.eq_nil_or_concat tokens with rfl | ⟨before, last, rfl⟩
  · obtain rfl := Except.ok.inj h
    cases hspot
  · rw [List.concat_eq_append] at h ⊢
    obtain ⟨mid, hbefore, hlast⟩ := extendAll_concat_eq_ok_iff.mp h
    have hspells := spells_of_extendAll hbefore
    have hlexeme := hspells.lexeme_eq_blockClose hlast hspot
    obtain ⟨houtside, rfl⟩ := hspells.eq_moveTo_of_blockClose hlast hlexeme
    obtain ⟨lexeme, position'⟩ := last
    obtain rfl : lexeme = .blockClose := hlexeme
    obtain rfl : position' = position := Spot.closeStart.inj hspot
    exact ⟨before, mid, rfl, hbefore, houtside, rfl⟩

/-- A draft that refuses a token has a token at which the fault shows: the one that is refused,
or the `{{/` in front of it.  In front of that `{{/`, and of a `{{#`, the draft is outside of
tags. -/
theorem exists_shown {fault : Fault} (h : Draft.extendAll dialect {} tokens = .ok draft)
    (hrefused : draft.extend dialect token = .error fault) :
    ∃ front shown rest place, tokens ++ [token] = front ++ shown :: rest ∧
      shown.position = fault.position ∧ rest.length + 1 = fault.cause.span ∧
      Draft.extendAll dialect {} front = .ok place ∧
      (place.spot = .outside ∨ fault.cause.isUnexpected = true) := by
  have hclose : ∀ {position : Nat}, draft.spot = .closeStart position →
      ∃ front shown place, tokens ++ [token] = front ++ shown :: [token] ∧
        shown.position = position ∧ Draft.extendAll dialect {} front = .ok place ∧
        place.spot = .outside := by
    intro position hspot
    obtain ⟨before, mid, rfl, hbefore, houtside, -⟩ := exists_of_closeStart h hspot
    refine ⟨before, ⟨.blockClose, position⟩, mid, ?_, rfl, hbefore, houtside⟩
    rw [List.append_assoc]
    rfl
  cases refuses_of_extend hrefused with
  | unexpected => exact ⟨tokens, token, [], draft, rfl, rfl, rfl, h, .inr rfl⟩
  | nestedTooDeep hspot _ _ => exact ⟨tokens, token, [], draft, rfl, rfl, rfl, h, .inl hspot⟩
  | strayClose hspot _ _ =>
    obtain ⟨front, shown, place, heq, hposition, hfront, houtside⟩ := hclose hspot
    exact ⟨front, shown, [token], place, heq, hposition, rfl, hfront, .inl houtside⟩
  | mismatchedClose hspot _ _ _ =>
    obtain ⟨front, shown, place, heq, hposition, hfront, houtside⟩ := hclose hspot
    exact ⟨front, shown, [token], place, heq, hposition, rfl, hfront, .inl houtside⟩

end Draft

/-! ### Where reading stops -/

namespace Template

variable {dialect : Dialect} {source : String} {e : SyntaxError}

/-- How building a template of a source in pieces comes to a fault: a token is refused, or the
source ends where it may not. -/
inductive Stops (dialect : Dialect) (source : String) (pieces : List Piece) :
    Fault → Prop
  | refused {before after : List Piece} {p : Piece} {draft : Draft} {fault : Fault} :
      pieces = before ++ p :: after →
      Draft.extendAll dialect {} (before.map Piece.token) = .ok draft →
      draft.extend dialect p.token = .error fault → Stops dialect source pieces fault
  | atEnd {draft : Draft} {wanted : Pattern} :
      Draft.extendAll dialect {} (pieces.map Piece.token) = .ok draft →
      Stops dialect source pieces (.unexpected wanted ⟨.endOfInput, byteLength source.toList⟩)

/-- A source without a template is in pieces at one of which, or behind which, reading stops. -/
theorem exists_stop (h : ofSource dialect source = .error e) :
    ∃ pieces trail fault, Cut .text 0 source.toList pieces trail ∧
      Stops dialect source pieces fault ∧ Fault.locate source fault = e := by
  obtain ⟨pieces, trail, hcut, htokens⟩ := (Scanner.ofSource source).cut_tokens
  obtain ⟨fault, hfault, rfl⟩ := ofSource_eq_error h
  refine ⟨pieces, trail, fault, hcut, ?_, rfl⟩
  rw [← htokens, Scanner.endPosition_ofSource] at hfault
  obtain ⟨before, token, after, draft, hsplit, hbefore, hrefused⟩ | ⟨draft, hall, hfinish⟩ :=
    ofTokens_eq_error hfault
  · obtain ⟨bs, rest, rfl, rfl, hrest⟩ := List.map_eq_append_iff.mp hsplit
    obtain ⟨p, as, rfl, rfl, rfl⟩ := List.map_eq_cons_iff.mp hrest
    exact .refused rfl hbefore hrefused
  · obtain ⟨wanted, rfl, -⟩ := finish_eq_error hfinish
    exact .atEnd hall

/-- The piece at which a fault shows. -/
theorem exists_shown_piece {before : List Piece} {p : Piece} {draft : Draft} {fault : Fault}
    (h : Draft.extendAll dialect {} (before.map Piece.token) = .ok draft)
    (hrefused : draft.extend dialect p.token = .error fault) :
    ∃ front shown rest place, before ++ [p] = front ++ shown :: rest ∧
      shown.token.position = fault.position ∧ rest.length + 1 = fault.cause.span ∧
      Draft.extendAll dialect {} (front.map Piece.token) = .ok place ∧
      (place.spot = .outside ∨ fault.cause.isUnexpected = true) := by
  obtain ⟨fs, s, rs, place, heq, hposition, hspan, hfront, hplace⟩ := Draft.exists_shown h hrefused
  rw [← List.map_singleton, ← List.map_append] at heq
  obtain ⟨front, rest, hsplit, rfl, hrest⟩ := List.map_eq_append_iff.mp heq
  obtain ⟨shown, others, rfl, rfl, rfl⟩ := List.map_eq_cons_iff.mp hrest
  rw [List.length_map] at hspan
  exact ⟨front, shown, others, place, hsplit, hposition, hspan, hfront, hplace⟩

end Template

/-- The tokens in front of a place in a cut. -/
theorem Cut.tokensBefore {source : String} {before after : List Piece} {trail : List Char}
    {position : Nat} (h : Cut .text 0 source.toList (before ++ after) trail)
    (hbefore : byteLength (Piece.join before) ≤ position)
    (hafter : ∀ p ∈ after.head?, p.token.position = position) :
    (Scanner.ofSource source).tokensBefore position = before.map Piece.token := by
  have htokens : (Scanner.ofSource source).tokens = (before ++ after).map Piece.token := h.tokens_eq
  rw [Scanner.tokensBefore, htokens]
  exact h.filter_position ((Nat.zero_add _).symm ▸ hbefore) hafter

section

variable {source : String} {front after : List Piece} {shown : Piece} {trail : List Char}
  {fault : Fault} (h : Cut .text 0 source.toList (front ++ shown :: after) trail)
  (hposition : shown.token.position = fault.position)

include h hposition

/-- The line and the column of a fault at a token are those of what stands in front of it. -/
theorem Cut.locate_eq :
    Fault.locate source fault = ⟨fault, Text.Location.after (Piece.join front ++ shown.gap)⟩ := by
  have hsource := h.eq_join
  rw [Piece.join_append, Piece.join_cons, List.append_assoc, List.append_assoc,
    ← List.append_assoc] at hsource
  refine Fault.locate_eq hsource ?_
  rw [← hposition, h.position_eq, Nat.zero_add]

/-- The tokens in front of a fault are those in front of the token at which it shows. -/
theorem Cut.tokensBefore_locate :
    (Scanner.ofSource source).tokensBefore (Fault.locate source fault).position =
      front.map Piece.token := by
  rw [h.locate_eq hposition]
  refine h.tokensBefore ?_ ?_
  · rw [← hposition, h.position_eq, Text.byteLength_append]
    omega
  · rintro p ⟨⟩
    exact hposition

/-- The token that is refused ends as many tokens behind the place of the fault as its cause
spans. -/
theorem Cut.offenderEnd_locate {rest after' : List Piece} (hafter : after = rest ++ after')
    (hspan : rest.length + 1 = fault.cause.span) :
    (Fault.locate source fault).offenderEnd source =
      byteLength (Piece.join (front ++ shown :: rest)) := by
  have hcut : Cut .text 0 source.toList ((front ++ shown :: rest) ++ after') trail := by
    rw [List.append_assoc, List.cons_append, ← hafter]
    exact h
  have hlength : (front.map Piece.token).length + (Fault.locate source fault).cause.span =
      (front ++ shown :: rest).length := by
    rw [h.locate_eq hposition, ← hspan, List.length_map, List.length_append, List.length_cons]
  rw [SyntaxError.offenderEnd, h.tokensBefore_locate hposition, hlength]
  exact hcut.offset_take.trans (Nat.zero_add _)

end

end Stencil
