/-
The first fault of a source is final.

A token that the source goes on behind stays what it is when the source gets longer, and so do
all tokens in front of it (`exists_cut_append`).  A draft that refuses a token does not look at
what follows.  So a fault stays where it is, and what it is, unless the token that is refused
might itself go on (`Template.ofSource_append`).
-/
import Mathlib
import Stencil.Proofs.FaultPlace

namespace Stencil

open Text (byteLength)

/-- Pieces behind which the source goes on are pieces of every longer source. -/
theorem exists_cut_append {mode : Mode} {offset : Nat} {cs : List Char} {read after : List Piece}
    {trail : List Char} (h : Cut mode offset cs (read ++ after) trail)
    (hrest : Piece.join after ++ trail ≠ []) (more : List Char) :
    ∃ others trail', Cut mode offset (cs ++ more) (read ++ others) trail' := by
  have hcs : cs ++ more = Piece.join read ++ (Piece.join after ++ trail ++ more) := by
    rw [h.eq_join, Piece.join_append, List.append_assoc, List.append_assoc, List.append_assoc]
  obtain ⟨others, trail', hothers⟩ := exists_cut (mode.behind (read.map Piece.lexeme))
    (offset + byteLength (Piece.join read)) (Piece.join after ++ trail ++ more)
  refine ⟨others, trail', ?_⟩
  rw [hcs]
  refine h.splice hothers ?_
  intro p hp
  obtain ⟨front, rfl⟩ := List.getLast?_eq_some_iff.mp hp
  rw [List.append_assoc, List.singleton_append] at h
  obtain ⟨-, -, -, hspelled, -⟩ := h.drop.head
  exact hspelled.append hrest more

namespace Template

variable {dialect : Dialect} {source : String} {e : SyntaxError}

/-- A token that is refused is refused in every source that starts with the same pieces. -/
theorem ofSource_of_refused {before others : List Piece} {p : Piece} {trail : List Char}
    {draft : Draft} {fault : Fault}
    (hcut : Cut .text 0 source.toList ((before ++ [p]) ++ others) trail)
    (hbefore : Draft.extendAll dialect {} (before.map Piece.token) = .ok draft)
    (hrefused : draft.extend dialect p.token = .error fault) :
    ofSource dialect source = .error (Fault.locate source fault) := by
  have htokens : (Scanner.ofSource source).tokens =
      before.map Piece.token ++ p.token :: others.map Piece.token := by
    rw [← List.map_cons, ← List.map_append]
    rw [List.append_assoc, List.singleton_append] at hcut
    exact hcut.tokens_eq
  rw [ofSource, htokens]
  show Except.mapError _ (ofTokens _ _ _) = _
  rw [ofTokens_of_extend_eq_error hbefore hrefused]
  rfl

/-- A fault whose token ends in front of the end of the source is the fault of every source that
starts with this one, with the same wording, at the same place. -/
theorem ofSource_append (h : ofSource dialect source = .error e)
    (hfound : ∀ expected, e.cause ≠ .unexpected expected "end of input")
    (hend : e.offenderEnd source < byteLength source.toList) (more : String) :
    ofSource dialect (source ++ more) = .error e := by
  obtain ⟨pieces, trail, fault, hcut, hstop, rfl⟩ := exists_stop h
  cases hstop with
  | atEnd _ => exact absurd rfl (hfound _)
  | @refused before after p draft _ hpieces hbefore hrefused =>
    subst hpieces
    obtain ⟨front, shown, rest, -, hread, hposition, hspan, -, -⟩ :=
      exists_shown_piece hbefore hrefused
    rw [← List.singleton_append, ← List.append_assoc] at hcut
    have hshown : Cut .text 0 source.toList (front ++ shown :: (rest ++ after)) trail := by
      rw [hread, List.append_assoc, List.cons_append] at hcut
      exact hcut
    -- The source goes on behind the token that is refused.
    have hrest : Piece.join after ++ trail ≠ [] := by
      intro hnil
      have hsource := hcut.eq_join
      rw [Piece.join_append, List.append_assoc, hnil, List.append_nil] at hsource
      rw [hshown.offenderEnd_locate hposition rfl hspan, ← hread, hsource] at hend
      exact Nat.lt_irrefl _ hend
    obtain ⟨others, trail', hlonger⟩ := exists_cut_append hcut hrest more.toList
    rw [← String.toList_append] at hlonger
    rw [ofSource_of_refused hlonger hbefore hrefused]
    -- What stands in front of the fault is the same in both sources.
    have hshown' : Cut .text 0 (source ++ more).toList (front ++ shown :: (rest ++ others))
        trail' := by
      rw [hread, List.append_assoc, List.cons_append] at hlonger
      exact hlonger
    rw [hshown.locate_eq hposition, hshown'.locate_eq hposition]

/-- The name in a close tag ends in front of its `}}`, so the fault stays when the block that is
open is closed further on. -/
theorem ofSource_append_mismatched :
    ofSource {} (r"{{#if x}}{{/end}}" ++ "{{/if}}") =
      .error ⟨⟨.mismatchedClose "if" "end", 9⟩, ⟨1, 10⟩⟩ := by
  have herror : ofSource {} r"{{#if x}}{{/end}}" =
      .error ⟨⟨.mismatchedClose "if" "end", 9⟩, ⟨1, 10⟩⟩ := by
    cbv
  have hend : SyntaxError.offenderEnd ⟨⟨.mismatchedClose "if" "end", 9⟩, ⟨1, 10⟩⟩
      r"{{#if x}}{{/end}}" <
        byteLength r"{{#if x}}{{/end}}".toList := by
    cbv
  refine ofSource_append herror ?_ hend _
  intro expected hfound
  cases hfound

end Template

end Stencil
