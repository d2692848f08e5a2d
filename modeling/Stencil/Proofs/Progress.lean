/-
Scanning moves on.

Whatever stands in a source, a token is taken off it or there is nothing left: no character stops a
scanner, and neither does a tag or a quoted text that is not closed.

* `offset_lt_next` — a token other than the end of the input takes a byte at least;
* `length_tokens_le` — so there are no more tokens than bytes;
* `lexeme_token_eq_endOfInput_iff` — and behind the last one is the end of the input, forever.
-/
import Stencil.Proofs.Lookahead

namespace Stencil.Scanner

open Text (byteLength)

/-- A token other than the end of the input moves the scanner on. -/
theorem offset_lt_next {s : Scanner} (h : s.next.1.lexeme ≠ .endOfInput) :
    s.offset < s.next.2.offset := by
  unfold next at h ⊢
  split
  next hbody => simp [hbody] at h
  next c cs hbody =>
    have hspelling : byteLength (s.read c cs).spelling ≠ 0 :=
      mt Text.byteLength_eq_zero_iff.mp (s.read_ne_nil c cs)
    show s.offset < s.start + byteLength (s.read c cs).spelling
    rw [start]
    omega

/-- There are no more tokens than bytes. -/
theorem length_tokens_le (s : Scanner) : s.tokens.length ≤ byteLength s.rest := by
  fun_induction tokens s with
  | case1 s step hend => exact Nat.zero_le _
  | case2 s step hend ih =>
    -- The end stays where it is, so what the scanner moves on by is no longer left.
    have hoffset : s.offset < step.2.offset := offset_lt_next hend
    have hend : step.2.offset + byteLength step.2.rest = s.offset + byteLength s.rest :=
      s.endPosition_next
    rw [List.length_cons]
    omega

theorem lexeme_ne_endOfInput {s : Scanner} {token : Token} (h : token ∈ s.tokens) :
    token.lexeme ≠ .endOfInput := by
  fun_induction tokens s with
  | case1 s step hend => cases h
  | case2 s step hend ih =>
    rcases List.mem_cons.mp h with rfl | h
    · exact hend
    · exact ih h

/-- The end of the input is met behind the tokens, and from there on forever. -/
theorem lexeme_token_eq_endOfInput_iff (s : Scanner) (i : Nat) :
    (s.token i).lexeme = .endOfInput ↔ s.tokens.length ≤ i := by
  rw [token_eq]
  cases hi : s.tokens[i]? with
  | none => exact iff_of_true rfl (List.getElem?_eq_none_iff.mp hi)
  | some token =>
    obtain ⟨hlt, -⟩ := List.getElem?_eq_some_iff.mp hi
    exact iff_of_false (lexeme_ne_endOfInput (List.mem_of_getElem? hi)) (Nat.not_le_of_lt hlt)

end Stencil.Scanner
