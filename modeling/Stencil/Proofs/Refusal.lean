/-
Where reading stops.

Tokens make no template if a draft refuses one of them, or if the source ends where it may not:

* `Draft.Refuses` — the four ways in which a token is refused (`refuses_of_extend`);
* `Draft.extend_congr` — what a token does to a draft depends on two answers of the dialect:
  whether a block may open here, and which names open a section here;
* `Template.ofTokens_eq_error` — the tokens in front of a fault have all been taken, and those
  behind it have not been looked at (`ofTokens_of_extend_eq_error`).
-/
import Stencil.Template.Source

namespace Stencil

namespace Draft

variable {dialect : Dialect} {draft draft' : Draft} {token : Token} {fault : Fault}

/-! ### Refusals -/

/-- Why a draft refuses a token. -/
inductive Refuses (dialect : Dialect) (draft : Draft) (token : Token) : Fault → Prop
  /-- Something else is expected at the draft's spot. -/
  | unexpected : Refuses dialect draft token (.unexpected ⟨draft.spot.wanted, none⟩ token)
  /-- All blocks that may be open are. -/
  | nestedTooDeep : draft.spot = .outside → token.lexeme = .blockOpen →
      dialect.maxDepth ≤ draft.blocks.length →
      Refuses dialect draft token ⟨.nestedTooDeep dialect.maxDepth, token.position⟩
  /-- No block is open. -/
  | strayClose {position : Nat} {name : String} : draft.spot = .closeStart position →
      token.lexeme = .identifier name → draft.blocks = [] →
      Refuses dialect draft token ⟨.strayClose name, position⟩
  /-- The innermost open block has another name. -/
  | mismatchedClose {position : Nat} {name : String} {block : OpenBlock}
      {outer : List OpenBlock} : draft.spot = .closeStart position →
      token.lexeme = .identifier name → draft.blocks = block :: outer → name ≠ block.name →
      Refuses dialect draft token ⟨.mismatchedClose block.name name, position⟩

theorem refuses_of_refuse (h : draft.refuse token = .error fault) :
    Refuses dialect draft token fault := by
  obtain rfl := Except.error.inj h
  exact .unexpected

theorem refuses_of_extendArguments {owner : ArgumentOwner} {args : Arguments}
    (h : draft.extendArguments owner args token = .error fault) :
    Refuses dialect draft token fault := by
  unfold extendArguments at h
  split at h
  all_goals first
    | exact refuses_of_refuse h
    | cases h

theorem refuses_of_extendValue {destination : Destination} {value : Value}
    (h : draft.extendValue destination value token = .error fault) :
    Refuses dialect draft token fault := by
  unfold extendValue at h
  split at h
  next => cases h
  next => exact refuses_of_extendArguments h
  next => cases h
  next => exact refuses_of_refuse h

theorem refuses_of_extendOutside (hspot : draft.spot = .outside)
    (h : draft.extendOutside dialect token = .error fault) :
    Refuses dialect draft token fault := by
  unfold extendOutside at h
  split at h
  next => cases h
  next => cases h
  next hlexeme =>
    split at h
    next => cases h
    next hfull =>
      obtain rfl := Except.error.inj h
      exact .nestedTooDeep hspot hlexeme (Nat.not_lt.mp hfull)
  next => cases h
  next => exact refuses_of_refuse h

theorem refuses_of_extendClose {position : Nat} (hspot : draft.spot = .closeStart position)
    (h : draft.extendClose position token = .error fault) :
    Refuses dialect draft token fault := by
  unfold extendClose at h
  split at h
  next hlexeme hblocks =>
    obtain rfl := Except.error.inj h
    exact .strayClose hspot hlexeme hblocks
  next hlexeme hblocks =>
    split at h
    next => cases h
    next hname =>
      obtain rfl := Except.error.inj h
      exact .mismatchedClose hspot hlexeme hblocks hname
  next => exact refuses_of_refuse h

/-- A token that is refused is refused in one of the four ways. -/
theorem refuses_of_extend (h : draft.extend dialect token = .error fault) :
    Refuses dialect draft token fault := by
  unfold extend at h
  split at h
  next hspot => exact refuses_of_extendOutside hspot h
  next =>
    split at h
    next =>
      split at h
      · cases h
      · cases h
    next => cases h
    next => cases h
    next => exact refuses_of_refuse h
  next =>
    split at h
    next => cases h
    next => cases h
    next => exact refuses_of_extendArguments h
  next => exact refuses_of_extendValue h
  next =>
    split at h
    next => cases h
    next => cases h
    next => exact refuses_of_refuse h
  next =>
    split at h
    next => cases h
    next => exact refuses_of_refuse h
  next => exact refuses_of_extendArguments h
  next =>
    split at h
    next => cases h
    next => exact refuses_of_extendValue h
  next =>
    split at h
    next => cases h
    next => cases h
    next => cases h
    next => exact refuses_of_refuse h
  next =>
    split at h
    next => cases h
    next => exact refuses_of_refuse h
  next hspot => exact refuses_of_extendClose hspot h
  next =>
    split at h
    next => cases h
    next => exact refuses_of_refuse h

/-- What a token does to a draft depends on two answers of the dialect. -/
theorem extend_congr {dialect' : Dialect}
    (houtside : draft.spot = .outside →
      draft.extendOutside dialect' token = draft.extendOutside dialect token)
    (hopens : ∀ name, draft.opensSection dialect' name = draft.opensSection dialect name) :
    draft.extend dialect' token = draft.extend dialect token := by
  unfold extend
  split
  next hspot => exact houtside hspot
  next => simp only [hopens]
  all_goals rfl

/-! ### Runs -/

/-- Tokens are all taken if the first one is, and then the others. -/
theorem extendAll_cons_eq_ok_iff {tokens : List Token} :
    draft.extendAll dialect (token :: tokens) = .ok draft' ↔
      ∃ next, draft.extend dialect token = .ok next ∧
        next.extendAll dialect tokens = .ok draft' := by
  rw [extendAll_cons]
  cases draft.extend dialect token with
  | error fault =>
    constructor
    · intro h
      cases h
    · rintro ⟨next, h, -⟩
      cases h
  | ok next =>
    constructor
    · intro h
      exact ⟨next, rfl, h⟩
    · rintro ⟨next', h, h'⟩
      obtain rfl := Except.ok.inj h
      exact h'

/-- Tokens are all taken if some of them are, and then the others. -/
theorem extendAll_append_eq_ok_iff {as bs : List Token} :
    draft.extendAll dialect (as ++ bs) = .ok draft' ↔
      ∃ mid, draft.extendAll dialect as = .ok mid ∧ mid.extendAll dialect bs = .ok draft' := by
  induction as generalizing draft with
  | nil =>
    constructor
    · intro h
      exact ⟨draft, rfl, h⟩
    · rintro ⟨mid, h, h'⟩
      obtain rfl := Except.ok.inj h
      exact h'
  | cons a as ih =>
    simp only [List.cons_append, extendAll_cons_eq_ok_iff, ih]
    constructor
    · rintro ⟨next, hnext, mid, hmid, h⟩
      exact ⟨mid, ⟨next, hnext, hmid⟩, h⟩
    · rintro ⟨mid, ⟨next, hnext, hmid⟩, h⟩
      exact ⟨next, hnext, mid, hmid, h⟩

/-- All tokens are taken if all but the last are, and then that one. -/
theorem extendAll_concat_eq_ok_iff {tokens : List Token} :
    draft.extendAll dialect (tokens ++ [token]) = .ok draft' ↔
      ∃ mid, draft.extendAll dialect tokens = .ok mid ∧ mid.extend dialect token = .ok draft' := by
  simp only [extendAll_append_eq_ok_iff, extendAll_cons_eq_ok_iff, extendAll_nil,
    Except.ok.injEq, exists_eq_right]

/-- A run that fails stops at the first token that is refused. -/
theorem exists_of_extendAll_eq_error {tokens : List Token}
    (h : draft.extendAll dialect tokens = .error fault) :
    ∃ before token after mid, tokens = before ++ token :: after ∧
      draft.extendAll dialect before = .ok mid ∧ mid.extend dialect token = .error fault := by
  induction tokens generalizing draft with
  | nil => cases h
  | cons token tokens ih =>
    rw [extendAll_cons] at h
    cases hnext : draft.extend dialect token with
    | error fault' =>
      rw [hnext] at h
      obtain rfl := Except.error.inj h
      exact ⟨[], token, tokens, draft, rfl, rfl, hnext⟩
    | ok next =>
      rw [hnext] at h
      obtain ⟨before, last, after, mid, rfl, hbefore, hlast⟩ := ih h
      have htaken : draft.extendAll dialect (token :: before) = .ok mid :=
        extendAll_cons_eq_ok_iff.mpr ⟨next, hnext, hbefore⟩
      exact ⟨token :: before, last, after, mid, rfl, htaken, hlast⟩

end Draft

/-! ### Whole sources -/

namespace Template

variable {dialect : Dialect} {fault : Fault}

/-- Tokens that make no template lead to a draft that refuses the next one, or to a draft with
which the source may not end. -/
theorem ofTokens_eq_error {tokens : List Token} {position : Nat}
    (h : ofTokens dialect tokens position = .error fault) :
    (∃ before token after draft, tokens = before ++ token :: after ∧
      Draft.extendAll dialect {} before = .ok draft ∧
      draft.extend dialect token = .error fault) ∨
    ∃ draft, Draft.extendAll dialect {} tokens = .ok draft ∧
      draft.finish position = .error fault := by
  rw [ofTokens] at h
  cases hall : Draft.extendAll dialect {} tokens with
  | ok draft =>
    rw [hall] at h
    exact .inr ⟨draft, rfl, h⟩
  | error fault' =>
    rw [hall] at h
    obtain rfl := Except.error.inj h
    exact .inl (Draft.exists_of_extendAll_eq_error hall)

/-- What stands behind a token that is refused does not matter. -/
theorem ofTokens_of_extend_eq_error {before after : List Token} {token : Token} {draft : Draft}
    (hbefore : Draft.extendAll dialect {} before = .ok draft)
    (htoken : draft.extend dialect token = .error fault) (position : Nat) :
    ofTokens dialect (before ++ token :: after) position = .error fault := by
  rw [ofTokens, Draft.extendAll_append, hbefore]
  show (draft.extendAll dialect (token :: after) >>= fun draft => draft.finish position) = _
  rw [Draft.extendAll_cons, htoken]
  rfl

/-- The fault of a source that ends where it may not is the end of the input.  Outside of tags a
close tag is missing, and in a tag what its spot asks for. -/
theorem finish_eq_error {draft : Draft} {position : Nat}
    (h : draft.finish position = .error fault) :
    ∃ wanted, fault = .unexpected ⟨wanted, none⟩ ⟨.endOfInput, position⟩ ∧
      (draft.spot = .outside ∧ draft.blocks ≠ [] ∧ wanted = .blockClose ∨
        draft.spot ≠ .outside ∧ wanted = draft.spot.wanted) := by
  unfold Draft.finish at h
  split at h
  next => cases h
  next hspot hblocks =>
    exact ⟨_, (Except.error.inj h).symm, .inl ⟨hspot, by simp [hblocks], rfl⟩⟩
  next hopen hclosed =>
    refine ⟨_, (Except.error.inj h).symm, .inr ⟨fun hspot => ?_, rfl⟩⟩
    cases hblocks : draft.blocks with
    | nil => exact hopen hspot hblocks
    | cons block outer => exact hclosed block outer hspot hblocks

/-- A syntax error is the fault of the tokens, as seen in the source. -/
theorem ofSource_eq_error {source : String} {e : SyntaxError}
    (h : ofSource dialect source = .error e) :
    ∃ fault, ofTokens dialect (Scanner.ofSource source).tokens
        (Scanner.ofSource source).endPosition = .error fault ∧
      Fault.locate source fault = e := by
  rw [ofSource] at h
  cases htokens : ofTokens dialect (Scanner.ofSource source).tokens
      (Scanner.ofSource source).endPosition with
  | ok template =>
    rw [htokens] at h
    cases h
  | error fault =>
    rw [htokens] at h
    exact ⟨fault, rfl, Except.error.inj h⟩

end Template

end Stencil
