/-
How deep blocks may nest.

Building a template under a lower limit is building it under a higher one, until a block opens
that is one too many.

* `Draft.extend_limited`, `Draft.extendAll_limited` — a token, and then a list of tokens, does
  the same to a draft under both limits, or the lower one is exceeded;
* `FirstOpening` — where that happens: at the first `{{#` that is met with as many blocks open
  as may be (`stopsAtLimit_of_cause`);
* `Template.ofSource_limited` — what a lower limit does to whole sources.
-/
import Mathlib
import Stencil.Proofs.OpenBlocks
import Stencil.Proofs.Refusal
import Stencil.Proofs.Splice

namespace Stencil

/-- The dialect with another limit. -/
def Dialect.limited (dialect : Dialect) (limit : Nat) : Dialect :=
  { dialect with maxDepth := limit }

/-- `position` is where the first `{{#` stands that is met with exactly `n` blocks open. -/
def FirstOpening (n : Nat) (tokens : List Token) (position : Nat) : Prop :=
  ∃ before after, tokens = before ++ ⟨.blockOpen, position⟩ :: after ∧
    openBlocks (before.map Token.lexeme) = n ∧
    ∀ before' token after', before = before' ++ token :: after' → token.lexeme = .blockOpen →
      openBlocks (before'.map Token.lexeme) ≠ n

/-- Building ends with a fault at the first `{{#` that is met with as many blocks open as may
be. -/
def Template.StopsAtLimit (dialect : Dialect) (source : String) : Prop :=
  ∃ e, ofSource dialect source = .error e ∧ e.cause = .nestedTooDeep dialect.maxDepth ∧
    FirstOpening dialect.maxDepth (Scanner.ofSource source).tokens e.position

/-! ### Two limits -/

variable {dialect : Dialect} {limit limit' : Nat}

namespace Draft

variable {draft : Draft}

/-- A token does the same to a draft under both limits, or the lower one is exceeded. -/
theorem extend_limited (h : limit ≤ limit') (dialect : Dialect) (draft : Draft)
    (token : Token) :
    draft.extend (dialect.limited limit') token = draft.extend (dialect.limited limit) token ∨
      ∃ position, draft.extend (dialect.limited limit) token =
        .error ⟨.nestedTooDeep limit, position⟩ := by
  by_cases hfull : draft.spot = .outside ∧ token.lexeme = .blockOpen ∧
      limit ≤ draft.blocks.length
  · obtain ⟨hspot, hlexeme, hlength⟩ := hfull
    refine .inr ⟨token.position, ?_⟩
    have hroom : ¬draft.blocks.length < (dialect.limited limit).maxDepth := Nat.not_lt.mpr hlength
    rw [extend, hspot]
    show draft.extendOutside (dialect.limited limit) token = _
    rw [extendOutside, hlexeme]
    exact if_neg hroom
  · refine .inl (extend_congr (fun hspot => ?_) fun _ => rfl)
    -- Only the room for another block depends on the limit.
    by_cases hlexeme : token.lexeme = .blockOpen
    · have hlength : draft.blocks.length < limit := by
        by_contra hlength
        exact hfull ⟨hspot, hlexeme, Nat.not_lt.mp hlength⟩
      have hroom : draft.blocks.length < (dialect.limited limit).maxDepth := hlength
      have hroom' : draft.blocks.length < (dialect.limited limit').maxDepth :=
        Nat.lt_of_lt_of_le hlength h
      simp only [extendOutside, hlexeme, if_pos hroom, if_pos hroom']
    · unfold extendOutside
      split
      next => rfl
      next => rfl
      next hopen => exact absurd hopen hlexeme
      next => rfl
      next => rfl

/-- Tokens do the same to a draft under both limits, or the lower one is exceeded. -/
theorem extendAll_limited (h : limit ≤ limit') (dialect : Dialect) (draft : Draft)
    (tokens : List Token) :
    draft.extendAll (dialect.limited limit') tokens =
        draft.extendAll (dialect.limited limit) tokens ∨
      ∃ position, draft.extendAll (dialect.limited limit) tokens =
        .error ⟨.nestedTooDeep limit, position⟩ := by
  induction tokens generalizing draft with
  | nil => exact .inl rfl
  | cons token tokens ih =>
    rw [extendAll_cons, extendAll_cons]
    rcases extend_limited h dialect draft token with hsame | ⟨position, hfull⟩
    · rw [hsame]
      cases draft.extend (dialect.limited limit) token with
      | error fault => exact .inl rfl
      | ok next => exact ih next
    · refine .inr ⟨position, ?_⟩
      rw [hfull]
      rfl

/-- A `{{#` is taken only while there is room for another block. -/
theorem length_lt_of_blockOpen {draft' : Draft} {token : Token}
    (hspot : draft.spot = .outside) (hlexeme : token.lexeme = .blockOpen)
    (h : draft.extend dialect token = .ok draft') : draft.blocks.length < dialect.maxDepth := by
  by_contra hfull
  rw [extend, hspot] at h
  simp only [extendOutside, hlexeme, if_neg hfull] at h
  cases h

/-- Where a block is one too many, and nowhere before, as many blocks are open as may be. -/
theorem firstOpening_of_refuses {before after : List Token} {position : Nat}
    (hbefore : Draft.extendAll dialect {} before = .ok draft) (hspot : draft.spot = .outside)
    (hfull : dialect.maxDepth ≤ draft.blocks.length) :
    FirstOpening dialect.maxDepth (before ++ ⟨.blockOpen, position⟩ :: after) position := by
  have hspells := spells_of_extendAll hbefore
  have hroom : draft.blocks.length ≤ dialect.maxDepth :=
    Nat.le_trans (Nat.le_add_right _ _) hspells.depth_le
  refine ⟨before, after, rfl, ?_, ?_⟩
  · exact (hspells.openBlocks_eq hspot).trans (Nat.le_antisymm hroom hfull)
  · rintro before' token after' rfl hlexeme
    obtain ⟨mid, hmid, hrest⟩ := extendAll_append_eq_ok_iff.mp hbefore
    obtain ⟨next, hnext, -⟩ := extendAll_cons_eq_ok_iff.mp hrest
    have hspells' := spells_of_extendAll hmid
    have hspot' := hspells'.spot_eq_outside hnext (by rw [hlexeme]; rfl)
    have hlt := length_lt_of_blockOpen hspot' hlexeme hnext
    exact (hspells'.openBlocks_eq hspot').trans_ne hlt.ne

end Draft

namespace Template

variable {source : String}

/-- A block that is one too many is the first one that is. -/
theorem stopsAtLimit_of_cause {e : SyntaxError} {n : Nat} (h : ofSource dialect source = .error e)
    (hcause : e.cause = .nestedTooDeep n) : StopsAtLimit dialect source := by
  obtain ⟨fault, htokens, rfl⟩ := ofSource_eq_error h
  obtain ⟨before, token, after, draft, hsplit, hbefore, hrefused⟩ | ⟨draft, -, hfinish⟩ :=
    ofTokens_eq_error htokens
  · obtain ⟨lexeme, position⟩ := token
    cases Draft.refuses_of_extend hrefused with
    | nestedTooDeep hspot hlexeme hfull =>
      obtain rfl : lexeme = .blockOpen := hlexeme
      refine ⟨_, h, rfl, ?_⟩
      have hmem : ⟨.blockOpen, position⟩ ∈ (Scanner.ofSource source).tokens := by
        rw [hsplit]
        exact List.mem_append_right before (List.mem_cons_self ..)
      have hlt : position < Text.byteLength source.toList := Scanner.position_lt hmem
      have hposition : (Fault.locate source ⟨.nestedTooDeep dialect.maxDepth, position⟩).position =
          position := Nat.min_eq_left (Nat.le_of_lt hlt)
      rw [hposition, hsplit]
      exact Draft.firstOpening_of_refuses hbefore hspot hfull
    | unexpected => cases hcause
    | strayClose => cases hcause
    | mismatchedClose => cases hcause
  · obtain ⟨wanted, rfl, -⟩ := finish_eq_error hfinish
    cases hcause

/-- A source makes the same under both limits, or the lower one is exceeded. -/
theorem ofSource_limited_cases (h : limit ≤ limit') (dialect : Dialect) (source : String) :
    ofSource (dialect.limited limit') source = ofSource (dialect.limited limit) source ∨
      StopsAtLimit (dialect.limited limit) source := by
  let tokens := (Scanner.ofSource source).tokens
  rcases Draft.extendAll_limited h dialect {} tokens with
    hsame | ⟨position, hfull⟩
  · refine .inl ?_
    rw [ofSource, ofSource, ofTokens, ofTokens]
    show (Except.mapError _ (Draft.extendAll _ _ tokens >>= _)) = _
    rw [hsame]
  · have herror : ofSource (dialect.limited limit) source =
        .error (Fault.locate source ⟨.nestedTooDeep limit, position⟩) := by
      rw [ofSource, ofTokens]
      show (Except.mapError _ (Draft.extendAll _ _ tokens >>= _)) = _
      rw [hfull]
      rfl
    exact .inr (stopsAtLimit_of_cause herror rfl)

/-- A limit takes effect exactly where blocks nest deeper than it.  Under a lower limit a source
makes the same template or fault as under a higher one, or it stops at the first `{{#` that is
met with as many blocks open as may be.  It does not stop if its template nests no deeper than
the limit, and it does if a higher limit stops it too.  At no point are more blocks open than may
be, and blocks that have been closed are not counted. -/
theorem ofSource_limited (dialect : Dialect) (source : String) {limit limit' : Nat}
    (h : limit ≤ limit') :
    (∀ template, ofSource (dialect.limited limit) source = .ok template →
      ofSource (dialect.limited limit') source = .ok template) ∧
    (∀ template, ofSource (dialect.limited limit') source = .ok template →
      (template.nesting ≤ limit → ofSource (dialect.limited limit) source = .ok template) ∧
      (limit < template.nesting → StopsAtLimit (dialect.limited limit) source)) ∧
    (∀ e, ofSource (dialect.limited limit') source = .error e →
      (ofSource (dialect.limited limit) source = .error e ∨
        StopsAtLimit (dialect.limited limit) source) ∧
      ∀ n, e.cause = .nestedTooDeep n → StopsAtLimit (dialect.limited limit) source) ∧
    ∀ before after draft, (Scanner.ofSource source).tokens = before ++ after →
      Draft.extendAll (dialect.limited limit) {} before = .ok draft →
      draft.depth ≤ limit ∧
        ((before.map Token.lexeme).count .blockOpen + if draft.spot.closesBlock then 1 else 0) =
          draft.depth + (before.map Token.lexeme).count .blockClose := by
  have hcases := ofSource_limited_cases h dialect source
  refine ⟨?_, ?_, ?_, ?_⟩
  · intro template hok
    rcases hcases with hsame | ⟨e, herror, -⟩
    · rw [hsame, hok]
    · rw [hok] at herror
      cases herror
  · intro template hok
    have htokens := Grammar.ofSource_eq_ok_iff_ofTokens.mp hok
    obtain ⟨hderives, -⟩ := Grammar.ofTokens_eq_ok_iff.mp htokens
    constructor
    · intro hnesting
      exact Grammar.ofSource_eq_ok_iff_ofTokens.mpr
        (Grammar.ofTokens_eq_ok_iff.mpr ⟨hderives, hnesting⟩)
    · intro hdeep
      rcases hcases with hsame | hstops
      · rw [hsame] at hok
        have htokens := Grammar.ofSource_eq_ok_iff_ofTokens.mp hok
        have hnesting : template.nesting ≤ limit := (Grammar.ofTokens_eq_ok_iff.mp htokens).2
        omega
      · exact hstops
  · intro e herror
    rcases hcases with hsame | hstops
    · rw [hsame] at herror
      exact ⟨.inl herror, fun n hcause => stopsAtLimit_of_cause herror hcause⟩
    · exact ⟨.inr hstops, fun _ _ => hstops⟩
  · intro before after draft hsplit hbefore
    have hspells := Draft.spells_of_extendAll hbefore
    exact ⟨hspells.depth_le, hspells.count⟩

/-- Two blocks side by side nest no deeper than one, and a block inside of one does. -/
theorem ofSource_limited_one_two :
    ofSource (Dialect.limited {} 1) "{{#a}}{{/a}}{{#b}}{{/b}}" =
      .ok ⟨[.block ⟨"a", {}, .ofItems [], []⟩, .block ⟨"b", {}, .ofItems [], []⟩]⟩ ∧
    StopsAtLimit (Dialect.limited {} 1)
      "{{#a}}{{#b}}{{/b}}{{/a}}" := by
  have hlimits : 1 ≤ 2 := by decide
  constructor
  · have hsiblings : ofSource (Dialect.limited {} 2)
        "{{#a}}{{/a}}{{#b}}{{/b}}" =
        .ok ⟨[.block ⟨"a", {}, .ofItems [], []⟩, .block ⟨"b", {}, .ofItems [], []⟩]⟩ := by
      cbv
    obtain ⟨-, hhigher, -, -⟩ := ofSource_limited {}
      "{{#a}}{{/a}}{{#b}}{{/b}}" hlimits
    exact (hhigher _ hsiblings).1 (by decide)
  · have hnested : ofSource (Dialect.limited {} 2)
        "{{#a}}{{#b}}{{/b}}{{/a}}" =
        .ok ⟨[.block ⟨"a", {}, .ofItems [.block ⟨"b", {}, .ofItems [], []⟩], []⟩]⟩ := by
      cbv
    obtain ⟨-, hhigher, -, -⟩ := ofSource_limited {}
      "{{#a}}{{#b}}{{/b}}{{/a}}" hlimits
    exact (hhigher _ hnested).2 (by decide)

end Template

end Stencil
