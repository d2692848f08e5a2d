/-
Values, arguments and tags by descent.

A descent decides what a tag is by looking ahead, where a draft waits for the next token.  So behind
the first name of a tag or of a slot the descent knows more than the draft, and follows one that
does the same with what comes next (`Draft.completed_congr`).

* `ends_expression` — a value and, behind an operator, what it is compared to;
* `ends_arguments` — the loop over arguments;
* `ends_heading?`, `ends_tag` — what a `{{` may start.

Each of them ends where the draft has the result, or at the fault of the source.  A round of the
loop takes a token at least, so that its rounds are as many as there are tokens, at most.
-/
import Mathlib
import Stencil.Proofs.Descent.Following
import Stencil.Proofs.Grammar.Accepted

namespace Stencil

open Text (byteLength)
open Grammar (Operand Primary)

namespace Draft

variable {dialect : Dialect} {left : List Token} {base : Draft}

/-- Behind a value, only an operator tells it from one that is complete. -/
theorem completed_settle {destination : Destination} {v : Value}
    (hnone : ∀ t ∈ left.head?, ∀ op, t.lexeme ≠ .comparison op) (position : Nat) :
    (base.moveTo (.value destination v)).completed dialect left position =
      (base.settle destination v).completed dialect left position := by
  refine completed_congr ?_ ?_ ?_ (fun t ht => ?_) position
  · nofun
  · cases destination <;> nofun
  · cases destination <;> rfl
  · obtain ⟨lexeme, p⟩ := t
    cases destination with
    | tag =>
      cases lexeme with
      | comparison op => exact absurd rfl (hnone _ ht op)
      | _ => rfl
    | argument owner args key? =>
      cases lexeme with
      | comparison op => exact absurd rfl (hnone _ ht op)
      | tagClose => cases owner <;> rfl
      | _ => rfl

theorem extend_tagStart_name {n : String} (hsection : base.opensSection dialect n = false)
    (position : Nat) :
    (base.moveTo .tagStart).extend dialect ⟨.identifier n, position⟩ =
      .ok (base.moveTo (.tagName n)) :=
  if_neg (Bool.eq_false_iff.mp hsection)

end Draft

namespace Descent

variable {dialect : Dialect} {source : String} {depth : Nat} {draft draft' base : Draft}
  {left : List Token} {token : Token} {descent : Descent}

/-! ### Values -/

theorem ends_operand_of {fail : SyntaxError → Descent → Prop}
    (h : Follows dialect source depth draft (token :: left) descent) {v : Value}
    (hv : Operand token.lexeme v) (htoken : draft.extend dialect token = .ok draft') :
    Ends operand descent (fun w next => w = v ∧
      Follows dialect source depth draft' left next ∧ ∀ site, next.Fresh site) fail := by
  refine .current_bind ?_
  rw [h.current_of_head? rfl]
  obtain ⟨lexeme, position⟩ := token
  cases hv with
  | name n =>
    refine (ends_advance h htoken).bind ?_
    rintro _ next ⟨rfl, hnext⟩
    exact .pure ⟨rfl, hnext⟩
  | string s =>
    refine (ends_advance h htoken).bind ?_
    rintro _ next ⟨rfl, hnext⟩
    exact .pure ⟨rfl, hnext⟩

theorem ends_operand_refused {post : Value → Descent → Prop}
    (h : Follows dialect source depth draft left descent)
    (hwanted : draft.spot.wanted = .identifier)
    (hnone : ∀ v, ¬Operand descent.cursor.current.lexeme v)
    (hrefused : ∀ t ∈ left.head?, draft.extend dialect t = draft.refuse t) :
    Ends operand descent post (Fails dialect source) := by
  have hspot : draft.spot ≠ .outside := fun hout => by
    rw [hout] at hwanted
    cases hwanted
  have hunexpected : Ends (unexpected ⟨.identifier, none⟩) descent post (Fails dialect source) :=
    ends_unexpected h hspot hwanted hrefused
  refine .current_bind ?_
  cases hlexeme : descent.cursor.current.lexeme with
  | identifier n =>
    rw [hlexeme] at hnone
    exact absurd (.name n) (hnone _)
  | string s =>
    rw [hlexeme] at hnone
    exact absurd (.string s) (hnone _)
  | _ => exact hunexpected

/-- The right side of a comparison completes it. -/
theorem ends_operand {destination : Destination} {op : Comparison} {v : Value}
    (h : Follows dialect source depth (base.moveTo (.operator destination op v)) left descent) :
    Ends operand descent
      (fun w => Reaches dialect source depth left (base.settle destination (.comparison op v w)))
      (Fails dialect source) := by
  by_cases hoperand : ∃ w, Operand descent.cursor.current.lexeme w
  · obtain ⟨t, rest, rfl, w, hw⟩ := h.exists_token (P := fun l => ∃ w, Operand l w) hoperand
      (by rintro ⟨w, ⟨⟩⟩)
    refine (ends_operand_of h hw (Draft.extend_operator hw base destination op v _)).mono ?_
    rintro _ next ⟨rfl, hnext⟩
    exact ⟨rest, Nat.lt_succ_self _, hnext⟩
  · refine ends_operand_refused h rfl (not_exists.mp hoperand) fun t ht => ?_
    rw [h.current_of_head? ht] at hoperand
    obtain ⟨lexeme, position⟩ := t
    cases lexeme with
    | identifier n => exact absurd ⟨_, .name n⟩ hoperand
    | string s => exact absurd ⟨_, .string s⟩ hoperand
    | _ => rfl

theorem ends_primary_of {fail : SyntaxError → Descent → Prop}
    (h : Follows dialect source depth draft (token :: left) descent) {v : Value}
    (hv : Primary token.lexeme v) (htoken : draft.extend dialect token = .ok draft') :
    Ends primary descent (fun w next => w = v ∧
      Follows dialect source depth draft' left next ∧ ∀ site, next.Fresh site) fail := by
  refine .currentIs_bind ?_
  rw [h.current_of_head? rfl]
  obtain ⟨lexeme, position⟩ := token
  rcases hv with n | (s | d)
  · exact ends_operand_of h (.name n) htoken
  · exact ends_operand_of h (.string s) htoken
  · refine (ends_advance h htoken).bind ?_
    rintro _ next ⟨rfl, hnext⟩
    exact .pure ⟨rfl, hnext⟩

theorem ends_primary_refused {post : Value → Descent → Prop}
    (h : Follows dialect source depth draft left descent)
    (hwanted : draft.spot.wanted = .identifier)
    (hnone : ∀ v, ¬Primary descent.cursor.current.lexeme v)
    (hrefused : ∀ t ∈ left.head?, draft.extend dialect t = draft.refuse t) :
    Ends primary descent post (Fails dialect source) := by
  have hoperand : Ends operand descent post (Fails dialect source) := by
    refine ends_operand_refused h hwanted (fun v hv => hnone v ?_) hrefused
    generalize descent.cursor.current.lexeme = lexeme at hv ⊢
    cases hv with
    | name n => exact .name n
    | string s => exact .literal (.string s)
  refine .currentIs_bind ?_
  cases hlexeme : descent.cursor.current.lexeme with
  | number d =>
    rw [hlexeme] at hnone
    exact absurd (.literal (.number d)) (hnone _)
  | _ => exact hoperand

/-- A first value, where the draft takes every such value and refuses all else. -/
theorem ends_primary {after : Value → Draft}
    (h : Follows dialect source depth draft left descent)
    (hwanted : draft.spot.wanted = .identifier)
    (htaken : ∀ t ∈ left.head?, ∀ v, Primary t.lexeme v → draft.extend dialect t = .ok (after v))
    (hrefused : ∀ t ∈ left.head?, (∀ v, ¬Primary t.lexeme v) →
      draft.extend dialect t = draft.refuse t) :
    Ends primary descent (fun v => Reaches dialect source depth left (after v))
      (Fails dialect source) := by
  by_cases hprimary : ∃ v, Primary descent.cursor.current.lexeme v
  · obtain ⟨t, rest, rfl, v, hv⟩ := h.exists_token (P := fun l => ∃ v, Primary l v) hprimary
      (by rintro ⟨v, ⟨⟩ | ⟨⟨⟩⟩⟩)
    refine (ends_primary_of h hv (htaken t rfl v hv)).mono ?_
    rintro _ next ⟨rfl, hnext⟩
    exact ⟨rest, Nat.lt_succ_self _, hnext⟩
  · rw [not_exists] at hprimary
    refine ends_primary_refused h hwanted hprimary fun t ht => hrefused t ht ?_
    rwa [h.current_of_head? ht] at hprimary

theorem operator_iff {lexeme : Lexeme} {op : Comparison} :
    lexeme.kind = .operator ∧ lexeme.value?.bind Comparison.ofSymbol? = some op ↔
      lexeme = .comparison op := by
  cases lexeme with
  | comparison op' => simp [Lexeme.kind, Lexeme.value?, Comparison.ofSymbol?_symbol]
  | assign =>
    have hassign : Comparison.ofSymbol? "=" = none := by decide
    simp [Lexeme.value?, hassign]
  | _ => simp [Lexeme.kind]

theorem Ends.comparison?_bind {β : Type} {goal : β → Descent → Prop}
    {fail : SyntaxError → Descent → Prop} {f : Option Comparison → Action β}
    (hsome : ∀ op, descent.cursor.current.lexeme = .comparison op →
      Ends (f (some op)) descent goal fail)
    (hnone : (∀ op, descent.cursor.current.lexeme ≠ .comparison op) →
      Ends (f none) descent goal fail) :
    Ends (comparison? >>= f) descent goal fail := by
  have hcomparison : Ends comparison? descent
      (fun op? next => next = descent ∧
        ∀ op, op? = some op ↔ descent.cursor.current.lexeme = .comparison op) fail := by
    refine .current_bind ?_
    by_cases hkind : descent.cursor.current.lexeme.kind = .operator
    · rw [if_pos hkind]
      exact .pure ⟨rfl, fun op => by rw [← operator_iff, and_iff_right hkind]⟩
    · rw [if_neg hkind]
      exact .pure ⟨rfl, fun op => ⟨nofun, fun hop => absurd (hop ▸ rfl) hkind⟩⟩
  refine hcomparison.bind ?_
  rintro op? _ ⟨rfl, hop⟩
  cases op? with
  | none => exact hnone fun op h => nomatch (hop op).mpr h
  | some op => exact hsome op ((hop op).mp rfl)

/-- An expression, where its first value leads behind that value. -/
theorem ends_expression (destination : Destination)
    (hprimary : Ends primary descent
      (fun v => Reaches dialect source depth left (base.moveTo (.value destination v)))
      (Fails dialect source)) :
    Ends expression descent
      (fun v => Reaches dialect source depth left (base.settle destination v))
      (Fails dialect source) := by
  refine hprimary.bind ?_
  rintro v next ⟨rest, hlt, hnext, hfresh⟩
  refine .comparison?_bind (fun op hop => ?_) fun hnone => ?_
  · obtain ⟨⟨lexeme, p⟩, rest, rfl, hlexeme⟩ :=
      hnext.exists_token (P := fun l => l = .comparison op) hop nofun
    obtain rfl : lexeme = .comparison op := hlexeme
    have hoperator : (base.moveTo (.value destination v)).extend dialect ⟨.comparison op, p⟩ =
        .ok (base.moveTo (.operator destination op v)) := by
      cases destination <;> rfl
    refine (ends_advance hnext hoperator).bind ?_
    rintro _ behind ⟨-, hbehind, -⟩
    refine (ends_operand hbehind).bind ?_
    exact fun w last hlast => .pure (hlast.of_le ((Nat.le_succ _).trans hlt.le))
  · refine .pure ⟨rest, hlt, hnext.congr (Draft.completed_settle (fun t ht => ?_) _), hfresh⟩
    rwa [hnext.current_of_head? ht] at hnone

/-! ### Arguments -/

/-- The value behind a key. -/
theorem ends_expression_key {owner : ArgumentOwner} {args : Arguments} {key : String}
    (h : Follows dialect source depth (base.moveTo (.argumentKey owner args key)) left descent) :
    Ends expression descent
      (fun v => Reaches dialect source depth left
        (base.moveTo (.arguments owner (args.add (some key) v))))
      (Fails dialect source) := by
  refine ends_expression (.argument owner args (some key)) ?_
  refine ends_primary h rfl (fun t _ v hv => ?_) fun t _ hnone => ?_
  · obtain ⟨lexeme, p⟩ := t
    rcases hv with n | (s | d)
    · rfl
    · rfl
    · rfl
  · obtain ⟨lexeme, p⟩ := t
    cases lexeme with
    | identifier n => exact absurd (.name n) (hnone _)
    | string s => exact absurd (.literal (.string s)) (hnone _)
    | number d => exact absurd (.literal (.number d)) (hnone _)
    | _ => rfl

/-- A value where a slot starts, if what stands there is not a key. -/
theorem ends_expression_positional {owner : ArgumentOwner} {args : Arguments} {v : Value}
    (h : Follows dialect source depth (base.moveTo (.arguments owner args)) (token :: left) descent)
    (hv : Primary token.lexeme v)
    (hkey : ∀ n, v = .variable n → ∀ t ∈ left.head?, t.lexeme ≠ .assign) :
    Ends expression descent
      (fun w => Reaches dialect source depth (token :: left)
        (base.moveTo (.arguments owner (args.add none w))))
      (Fails dialect source) := by
  obtain ⟨spot, hspot, htoken⟩ : ∃ spot, Draft.BehindPrimary owner args none v spot ∧
      ∀ position, (base.moveTo (.arguments owner args)).extend dialect ⟨token.lexeme, position⟩ =
        .ok (base.moveTo spot) :=
    Draft.extend_slotStart hv base none
  refine ends_expression (.argument owner args none) ?_
  refine (ends_primary_of h hv (htoken token.position)).mono ?_
  rintro _ next ⟨rfl, hnext, hfresh⟩
  refine ⟨left, Nat.lt_succ_self _, ?_, hfresh⟩
  cases hspot with
  | value => exact hnext
  | name n =>
    refine hnext.congr (Draft.completed_congr ?_ ?_ ?_ (fun t ht => ?_) _)
    · nofun
    · nofun
    · rfl
    · obtain ⟨lexeme, p⟩ := t
      cases lexeme with
      | assign => exact absurd rfl (hkey n rfl _ ht)
      | _ => rfl

theorem accepts_assign {lexeme : Lexeme} :
    Pattern.accepts ⟨.operator, some "="⟩ lexeme = true ↔ lexeme = .assign := by
  cases lexeme with
  | comparison op => cases op <;> decide
  | _ => simp [Pattern.accepts, Lexeme.kind, Lexeme.value?]

/-- The arguments have been read, up to the `}}` that comes next. -/
def Collected (dialect : Dialect) (source : String) (depth : Nat) (left : List Token)
    (base : Draft) (owner : ArgumentOwner) (args : Arguments) (descent : Descent) : Prop :=
  ∃ p rest, rest.length < left.length ∧
    Follows dialect source depth (base.moveTo (.arguments owner args)) (⟨.tagClose, p⟩ :: rest)
      descent

theorem ends_nameSlot {n : String} {p : Nat} {owner : ArgumentOwner} {args : Arguments}
    (h : Follows dialect source depth (base.moveTo (.arguments owner args))
      (⟨.identifier n, p⟩ :: left) descent) :
    Ends (nameSlot args) descent
      (fun all => Reaches dialect source depth (⟨.identifier n, p⟩ :: left)
        (base.moveTo (.arguments owner all)))
      (Fails dialect source) := by
  refine .upcomingIs_bind ?_
  have hahead := h.lookAhead
  rw [h.upcoming_eq, List.tail_cons]
  by_cases hassign : (left.head?.getD ⟨.endOfInput, byteLength source.toList⟩).lexeme = .assign
  · rw [if_pos (accepts_assign.mpr hassign)]
    cases left with
    | nil => cases hassign
    | cons u rest =>
      obtain ⟨lexeme, q⟩ := u
      obtain rfl : lexeme = .assign := hassign
      refine (ends_advance hahead rfl).bind ?_
      rintro _ behind ⟨rfl, hbehind, -⟩
      refine (ends_advance hbehind rfl).bind ?_
      rintro _ next ⟨-, hnext, -⟩
      refine (ends_expression_key hnext).bind ?_
      exact fun v last hlast => .pure (hlast.of_le (Nat.le_add_right _ 2))
  · rw [if_neg (mt accepts_assign.mp hassign)]
    refine (ends_expression_positional hahead (.name n) fun _ _ t ht => ?_).bind ?_
    · rwa [show left.head? = some t from ht] at hassign
    · exact fun v last hlast => .pure hlast

/-- An argument, where the list of arguments does not end. -/
theorem ends_slot {owner : ArgumentOwner} {args : Arguments}
    (h : Follows dialect source depth (base.moveTo (.arguments owner args)) left descent)
    (hclose : ∀ t ∈ left.head?, t.lexeme ≠ .tagClose) :
    Ends (slot args) descent
      (fun all => Reaches dialect source depth left (base.moveTo (.arguments owner all)))
      (Fails dialect source) := by
  refine .current_bind ?_
  rw [h.current_eq]
  cases left with
  | nil => exact ends_unexpected h nofun rfl nofun
  | cons t rest =>
    obtain ⟨lexeme, p⟩ := t
    cases lexeme with
    | tagClose => exact absurd rfl (hclose _ rfl)
    | identifier n => exact ends_nameSlot h
    | string s =>
      refine (ends_expression_positional h (.literal (.string s)) nofun).bind ?_
      exact fun v last hlast => .pure hlast
    | number d =>
      refine (ends_expression_positional h (.literal (.number d)) nofun).bind ?_
      exact fun v last hlast => .pure hlast
    | _ =>
      refine ends_unexpected h nofun rfl fun t ht => ?_
      obtain rfl := Option.some.inj ht
      rfl

/-- The loop over arguments ends. -/
theorem ends_arguments {owner : ArgumentOwner} {args : Arguments}
    (h : Follows dialect source depth (base.moveTo (.arguments owner args)) left descent)
    (hfresh : descent.Fresh .arguments) :
    Ends args.readOn descent (Collected dialect source depth left base owner)
      (Fails dialect source) := by
  -- Each round leaves less for the next one.
  induction hn : left.length using Nat.strong_induction_on generalizing args left descent with
  | _ n ih =>
    subst hn
    rw [Arguments.readOn]
    refine .currentIs_bind ?_
    by_cases hclose : descent.cursor.current.lexeme.kind = .tagClose
    · rw [if_pos (accepts_kind.mpr hclose)]
      obtain ⟨⟨lexeme, p⟩, rest, rfl, hlexeme⟩ :=
        h.exists_token (P := fun l => l.kind = .tagClose) hclose nofun
      cases lexeme <;> cases hlexeme
      exact .pure ⟨p, rest, Nat.lt_succ_self _, h⟩
    · rw [if_neg (mt accepts_kind.mp hclose)]
      have hother (t : Token) (ht : t ∈ left.head?) : t.lexeme ≠ .tagClose := by
        rw [h.current_of_head? ht] at hclose
        exact fun hlexeme => hclose (hlexeme ▸ rfl)
      refine (ends_visit h hfresh).bind ?_
      rintro _ start ⟨hstart, -⟩
      refine (ends_slot hstart hother).bind ?_
      rintro all next ⟨rest, hlt, hnext, hfresh⟩
      refine (ih _ hlt hnext (hfresh _) rfl).mono ?_
      rintro all last ⟨p, rest', hlt', hlast⟩
      exact ⟨p, rest', hlt'.trans hlt, hlast⟩

theorem awaitsClose_arguments {owner : ArgumentOwner} {args : Arguments} {p : Nat}
    {rest : List Token} :
    (base.moveTo (.arguments owner args)).AwaitsClose dialect (⟨.tagClose, p⟩ :: rest)
      (base.closeArguments owner args) where
  spot_ne := nofun
  wanted_eq := rfl
  close p := by cases owner <;> rfl
  refuse t ht hlexeme := by
    obtain rfl := Option.some.inj ht
    exact absurd rfl hlexeme

/-- The arguments of an owner, and the `}}` behind them. -/
theorem ends_arguments_closeTag {β : Type} {goal : β → Descent → Prop} {owner : ArgumentOwner}
    {f : Arguments → Action β}
    (h : Follows dialect source depth (base.moveTo (.arguments owner {})) left descent)
    (hfresh : descent.Fresh .arguments)
    (hgoal : ∀ args next, Reaches dialect source depth left (base.closeArguments owner args) next →
      Ends (f args) next goal (Fails dialect source)) :
    Ends (do let args ← Arguments.readOn {}; closeTag; f args) descent goal
      (Fails dialect source) := by
  refine (ends_arguments h hfresh).bind ?_
  rintro args next ⟨p, rest, hlt, hnext⟩
  refine (ends_closeTag hnext awaitsClose_arguments).bind ?_
  exact fun _ last hlast => hgoal args last (hlast.of_le hlt)

/-! ### Tags -/

/-- The tag starts with no keyword of the innermost open block. -/
def StartsNoSection (dialect : Dialect) (draft : Draft) (left : List Token) : Prop :=
  ∀ n p, left.head? = some ⟨.identifier n, p⟩ → draft.opensSection dialect n = false

/-- The heading of a section has been read, if the tag starts with a keyword, and nothing if not. -/
def Headed (dialect : Dialect) (source : String) (depth : Nat) (left : List Token) (base : Draft) :
    Option Section → Descent → Prop
  | none, descent => Follows dialect source depth (base.moveTo .tagStart) left descent ∧
    StartsNoSection dialect base left
  | some heading, descent => base.blocks ≠ [] ∧ ∃ keyword args, heading = .named keyword args ∧
    Reaches dialect source depth left (base.closeArguments (.keyword keyword) args) descent

theorem ends_heading? {block? : Option String}
    (h : Follows dialect source depth (base.moveTo .tagStart) left descent)
    (hblock : base.blocks.head?.map OpenBlock.name = block?) :
    Ends (heading? dialect block?) descent (Headed dialect source depth left base)
      (Fails dialect source) := by
  subst hblock
  cases hblocks : base.blocks with
  | nil =>
    refine .pure ⟨h, fun n p _ => ?_⟩
    rw [Draft.opensSection, hblocks]
    rfl
  | cons block outer =>
    have hopens (n : String) :
        base.opensSection dialect n = dialect.isSectionKeyword block.name n := by
      rw [Draft.opensSection, hblocks]
      rfl
    refine .current_bind ?_
    by_cases hkeyword : descent.cursor.current.lexeme.kind = .identifier ∧
        descent.cursor.current.lexeme.value?.any (dialect.isSectionKeyword block.name) = true
    · rw [if_pos hkeyword]
      obtain ⟨⟨lexeme, p⟩, rest, rfl, hkind, hvalue⟩ := h.exists_token
        (P := fun l => l.kind = .identifier ∧
          l.value?.any (dialect.isSectionKeyword block.name) = true) hkeyword (by rintro ⟨⟨⟩, -⟩)
      cases lexeme with
      | identifier n =>
        have htoken : (base.moveTo .tagStart).extend dialect ⟨.identifier n, p⟩ =
            .ok (base.moveTo (.arguments (.keyword n) {})) :=
          if_pos ((hopens n).trans hvalue)
        refine (ends_advance h htoken).bind ?_
        rintro _ next ⟨rfl, hnext, hfresh⟩
        refine ends_arguments_closeTag hnext (hfresh _) fun args last hlast => .pure ?_
        exact ⟨hblocks ▸ List.cons_ne_nil _ _, n, args, rfl, hlast.of_le (Nat.le_succ _)⟩
      | _ => cases hkind
    · rw [if_neg hkeyword]
      refine .pure ⟨h, fun n p hn => ?_⟩
      rw [h.current_of_head? hn] at hkeyword
      rw [hopens, Bool.eq_false_iff]
      exact fun hn => hkeyword ⟨rfl, hn⟩

theorem accepts_comparison {op : Comparison} {lexeme : Lexeme} :
    Pattern.accepts ⟨.operator, some op.symbol⟩ lexeme = true ↔ lexeme = .comparison op := by
  cases lexeme with
  | comparison op' => cases op <;> cases op' <;> decide
  | assign => cases op <;> decide
  | _ => simp [Pattern.accepts, Lexeme.kind]

theorem ends_anyM_upcomingIs {fail : SyntaxError → Descent → Prop} (ops : List Comparison)
    (h : Follows dialect source depth draft left descent) :
    Ends (ops.anyM fun op => upcomingIs ⟨.operator, some op.symbol⟩) descent
      (fun holds next => Follows dialect source depth draft left next ∧
        (holds = true ↔ ∃ op ∈ ops, descent.cursor.upcoming.lexeme = .comparison op)) fail := by
  induction ops generalizing descent with
  | nil => exact .pure ⟨h, by simp⟩
  | cons op ops ih =>
    refine .upcomingIs_bind ?_
    split
    next hyes => exact .pure ⟨h.lookAhead, by simp [accepts_comparison.mp hyes]⟩
    next hno =>
      rw [← Bool.not_eq_true, accepts_comparison] at hno
      refine (ih h.lookAhead).mono ?_
      rintro holds next ⟨hnext, hholds⟩
      rw [Cursor.upcoming_lookAhead] at hholds
      exact ⟨hnext, hholds.trans (by simp [hno])⟩

theorem ends_upcomingIsComparison {fail : SyntaxError → Descent → Prop}
    (h : Follows dialect source depth draft left descent) :
    Ends upcomingIsComparison descent
      (fun holds next => Follows dialect source depth draft left next ∧
        (holds = true ↔ ∃ op, descent.cursor.upcoming.lexeme = .comparison op)) fail := by
  refine (ends_anyM_upcomingIs _ h).mono ?_
  rintro holds next ⟨hnext, hholds⟩
  refine ⟨hnext, hholds.trans ⟨fun ⟨op, _, hop⟩ => ⟨op, hop⟩, fun ⟨op, hop⟩ => ⟨op, ?_, hop⟩⟩⟩
  cases op <;> simp

/-- The tag has been read up to its `}}`, and prints `item`. -/
def Prints (dialect : Dialect) (source : String) (depth : Nat) (left : List Token) (base : Draft)
    (item : Item) (descent : Descent) : Prop :=
  ∃ draft rest, rest.length ≤ left.length ∧ Follows dialect source depth draft rest descent ∧
    draft.AwaitsClose dialect rest (base.push item)

theorem Prints.of_le {rest : List Token} {item : Item}
    (h : Prints dialect source depth rest base item descent) (hle : rest.length ≤ left.length) :
    Prints dialect source depth left base item descent := by
  obtain ⟨draft, rest', hle', h⟩ := h
  exact ⟨draft, rest', hle'.trans hle, h⟩

/-- A tag prints its expression, where the first value leads behind that value. -/
theorem ends_printed
    (hprimary : Ends primary descent
      (fun v => Reaches dialect source depth left (base.moveTo (.value .tag v)))
      (Fails dialect source)) :
    Ends printed descent (Prints dialect source depth left base) (Fails dialect source) := by
  refine (ends_expression .tag hprimary).bind ?_
  rintro v next ⟨rest, hlt, hnext, -⟩
  refine .pure ⟨_, rest, hlt.le, hnext, nofun, rfl, fun _ => rfl, fun t ht hclose => ?_⟩
  obtain ⟨lexeme, p⟩ := t
  cases lexeme with
  | tagClose => exact absurd rfl hclose
  | _ => rfl

/-- A tag that is a name prints the variable. -/
theorem ends_tagVariable {n : String} {p : Nat}
    (h : Follows dialect source depth (base.moveTo .tagStart) (⟨.identifier n, p⟩ :: left) descent)
    (hsection : base.opensSection dialect n = false)
    (hclose : ∀ t ∈ left.head?, t.lexeme = .tagClose) :
    Ends (do return .expression (.variable (← advance).lexeme.value)) descent
      (Prints dialect source depth left base) (Fails dialect source) := by
  refine (ends_advance h (Draft.extend_tagStart_name hsection p)).bind ?_
  rintro _ next ⟨rfl, hnext, -⟩
  exact .pure ⟨_, left, Nat.le_refl _, hnext, nofun, rfl, fun _ => rfl, fun t ht hlexeme =>
    absurd (hclose t ht) hlexeme⟩

/-- A tag that starts with a name and an operator prints the comparison. -/
theorem ends_printed_comparison {n : String} {p q : Nat} {op : Comparison}
    (h : Follows dialect source depth (base.moveTo .tagStart)
      (⟨.identifier n, p⟩ :: ⟨.comparison op, q⟩ :: left) descent)
    (hsection : base.opensSection dialect n = false) :
    Ends printed descent
      (Prints dialect source depth (⟨.identifier n, p⟩ :: ⟨.comparison op, q⟩ :: left) base)
      (Fails dialect source) := by
  have hname := Draft.extend_tagStart_name hsection p
  refine ends_printed ((ends_primary_of h (.name n) hname).mono ?_)
  rintro _ next ⟨rfl, hnext, hfresh⟩
  exact ⟨_, Nat.lt_succ_self _, hnext.congr rfl, hfresh⟩

/-- A tag that starts with a name, and neither ends behind it nor goes on with an operator, prints
what a helper makes. -/
theorem ends_call {n : String} {p : Nat}
    (h : Follows dialect source depth (base.moveTo .tagStart) (⟨.identifier n, p⟩ :: left) descent)
    (hsection : base.opensSection dialect n = false)
    (hnext : ∀ t ∈ left.head?, t.lexeme ≠ .tagClose ∧ ∀ op, t.lexeme ≠ .comparison op) :
    Ends call descent (Prints dialect source depth left base) (Fails dialect source) := by
  refine (ends_advance h (Draft.extend_tagStart_name hsection p)).bind ?_
  rintro _ behind ⟨rfl, hbehind, hfresh⟩
  have hcall :
      Follows dialect source depth (base.moveTo (.arguments (.call n) {})) left behind := by
    refine hbehind.congr (Draft.completed_congr ?_ ?_ ?_ (fun t ht => ?_) _)
    · nofun
    · nofun
    · rfl
    · obtain ⟨hclose, hcomparison⟩ := hnext t ht
      obtain ⟨lexeme, p⟩ := t
      cases lexeme with
      | tagClose => exact absurd rfl hclose
      | comparison op => exact absurd rfl (hcomparison op)
      | _ => rfl
  refine (ends_arguments hcall (hfresh _)).bind ?_
  rintro args last ⟨p, rest, hlt, hlast⟩
  exact .pure ⟨_, ⟨.tagClose, p⟩ :: rest, hlt, hlast, awaitsClose_arguments⟩

/-- What a tag that starts with a name prints is decided by the token behind it. -/
theorem ends_tagItem_name {n : String} {p : Nat}
    (h : Follows dialect source depth (base.moveTo .tagStart) (⟨.identifier n, p⟩ :: left) descent)
    (hsection : base.opensSection dialect n = false) :
    Ends tagItem descent
      (Prints dialect source depth (⟨.identifier n, p⟩ :: left) base) (Fails dialect source) := by
  have hname : Pattern.accepts ⟨.identifier, none⟩ descent.cursor.current.lexeme = true := by
    rw [h.current_of_head? rfl]
    rfl
  refine .currentIs_bind ?_
  rw [if_pos hname]
  refine .upcomingIs_bind ?_
  have hahead := h.lookAhead
  have hupcoming (t : Token) (ht : t ∈ left.head?) : descent.cursor.upcoming = t := by
    rw [h.upcoming_eq, List.tail_cons, show left.head? = some t from ht, Option.getD_some]
  split
  next hclose =>
    rw [accepts_kind] at hclose
    refine (ends_tagVariable hahead hsection fun t ht => ?_).mono fun _ _ hitem =>
      hitem.of_le (Nat.le_succ _)
    rw [hupcoming t ht] at hclose
    obtain ⟨lexeme, q⟩ := t
    cases lexeme <;> cases hclose
    rfl
  next hclose =>
    rw [accepts_kind] at hclose
    refine (ends_upcomingIsComparison hahead).bind ?_
    rintro holds next ⟨hnext, hholds⟩
    rw [Cursor.upcoming_lookAhead] at hholds
    split
    next hyes =>
      obtain ⟨op, hop⟩ := hholds.mp hyes
      rw [h.upcoming_eq] at hop
      cases left with
      | nil => cases hop
      | cons t rest =>
        obtain ⟨lexeme, q⟩ := t
        obtain rfl : lexeme = .comparison op := hop
        exact ends_printed_comparison hnext hsection
    next hno =>
      refine (ends_call hnext hsection fun t ht => ?_).mono fun _ _ hitem =>
        hitem.of_le (Nat.le_succ _)
      rw [hupcoming t ht] at hclose hholds
      exact ⟨fun hlexeme => hclose (hlexeme ▸ rfl), fun op hop => hno (hholds.mpr ⟨op, hop⟩)⟩

/-- What a tag that starts with no keyword prints. -/
theorem ends_tagItem (h : Follows dialect source depth (base.moveTo .tagStart) left descent)
    (hsection : StartsNoSection dialect base left) :
    Ends tagItem descent (Prints dialect source depth left base) (Fails dialect source) := by
  by_cases hname : descent.cursor.current.lexeme.kind = .identifier
  · obtain ⟨⟨lexeme, p⟩, rest, rfl, hkind⟩ :=
      h.exists_token (P := fun l => l.kind = .identifier) hname nofun
    cases lexeme with
    | identifier n => exact ends_tagItem_name h (hsection n p rfl)
    | _ => cases hkind
  · refine .currentIs_bind ?_
    rw [if_neg (mt accepts_kind.mp hname)]
    refine ends_printed (ends_primary h rfl (fun t ht v hv => ?_) fun t ht hnone => ?_)
    · rw [h.current_of_head? ht] at hname
      obtain ⟨lexeme, p⟩ := t
      rcases hv with n | (s | d)
      · exact absurd rfl hname
      · rfl
      · rfl
    · obtain ⟨lexeme, p⟩ := t
      cases lexeme with
      | identifier n => exact absurd (.name n) (hnone _)
      | string s => exact absurd (.literal (.string s)) (hnone _)
      | number d => exact absurd (.literal (.number d)) (hnone _)
      | _ => rfl

theorem ends_tag (h : Follows dialect source depth (base.moveTo .tagStart) left descent)
    (hsection : StartsNoSection dialect base left) :
    Ends tag descent (fun item => Reaches dialect source depth left (base.push item))
      (Fails dialect source) := by
  refine (ends_tagItem h hsection).bind ?_
  rintro item next ⟨draft, rest, hle, hnext, hclose⟩
  refine (ends_closeTag hnext hclose).bind ?_
  exact fun _ last hlast => .pure (hlast.of_le hle)

end Descent

end Stencil
