/-
Templates read elsewhere.

What a token does to a draft depends neither on where the token stands nor on the items in front
of those that have been read.  `draft.behind front f` is the draft as it is when the items
`front` come first in the outermost list, and all that stood at an offset `n` stands at `f n`.

* `Draft.extend_behind`, `Draft.extendAll_behind` — a token, and then a list of tokens, does to
  that draft what it does to the draft itself;
* `Draft.completed_behind` — so both lead to the same template, behind the items `front`, or to the
  same fault in its new place.
-/
import Stencil.Proofs.Refusal

namespace Stencil

variable {front : Array Item} {f : Nat → Nat}

/-- The token with its offset moved. -/
def Token.move (f : Nat → Nat) (token : Token) : Token :=
  { token with position := f token.position }

/-- The fault with its offset moved. -/
def Fault.move (f : Nat → Nat) (fault : Fault) : Fault :=
  { fault with position := f fault.position }

/-- The spot with its offset moved, if it knows one. -/
def Spot.move (f : Nat → Nat) : Spot → Spot
  | .closeStart position => .closeStart (f position)
  | spot => spot

@[simp] theorem Token.lexeme_move (token : Token) : (token.move f).lexeme = token.lexeme := rfl

@[simp] theorem Spot.wanted_move (spot : Spot) : (spot.move f).wanted = spot.wanted := by
  cases spot <;> rfl

namespace Draft

/-- The items of a list in which the innermost of the blocks stands, or of the outermost list if
there is none.  Only the latter has anything in front of it. -/
def itemsBehind (front items : Array Item) : List OpenBlock → Array Item
  | [] => front ++ items
  | _ :: _ => items

/-- The open blocks when the items `front` come first in the outermost list. -/
def blocksBehind (front : Array Item) : List OpenBlock → List OpenBlock
  | [] => []
  | block :: outer =>
    { block with outer := itemsBehind front block.outer outer } :: blocksBehind front outer

/-- The draft when the items `front` come first in the outermost list and offsets are moved. -/
def behind (front : Array Item) (f : Nat → Nat) (draft : Draft) : Draft where
  items := itemsBehind front draft.items draft.blocks
  blocks := blocksBehind front draft.blocks
  spot := draft.spot.move f

/-- A draft or a fault, each in its new place. -/
def outcomeBehind (front : Array Item) (f : Nat → Nat) :
    Except Fault Draft → Except Fault Draft
  | .ok draft => .ok (draft.behind front f)
  | .error fault => .error (fault.move f)

variable {draft : Draft} {token : Token}

@[simp] theorem itemsBehind_push (items : Array Item) (item : Item) (blocks : List OpenBlock) :
    itemsBehind front (items.push item) blocks = (itemsBehind front items blocks).push item := by
  cases blocks with
  | nil => exact Array.append_push
  | cons block outer => rfl

@[simp] theorem length_blocksBehind (blocks : List OpenBlock) :
    (blocksBehind front blocks).length = blocks.length := by
  induction blocks with
  | nil => rfl
  | cons block outer ih => rw [blocksBehind, List.length_cons, List.length_cons, ih]

theorem push_behind (draft : Draft) (item : Item) :
    (draft.push item).behind front f = (draft.behind front f).push item := by
  simp only [push, behind, itemsBehind_push, Spot.move]

theorem opensSection_behind (dialect : Dialect) (draft : Draft) (name : String) :
    (draft.behind front f).opensSection dialect name = draft.opensSection dialect name := by
  obtain ⟨items, blocks, spot⟩ := draft
  cases blocks <;> rfl

theorem closeArguments_behind (draft : Draft) (owner : ArgumentOwner) (args : Arguments) :
    (draft.closeArguments owner args).behind front f =
      (draft.behind front f).closeArguments owner args := by
  cases owner with
  | call name => exact push_behind draft _
  | block name => rfl
  | keyword name =>
    obtain ⟨items, blocks, spot⟩ := draft
    cases blocks <;> rfl

theorem closeBlock_behind (draft : Draft) :
    draft.closeBlock.behind front f = (draft.behind front f).closeBlock := by
  obtain ⟨items, blocks, spot⟩ := draft
  cases blocks with
  | nil => rfl
  | cons block outer =>
    -- The block is the same wherever it stands, and goes to the end of the list around it.
    simp only [closeBlock, behind, blocksBehind, itemsBehind_push, Spot.move]
    rfl

theorem settle_behind (draft : Draft) (destination : Destination) (value : Value) :
    (draft.settle destination value).behind front f =
      (draft.behind front f).settle destination value := by
  cases destination <;> rfl

theorem refuse_behind (draft : Draft) (token : Token) :
    (draft.behind front f).refuse (token.move f) = outcomeBehind front f (draft.refuse token) := by
  simp only [refuse, outcomeBehind, behind, Spot.wanted_move]
  rfl

/-! ### One token -/

theorem extendOutside_behind (dialect : Dialect) (draft : Draft) (token : Token) :
    (draft.behind front f).extendOutside dialect (token.move f) =
      outcomeBehind front f (draft.extendOutside dialect token) := by
  rw [extendOutside.eq_def, extendOutside.eq_def, Token.lexeme_move]
  cases token.lexeme with
  | text content => exact congrArg Except.ok (push_behind draft _).symm
  | tagOpen => rfl
  | blockOpen =>
    simp only [behind, length_blocksBehind]
    split
    next => rfl
    next => rfl
  | blockClose => rfl
  | _ => exact refuse_behind draft token

theorem extendArguments_behind (draft : Draft) (owner : ArgumentOwner) (args : Arguments)
    (token : Token) :
    (draft.behind front f).extendArguments owner args (token.move f) =
      outcomeBehind front f (draft.extendArguments owner args token) := by
  rw [extendArguments.eq_def, extendArguments.eq_def, Token.lexeme_move]
  cases token.lexeme with
  | tagClose => exact congrArg Except.ok (closeArguments_behind draft owner args).symm
  | identifier name => rfl
  | string text => rfl
  | number digits => rfl
  | _ => exact refuse_behind draft token

theorem extendValue_behind (draft : Draft) (destination : Destination) (value : Value)
    (token : Token) :
    (draft.behind front f).extendValue destination value (token.move f) =
      outcomeBehind front f (draft.extendValue destination value token) := by
  rw [extendValue.eq_def, extendValue.eq_def, Token.lexeme_move]
  cases destination with
  | tag =>
    cases token.lexeme with
    | comparison op => rfl
    | tagClose => exact congrArg Except.ok (push_behind draft _).symm
    | _ => exact refuse_behind draft token
  | argument owner args key? =>
    cases token.lexeme with
    | comparison op => rfl
    | _ => exact extendArguments_behind draft owner _ token

theorem extendClose_behind (draft : Draft) (position : Nat) (token : Token) :
    (draft.behind front f).extendClose (f position) (token.move f) =
      outcomeBehind front f (draft.extendClose position token) := by
  rw [extendClose.eq_def, extendClose.eq_def, Token.lexeme_move]
  cases token.lexeme with
  | identifier name =>
    obtain ⟨items, blocks, spot⟩ := draft
    cases blocks with
    | nil => rfl
    | cons block outer =>
      simp only [behind, blocksBehind]
      split
      next => rfl
      next => rfl
  | _ => exact refuse_behind draft token

/-- A token does to a draft what it does to the draft elsewhere. -/
theorem extend_behind (dialect : Dialect) (draft : Draft) (token : Token) :
    (draft.behind front f).extend dialect (token.move f) =
      outcomeBehind front f (draft.extend dialect token) := by
  have hrefuse := @refuse_behind front f draft token
  have hspot : (draft.behind front f).spot = draft.spot.move f := rfl
  rw [extend.eq_def, extend.eq_def, Token.lexeme_move, hspot]
  cases draft.spot with
  | outside => exact extendOutside_behind dialect draft token
  | tagStart =>
    cases token.lexeme with
    | identifier name =>
      simp only [Spot.move, opensSection_behind]
      split
      next => rfl
      next => rfl
    | string text => rfl
    | number digits => rfl
    | _ => exact hrefuse
  | tagName name =>
    cases token.lexeme with
    | tagClose => exact congrArg Except.ok (push_behind draft _).symm
    | comparison op => rfl
    | _ => exact extendArguments_behind draft (.call name) {} token
  | value destination value => exact extendValue_behind draft destination value token
  | operator destination op left =>
    cases token.lexeme with
    | identifier name => exact congrArg Except.ok (settle_behind draft destination _).symm
    | string text => exact congrArg Except.ok (settle_behind draft destination _).symm
    | _ => exact hrefuse
  | tagEnd value =>
    cases token.lexeme with
    | tagClose => exact congrArg Except.ok (push_behind draft _).symm
    | _ => exact hrefuse
  | arguments owner args => exact extendArguments_behind draft owner args token
  | argumentName owner args name =>
    cases token.lexeme with
    | assign => rfl
    | _ => exact extendValue_behind draft (.argument owner args none) (.variable name) token
  | argumentKey owner args key =>
    cases token.lexeme with
    | identifier name => rfl
    | string text => rfl
    | number digits => rfl
    | _ => exact hrefuse
  | blockStart =>
    cases token.lexeme with
    | identifier name => rfl
    | _ => exact hrefuse
  | closeStart position => exact extendClose_behind draft position token
  | closeEnd =>
    cases token.lexeme with
    | tagClose => exact congrArg Except.ok (closeBlock_behind draft).symm
    | _ => exact hrefuse

/-! ### Many tokens -/

/-- Tokens do to a draft what they do to the draft elsewhere. -/
theorem extendAll_behind (dialect : Dialect) (draft : Draft) (tokens : List Token) :
    (draft.behind front f).extendAll dialect (tokens.map (Token.move f)) =
      outcomeBehind front f (draft.extendAll dialect tokens) := by
  induction tokens generalizing draft with
  | nil => rfl
  | cons token tokens ih =>
    rw [List.map_cons, extendAll_cons, extendAll_cons, extend_behind]
    cases draft.extend dialect token with
    | error fault => rfl
    | ok next => exact ih next

/-- The template that the draft makes with more tokens, if the source ends behind them. -/
def completed (dialect : Dialect) (draft : Draft) (tokens : List Token) (position : Nat) :
    Except Fault Template := do
  let draft ← draft.extendAll dialect tokens
  draft.finish position

theorem finish_behind (draft : Draft) (position : Nat) :
    (draft.behind front f).finish (f position) =
      ((draft.finish position).map fun template => ⟨front.toList ++ template.items⟩).mapError
        (Fault.move f) := by
  obtain ⟨items, blocks, spot⟩ := draft
  cases spot with
  | outside =>
    cases blocks with
    | nil => exact congrArg (fun items => Except.ok (Template.mk items)) Array.toList_append
    | cons block outer => rfl
  | _ => cases blocks <;> rfl

/-- Tokens complete a draft alike elsewhere. -/
theorem completed_behind (dialect : Dialect) (draft : Draft) (tokens : List Token)
    (position : Nat) :
    (draft.behind front f).completed dialect (tokens.map (Token.move f)) (f position) =
      ((draft.completed dialect tokens position).map
        fun template => ⟨front.toList ++ template.items⟩).mapError (Fault.move f) := by
  rw [completed, completed, extendAll_behind]
  cases draft.extendAll dialect tokens with
  | error fault => rfl
  | ok next => exact finish_behind next position

end Draft

end Stencil
