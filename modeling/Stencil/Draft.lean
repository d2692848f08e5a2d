/-
Templates under construction.

A `Draft` is what is known of a template when its tokens have been read up to some point: the
items so far, the blocks that are still open, and the `Spot` where the point lies in a tag.
Reading a token extends the draft or refuses the token:

* `Draft.extend`, `Draft.extendAll` — the draft with one token more, or with several; reading
  in two goes is reading in one (`extendAll_append`);
* `Draft.finish` — the template, if the source may end here, that is, outside of tags and with
  no block open (`finish_eq_ok_iff`).

A tag is decided by the token behind its first name: `}}` makes it a variable, an operator a
comparison, anything else a call.  In the same way a name among arguments is a key if `=`
follows it.  A tag that starts with a keyword of the innermost open block opens a section
instead.  So a draft never looks at a token twice, and never back.
-/
import Stencil.Dialect
import Stencil.Draft.OpenBlock
import Stencil.Draft.Spot
import Stencil.SyntaxError

namespace Stencil

/-- A template up to some point of its source. -/
structure Draft where
  /-- The items of the list that is being filled. -/
  items : Array Item := #[]
  /-- The open blocks, the innermost first. -/
  blocks : List OpenBlock := []
  spot : Spot := .outside

namespace Draft

/-- The draft at another spot. -/
def moveTo (draft : Draft) (spot : Spot) : Draft :=
  { draft with spot }

/-- The draft with one item more, outside of tags. -/
def push (draft : Draft) (item : Item) : Draft :=
  { draft with items := draft.items.push item, spot := .outside }

/-- A token that cannot stand at the draft's spot. -/
def refuse (draft : Draft) (token : Token) : Except Fault Draft :=
  .error (.unexpected ⟨draft.spot.wanted, none⟩ token)

/-- Whether a tag that starts with `name` opens a section of the innermost open block. -/
def opensSection (draft : Draft) (dialect : Dialect) (name : String) : Bool :=
  draft.blocks.head?.any fun block => dialect.isSectionKeyword block.name name

/-- The draft behind the `}}` that ends a list of arguments. -/
def closeArguments (draft : Draft) (owner : ArgumentOwner) (args : Arguments) : Draft :=
  match owner with
  | .call name => draft.push (.call ⟨name, args⟩)
  | .block name =>
    { items := #[]
      blocks := { name, arguments := args, outer := draft.items } :: draft.blocks }
  | .keyword name =>
    match draft.blocks with
    | [] => draft.moveTo .outside
    | block :: outer =>
      { items := #[]
        blocks := { block with filling := block.filling.next draft.items name args } :: outer }

/-- The draft behind the `}}` of a close tag. -/
def closeBlock (draft : Draft) : Draft :=
  match draft.blocks with
  | [] => draft.moveTo .outside
  | block :: outer =>
    { items := block.outer.push (.block (block.close draft.items)), blocks := outer }

/-- The draft behind a value that is complete. -/
def settle (draft : Draft) (destination : Destination) (value : Value) : Draft :=
  match destination with
  | .tag => draft.moveTo (.tagEnd value)
  | .argument owner args key? => draft.moveTo (.arguments owner (args.add key? value))

/-- A token outside of tags. -/
def extendOutside (dialect : Dialect) (draft : Draft) (token : Token) : Except Fault Draft :=
  match token.lexeme with
  | .text content => .ok (draft.push (.text content))
  | .tagOpen => .ok (draft.moveTo .tagStart)
  | .blockOpen =>
    -- The block to come is not among the open ones yet.
    if draft.blocks.length < dialect.maxDepth then .ok (draft.moveTo .blockStart)
    else .error ⟨.nestedTooDeep dialect.maxDepth, token.position⟩
  | .blockClose => .ok (draft.moveTo (.closeStart token.position))
  | _ => draft.refuse token

/-- A token between arguments. -/
def extendArguments (draft : Draft) (owner : ArgumentOwner) (args : Arguments) (token : Token) :
    Except Fault Draft :=
  match token.lexeme with
  | .tagClose => .ok (draft.closeArguments owner args)
  | .identifier name => .ok (draft.moveTo (.argumentName owner args name))
  | .string text => .ok (draft.moveTo (.value (.argument owner args none) (.string text)))
  | .number digits => .ok (draft.moveTo (.value (.argument owner args none) (.number digits)))
  | _ => draft.refuse token

/-- A token behind a value that is no comparison. -/
def extendValue (draft : Draft) (destination : Destination) (value : Value) (token : Token) :
    Except Fault Draft :=
  match token.lexeme, destination with
  -- Only here can an operator stand: neither side of a comparison is a comparison.
  | .comparison op, _ => .ok (draft.moveTo (.operator destination op value))
  | _, .argument owner args key? => draft.extendArguments owner (args.add key? value) token
  | .tagClose, .tag => .ok (draft.push (.expression value))
  | _, .tag => draft.refuse token

/-- A token behind `{{/`. -/
def extendClose (draft : Draft) (position : Nat) (token : Token) : Except Fault Draft :=
  match token.lexeme, draft.blocks with
  | .identifier name, [] => .error ⟨.strayClose name, position⟩
  | .identifier name, block :: _ =>
    if name = block.name then .ok (draft.moveTo .closeEnd)
    else .error ⟨.mismatchedClose block.name name, position⟩
  | _, _ => draft.refuse token

/-- The draft with one token more. -/
def extend (dialect : Dialect) (draft : Draft) (token : Token) : Except Fault Draft :=
  match draft.spot with
  | .outside => draft.extendOutside dialect token
  | .tagStart =>
    match token.lexeme with
    | .identifier name =>
      if draft.opensSection dialect name then .ok (draft.moveTo (.arguments (.keyword name) {}))
      else .ok (draft.moveTo (.tagName name))
    | .string text => .ok (draft.moveTo (.value .tag (.string text)))
    | .number digits => .ok (draft.moveTo (.value .tag (.number digits)))
    | _ => draft.refuse token
  | .tagName name =>
    match token.lexeme with
    | .tagClose => .ok (draft.push (.expression (.variable name)))
    | .comparison op => .ok (draft.moveTo (.operator .tag op (.variable name)))
    -- Anything else is the first argument of a call.
    | _ => draft.extendArguments (.call name) {} token
  | .value destination value => draft.extendValue destination value token
  | .operator destination op left =>
    match token.lexeme with
    | .identifier name => .ok (draft.settle destination (.comparison op left (.variable name)))
    | .string text => .ok (draft.settle destination (.comparison op left (.string text)))
    | _ => draft.refuse token
  | .tagEnd value =>
    match token.lexeme with
    | .tagClose => .ok (draft.push (.expression value))
    | _ => draft.refuse token
  | .arguments owner args => draft.extendArguments owner args token
  | .argumentName owner args name =>
    match token.lexeme with
    | .assign => .ok (draft.moveTo (.argumentKey owner args name))
    | _ => draft.extendValue (.argument owner args none) (.variable name) token
  | .argumentKey owner args key =>
    let destination := Destination.argument owner args (some key)
    match token.lexeme with
    | .identifier name => .ok (draft.moveTo (.value destination (.variable name)))
    | .string text => .ok (draft.moveTo (.value destination (.string text)))
    | .number digits => .ok (draft.moveTo (.value destination (.number digits)))
    | _ => draft.refuse token
  | .blockStart =>
    match token.lexeme with
    | .identifier name => .ok (draft.moveTo (.arguments (.block name) {}))
    | _ => draft.refuse token
  | .closeStart position => draft.extendClose position token
  | .closeEnd =>
    match token.lexeme with
    | .tagClose => .ok draft.closeBlock
    | _ => draft.refuse token

/-- The template of a draft whose source ends at the byte offset `position`. -/
def finish (draft : Draft) (position : Nat) : Except Fault Template :=
  match draft.spot, draft.blocks with
  | .outside, [] => .ok ⟨draft.items.toList⟩
  | .outside, _ :: _ => .error (.unexpected ⟨.blockClose, none⟩ ⟨.endOfInput, position⟩)
  | spot, _ => .error (.unexpected ⟨spot.wanted, none⟩ ⟨.endOfInput, position⟩)

/-- The draft with more tokens, or the fault of the first that is refused. -/
def extendAll (dialect : Dialect) (draft : Draft) (tokens : List Token) : Except Fault Draft :=
  tokens.foldlM (extend dialect) draft

@[simp] theorem extendAll_nil (dialect : Dialect) (draft : Draft) :
    draft.extendAll dialect [] = .ok draft := rfl

theorem extendAll_cons (dialect : Dialect) (draft : Draft) (token : Token) (tokens : List Token) :
    draft.extendAll dialect (token :: tokens) =
      (draft.extend dialect token >>= fun next => next.extendAll dialect tokens) := by
  rw [extendAll, List.foldlM_cons]
  rfl

/-- A draft remembers all that matters of the tokens before it. -/
theorem extendAll_append (dialect : Dialect) (draft : Draft) (as bs : List Token) :
    draft.extendAll dialect (as ++ bs) =
      (draft.extendAll dialect as >>= fun next => next.extendAll dialect bs) := by
  rw [extendAll, List.foldlM_append]
  rfl

/-- A source may end only outside of tags and with no block open. -/
theorem finish_eq_ok_iff {draft : Draft} {position : Nat} {template : Template} :
    draft.finish position = .ok template ↔
      draft.spot = .outside ∧ draft.blocks = [] ∧ template.items = draft.items.toList := by
  obtain ⟨items⟩ := template
  rw [finish]
  constructor
  · intro h
    split at h
    next hspot hblocks =>
      have heq : (⟨draft.items.toList⟩ : Template) = ⟨items⟩ := Except.ok.inj h
      exact ⟨hspot, hblocks, (Template.mk.inj heq).symm⟩
    next => cases h
    next => cases h
  · rintro ⟨hspot, hblocks, hitems⟩
    rw [hspot, hblocks]
    exact congrArg (fun l => Except.ok (Template.mk l)) (Eq.symm hitems)

end Draft

end Stencil
