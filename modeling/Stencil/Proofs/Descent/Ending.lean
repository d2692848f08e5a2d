/-
Blocks by descent, and the end of every descent.

Items, blocks and sections are read by actions that call each other.  What bounds them is not how
they call each other but the tokens that are left: a list of items is read from behind a tag, and
each of its rounds takes a token.  So all is shown for lists of items where fewer than `n` tokens
are left (`Descent.ItemsEnd`), and blocks and sections from that.

* `ends_sections`, `ends_block` — if lists of items end, so do the sections of a block and the
  block;
* `ends_items_round`, `itemsEnd` — if shorter lists of items end, so do those with a token more, and
  hence all;
* `Template.descend_ends` — the descent through a source ends, with what the source makes.
-/
import Mathlib
import Stencil.Proofs.Descent.Tags

namespace Stencil

open Text (byteLength)

/-- A name behind `{{/` that is not the innermost open block's. -/
theorem Draft.extend_closeStart_of_ne {dialect : Dialect} {draft : Draft} {n : String} {p q : Nat}
    (hother : draft.blocks.head?.map OpenBlock.name ≠ some n) :
    (draft.moveTo (.closeStart p)).extend dialect ⟨.identifier n, q⟩ =
      .error ⟨(draft.blocks.head?.map OpenBlock.name).elim (.strayClose n) (.mismatchedClose · n),
        p⟩ := by
  obtain ⟨items, blocks, spot⟩ := draft
  cases blocks with
  | nil => rfl
  | cons block outer => exact if_neg fun hn => hother (congrArg some hn.symm)

theorem OpenBlock.close_of_sections {block : OpenBlock} {filling : Filling} {items : Array Item}
    {main : Section} {others : Array Section} (h : filling.sections items = (main, others)) :
    ({ block with filling } : OpenBlock).close items =
      ⟨block.name, block.arguments, main, others.toList⟩ := by
  unfold close
  rw [h]

namespace Descent

variable {dialect : Dialect} {source : String} {depth : Nat} {draft draft' base : Draft}
  {left : List Token} {token : Token} {descent : Descent}

/-! ### Close tags -/

/-- A `{{/` that does not close the innermost open block is a fault of the source. -/
theorem ends_closeError {α : Type} {post : α → Descent → Prop} {block? : Option String} {p : Nat}
    (h : Follows dialect source depth draft (⟨.blockClose, p⟩ :: left) descent)
    (hspot : draft.spot = .outside) (hblock : draft.blocks.head?.map OpenBlock.name = block?)
    (hother : ∀ t ∈ left.head?, ∀ n ∈ block?, t.lexeme ≠ .identifier n) :
    Ends (closeError block?) descent post (Fails dialect source) := by
  have htoken : draft.extend dialect ⟨.blockClose, p⟩ = .ok (draft.moveTo (.closeStart p)) :=
    Draft.extend_outside hspot _
  refine (ends_advance h htoken).bind ?_
  rintro _ next ⟨rfl, hnext, -⟩
  refine .current_bind ?_
  by_cases hname : next.cursor.current.lexeme.kind = .identifier
  · rw [if_pos hname]
    obtain ⟨⟨lexeme, q⟩, rest, rfl, hkind⟩ :=
      hnext.exists_token (P := fun l => l.kind = .identifier) hname (by rintro ⟨⟩)
    cases lexeme with
    | identifier n =>
      rw [hnext.current_of_head? rfl]
      refine .error rfl ?_
      rw [Cursor.errorAt, hnext.standsAt.source_eq]
      refine hnext.fails ?_
      rw [Draft.completed, Draft.extendAll_cons, Draft.extend_closeStart_of_ne, hblock]
      · rfl
      · exact fun hn => hother _ rfl n (hblock.symm.trans hn) rfl
    | _ => cases hkind
  · rw [if_neg hname]
    refine ends_unexpected hnext (by rintro ⟨⟩) rfl fun t ht => ?_
    rw [hnext.current_of_head? ht] at hname
    obtain ⟨lexeme, q⟩ := t
    cases lexeme with
    | identifier n => exact absurd rfl hname
    | _ => rfl

variable {blocks outer : List OpenBlock} {block : OpenBlock} {done : Array Item}

/-- The items directly inside the innermost of `blocks` have been read. -/
inductive Listed (dialect : Dialect) (source : String) (left : List Token)
    (blocks : List OpenBlock) : Array Item × Stop → Descent → Prop
  | endOfInput {all : Array Item} {descent : Descent} :
      Follows dialect source blocks.length ⟨all, blocks, .outside⟩ [] descent →
      Listed dialect source left blocks (all, .endOfInput) descent
  | blockClose {all : Array Item} {descent : Descent} {name : String} {p q : Nat}
      {rest : List Token} :
      blocks.head?.map OpenBlock.name = some name → rest.length < left.length →
      Follows dialect source blocks.length ⟨all, blocks, .outside⟩
        (⟨.blockClose, p⟩ :: ⟨.identifier name, q⟩ :: rest) descent →
      Listed dialect source left blocks (all, .blockClose) descent
  | keyword {all : Array Item} {descent : Descent} {keyword : String} {args : Arguments} :
      blocks ≠ [] → Reaches dialect source blocks.length left
        (Draft.closeArguments ⟨all, blocks, .outside⟩ (.keyword keyword) args) descent →
      Listed dialect source left blocks (all, .keyword (.named keyword args)) descent

theorem Listed.of_le {rest : List Token} {result : Array Item × Stop}
    (h : Listed dialect source rest blocks result descent) (hle : rest.length ≤ left.length) :
    Listed dialect source left blocks result descent := by
  cases h with
  | endOfInput h => exact .endOfInput h
  | blockClose hname hlt h => exact .blockClose hname (hlt.trans_le hle) h
  | keyword hblocks h => exact .keyword hblocks (h.of_le hle)

/-- Reading items ends where fewer than `n` tokens are left. -/
def ItemsEnd (dialect : Dialect) (source : String) (n : Nat) : Prop :=
  ∀ (blocks : List OpenBlock) {done : Array Item} {left : List Token} {descent : Descent},
    left.length < n →
    Follows dialect source blocks.length ⟨done, blocks, .outside⟩ left descent →
    descent.Fresh .items →
    Ends (dialect.readItems (blocks.head?.map OpenBlock.name) done) descent
      (Listed dialect source left blocks) (Fails dialect source)

/-- The block has been read up to where its close tag has to be. -/
inductive Filled (dialect : Dialect) (source : String) (left : List Token) (block : OpenBlock)
    (outer : List OpenBlock) (main : Section) (others : Array Section) (descent : Descent) : Prop
  | endOfInput {all : Array Item} {filling : Filling} :
      filling.sections all = (main, others) →
      Follows dialect source (outer.length + 1) ⟨all, { block with filling } :: outer, .outside⟩ []
        descent → Filled dialect source left block outer main others descent
  | blockClose {all : Array Item} {filling : Filling} {p q : Nat} {rest : List Token} :
      filling.sections all = (main, others) → rest.length < left.length →
      Follows dialect source (outer.length + 1) ⟨all, { block with filling } :: outer, .outside⟩
        (⟨.blockClose, p⟩ :: ⟨.identifier block.name, q⟩ :: rest) descent →
      Filled dialect source left block outer main others descent

theorem Filled.of_le {rest : List Token} {main : Section} {others : Array Section}
    (h : Filled dialect source rest block outer main others descent)
    (hle : rest.length ≤ left.length) :
    Filled dialect source left block outer main others descent := by
  cases h with
  | endOfInput hsections h => exact .endOfInput hsections h
  | blockClose hsections hlt h => exact .blockClose hsections (hlt.trans_le hle) h

variable {n : Nat}

/-- The loop over the sections of a block ends. -/
theorem ends_sections (block : OpenBlock) (hitems : ItemsEnd dialect source n)
    (hle : left.length ≤ n) {filling : Filling} {all : Array Item} {stop : Stop} {main : Section}
    {others : Array Section}
    (h : Listed dialect source left ({ block with filling } :: outer) (all, stop) descent)
    (hothers : filling.sections all = (main, others)) :
    Ends (dialect.readSections block.name stop others) descent
      (Filled dialect source left block outer main) (Fails dialect source) := by
  induction hn : left.length using Nat.strong_induction_on
    generalizing left filling all stop others descent with
  | _ m ih =>
    subst hn
    rw [Dialect.readSections.eq_def]
    cases h with
    | endOfInput h => exact .pure (.endOfInput hothers h)
    | blockClose hname hlt h =>
      obtain rfl := Option.some.inj hname
      exact .pure (.blockClose hothers hlt h)
    | @keyword _ _ keyword args _ h =>
      obtain ⟨rest, hlt, h, hfresh⟩ := h
      refine (ends_visit h (hfresh _)).bind ?_
      rintro _ next ⟨hnext, hfresh'⟩
      refine (hitems ({ block with filling := filling.next all keyword args } :: outer)
        (hlt.trans_le hle) hnext (hfresh' _ nofun (hfresh _))).bind ?_
      rintro ⟨body, stop⟩ last hlast
      have hbody : (filling.next all keyword args).sections body =
          (main, others.push ⟨some keyword, args, body.toList⟩) := by
        rw [Filling.next, hothers]
        rfl
      refine (ih _ hlt (hlt.le.trans hle) hlast hbody rfl).mono ?_
      exact fun _ _ hfilled => hfilled.of_le hlt.le

/-- The close tag of a block, or the lack of one. -/
theorem ends_closeBlock {main : Section} {others : Array Section}
    (h : Filled dialect source left block outer main others descent) :
    Ends (closeBlock block.name) descent
      (fun _ => Reaches dialect source (outer.length + 1) left
        ⟨block.outer.push (.block ⟨block.name, block.arguments, main, others.toList⟩), outer,
          .outside⟩)
      (Fails dialect source) := by
  cases h with
  | endOfInput hsections h =>
    have hmissing : Ends (expect ⟨.blockClose, none⟩) descent (fun _ _ => False)
        (Fails dialect source) := by
      refine .expect_refused ?_ ?_
      · rw [h.current_eq]
        rfl
      · rw [Cursor.unexpected, h.standsAt.source_eq, h.current_eq]
        exact h.fails rfl
    refine hmissing.bind ?_
    rintro _ _ ⟨⟩
  | @blockClose all filling p q rest hsections hlt h =>
    refine .expect_bind ?_ ?_
    · rw [h.current_of_head? rfl]
      rfl
    refine (ends_advance h rfl).bind ?_
    rintro _ next ⟨-, hnext, -⟩
    refine .expect_bind ?_ ?_
    · rw [hnext.current_of_head? rfl]
      exact Lexeme.pattern_accepts _
    refine (ends_advance hnext (if_pos rfl)).bind ?_
    rintro _ behind ⟨-, hbehind, -⟩
    have hclose : Draft.AwaitsClose dialect ⟨all, { block with filling } :: outer, .closeEnd⟩ rest
        ⟨block.outer.push (.block ⟨block.name, block.arguments, main, others.toList⟩), outer,
          .outside⟩ := by
      rw [← OpenBlock.close_of_sections hsections]
      refine ⟨by rintro ⟨⟩, rfl, fun _ => rfl, fun t _ hlexeme => ?_⟩
      obtain ⟨lexeme, q⟩ := t
      cases lexeme with
      | tagClose => exact absurd rfl hlexeme
      | _ => rfl
    exact (ends_closeTag hbehind hclose).mono fun _ _ hlast => hlast.of_le hlt.le

/-- A block behind its `{{#`. -/
theorem ends_block (hitems : ItemsEnd dialect source n) (hle : left.length ≤ n)
    (h : Follows dialect source (blocks.length + 1)
      (Draft.moveTo ⟨done, blocks, .outside⟩ .blockStart) left descent)
    (hfresh : ∀ site, descent.Fresh site) :
    Ends dialect.readBlock descent
      (fun inner => Reaches dialect source (blocks.length + 1) left
        ⟨done.push (.block inner), blocks, .outside⟩)
      (Fails dialect source) := by
  rw [Dialect.readBlock]
  refine (ends_visit h (hfresh _)).bind ?_
  rintro _ start ⟨hstart, -⟩
  refine (ends_expect hstart nofun rfl fun t _ hkind => ?_).bind ?_
  · obtain ⟨lexeme, p⟩ := t
    cases lexeme with
    | identifier n => exact absurd rfl hkind
    | _ => rfl
  rintro _ _ ⟨rfl, ⟨lexeme, p⟩, rest, rfl, hlexeme⟩
  cases lexeme <;> cases hlexeme
  next name =>
  refine (ends_advance hstart rfl).bind ?_
  rintro _ behind ⟨rfl, hbehind, hfresh⟩
  refine ends_arguments_closeTag hbehind (hfresh _) ?_
  rintro args inside ⟨body, hlt, hinside, hfresh⟩
  have hbody : body.length < n := (hlt.trans (Nat.lt_succ_self _)).trans_le hle
  refine (hitems (⟨name, args, done, .ofMain⟩ :: blocks) hbody hinside (hfresh _)).bind ?_
  rintro ⟨main, stop⟩ next hnext
  refine (ends_sections ⟨name, args, done, .ofMain⟩ hitems hbody.le hnext rfl).bind ?_
  rintro others last hlast
  refine (ends_closeBlock hlast).bind ?_
  exact fun _ final hfinal => .pure (hfinal.of_le (hlt.le.trans (Nat.le_succ _)))

/-- A block with its `{{#`. -/
theorem ends_nested {p : Nat} (hitems : ItemsEnd dialect source n) (hle : left.length ≤ n)
    (h : Follows dialect source blocks.length ⟨done, blocks, .outside⟩ (⟨.blockOpen, p⟩ :: left)
      descent) :
    Ends dialect.readNested descent
      (fun inner => Reaches dialect source blocks.length left
        ⟨done.push (.block inner), blocks, .outside⟩)
      (Fails dialect source) := by
  rw [Dialect.readNested]
  refine .get_bind ?_
  show Ends (if dialect.maxDepth ≤ descent.depth then _ else _) _ _ _
  rw [h.depth_eq]
  by_cases hdepth : dialect.maxDepth ≤ blocks.length
  · rw [if_pos hdepth]
    refine .get_bind (.throw ?_)
    rw [Cursor.error, Cursor.errorAt, h.standsAt.source_eq, h.current_of_head? rfl]
    refine h.fails ?_
    have htoken : (⟨done, blocks, .outside⟩ : Draft).extend dialect ⟨.blockOpen, p⟩ =
        .error ⟨.nestedTooDeep dialect.maxDepth, p⟩ :=
      if_neg (Nat.not_lt_of_le hdepth)
    rw [Draft.completed, Draft.extendAll_cons, htoken]
    rfl
  · rw [if_neg hdepth]
    have htoken : (⟨done, blocks, .outside⟩ : Draft).extend dialect ⟨.blockOpen, p⟩ =
        .ok (Draft.moveTo ⟨done, blocks, .outside⟩ .blockStart) :=
      if_pos (Nat.lt_of_not_le hdepth)
    refine (ends_advance h htoken).bind ?_
    rintro _ start ⟨-, hstart, hfresh⟩
    refine .step rfl ((ends_block hitems hle hstart.enter hfresh).bind ?_)
    rintro inner last ⟨rest, hlt, hlast, hfresh⟩
    exact .step rfl (.pure ⟨rest, hlt, hlast.leave, hfresh⟩)

theorem accepts_identifier {name : String} {lexeme : Lexeme} :
    Pattern.accepts ⟨.identifier, some name⟩ lexeme = true ↔ lexeme = .identifier name := by
  cases lexeme with
  | _ => simp [Pattern.accepts, Lexeme.kind, Lexeme.value?]

/-- A `{{/` among the items has to close the innermost open block. -/
theorem ends_expectClose {block? : Option String} {p : Nat}
    (h : Follows dialect source depth draft (⟨.blockClose, p⟩ :: left) descent)
    (hspot : draft.spot = .outside) (hblock : draft.blocks.head?.map OpenBlock.name = block?) :
    Ends (expectClose block?) descent
      (fun _ next => ∃ name q rest, block? = some name ∧ left = ⟨.identifier name, q⟩ :: rest ∧
        Follows dialect source depth draft (⟨.blockClose, p⟩ :: left) next)
      (Fails dialect source) := by
  cases block? with
  | none => exact ends_closeError h hspot hblock nofun
  | some name =>
    refine .upcomingIs_bind ?_
    have hahead := h.lookAhead
    rw [h.upcoming_eq, List.tail_cons]
    by_cases hname : (left.head?.getD ⟨.endOfInput, byteLength source.toList⟩).lexeme =
        .identifier name
    · rw [if_pos (accepts_identifier.mpr hname)]
      cases left with
      | nil => cases hname
      | cons t rest =>
        obtain ⟨lexeme, q⟩ := t
        obtain rfl : lexeme = .identifier name := hname
        exact .pure ⟨name, q, rest, rfl, rfl, hahead⟩
    · rw [if_neg (mt accepts_identifier.mp hname)]
      refine ends_closeError hahead hspot hblock fun t ht n hn => ?_
      obtain rfl : name = n := Option.some.inj hn
      rwa [show left.head? = some t from ht] at hname

/-- One round of the loop over items. -/
theorem ends_items_round (hitems : ItemsEnd dialect source n) (hle : left.length ≤ n)
    (h : Follows dialect source blocks.length ⟨done, blocks, .outside⟩ left descent)
    (hfresh : descent.Fresh .items) :
    Ends (dialect.readItems (blocks.head?.map OpenBlock.name) done) descent
      (Listed dialect source left blocks) (Fails dialect source) := by
  -- What is left of the loop, once an item has been read.
  have hrest (all : Array Item) (next : Descent)
      (hnext : Reaches dialect source blocks.length left ⟨all, blocks, .outside⟩ next) :
      Ends (dialect.readItems (blocks.head?.map OpenBlock.name) all) next
        (Listed dialect source left blocks) (Fails dialect source) := by
    obtain ⟨rest, hlt, hnext, hfresh⟩ := hnext
    exact (hitems blocks (hlt.trans_le hle) hnext (hfresh _)).mono fun _ _ hlisted =>
      hlisted.of_le hlt.le
  rw [Dialect.readItems.eq_def]
  refine (ends_visit h hfresh).bind ?_
  rintro _ start ⟨hstart, -⟩
  refine .current_bind ?_
  rw [hstart.current_eq]
  cases left with
  | nil => exact .pure (.endOfInput hstart)
  | cons t rest =>
    obtain ⟨lexeme, p⟩ := t
    cases lexeme with
    | endOfInput => exact absurd rfl (h.ne_endOfInput List.mem_cons_self)
    | text content =>
      refine (ends_advance hstart rfl).bind ?_
      rintro _ next ⟨rfl, hnext⟩
      exact hrest _ next ⟨rest, Nat.lt_succ_self _, hnext⟩
    | tagOpen =>
      refine (ends_advance hstart rfl).bind ?_
      rintro _ behind ⟨-, hbehind, -⟩
      refine (ends_heading? hbehind rfl).bind ?_
      rintro heading? next hheading
      cases heading? with
      | some heading =>
        obtain ⟨hblocks, keyword, args, rfl, hnext⟩ := hheading
        exact .pure (.keyword hblocks (hnext.of_le (Nat.le_succ _)))
      | none =>
        obtain ⟨hnext, hsection⟩ := hheading
        refine (ends_tag hnext hsection).bind ?_
        exact fun item next hnext => hrest _ next (hnext.of_le (Nat.le_succ _))
    | blockOpen =>
      refine (ends_nested hitems (Nat.le_of_succ_le hle) hstart).bind ?_
      exact fun inner next hnext => hrest _ next (hnext.of_le (Nat.le_succ _))
    | blockClose =>
      refine (ends_expectClose hstart rfl rfl).bind ?_
      rintro _ next ⟨name, q, rest, hname, rfl, hnext⟩
      exact .pure (.blockClose hname (Nat.lt_succ_of_lt (Nat.lt_succ_self _)) hnext)
    | _ =>
      -- Outside of tags no such token can stand, and the draft refuses it too.
      refine .unexpected ?_
      rw [Cursor.unexpected, hstart.standsAt.source_eq, hstart.current_eq]
      exact hstart.fails rfl

/-- Reading a list of items ends. -/
theorem itemsEnd (dialect : Dialect) (source : String) (n : Nat) : ItemsEnd dialect source n := by
  induction n with
  | zero => exact fun _ _ _ _ hlt => absurd hlt (Nat.not_lt_zero _)
  | succ n ih =>
    exact fun _ _ _ _ hlt h hfresh => ends_items_round ih (Nat.le_of_lt_succ hlt) h hfresh

/-- Reading a whole template ends. -/
theorem ends_template (dialect : Dialect) (source : String) :
    Ends dialect.readTemplate { cursor := .ofSource source }
      (fun t => Settles dialect source (.ok t)) (Fails dialect source) := by
  have hstart := Follows.start dialect source
  refine (itemsEnd dialect source _ [] (Nat.lt_succ_self _) hstart nofun).bind ?_
  rintro ⟨all, stop⟩ next hlisted
  cases hlisted with
  | blockClose hname => cases hname
  | keyword hblocks => exact absurd rfl hblocks
  | endOfInput h =>
    refine .expect_bind ?_ (.pure (h.settles rfl))
    rw [h.current_eq]
    rfl

end Descent

/-- Reading a template ends, whatever its source is, whichever keywords there are and however deep
blocks may be, for every step makes progress.

A scanner, wherever it stands, meets the end of the input or moves on.  So there are no more tokens
than bytes in front of the end of the input, and behind them is the end of the input, forever.

The descent through a source ends, with the template of the source or with its syntax error.  Its
cursor is then behind the tokens that it has passed.  These are tokens of the source in their order,
and the end of the input is not among them, so that it has moved on as often as there are tokens, at
most.  In no two rounds of a loop has it been at one place: in the later one it is behind a token
more at least.  This holds of the loops over items, over arguments and over the sections of a block,
and it holds of the starts of blocks, so that a block starts behind the start of every block around
it. -/
theorem Template.descend_ends (dialect : Dialect) (source : String) :
    (∀ s : Scanner, s.next.1.lexeme = .endOfInput ∨ s.offset < s.next.2.offset) ∧
    (∀ s : Scanner, s.tokens.length ≤ byteLength s.rest ∧
      ∀ i, (s.token i).lexeme = .endOfInput ↔ s.tokens.length ≤ i) ∧
    ∃ descent : Descent,
      Template.descend dialect source = some (Template.ofSource dialect source, descent) ∧
      descent.cursor.current = (Scanner.ofSource source).token descent.passed.length ∧
      descent.passed <+: (Scanner.ofSource source).tokens ∧
      descent.passed.length ≤ (Scanner.ofSource source).tokens.length ∧
      descent.visits.Pairwise fun v w => v.site = w.site → v.place < w.place := by
  refine ⟨fun s => ?_, fun s => ⟨s.length_tokens_le, s.lexeme_token_eq_endOfInput_iff⟩, ?_⟩
  · by_cases hend : s.next.1.lexeme = .endOfInput
    · exact .inl hend
    · exact .inr (Scanner.offset_lt_next hend)
  · cases Descent.ends_template dialect source with
    | value hrun h =>
      exact ⟨_, h.result_eq ▸ hrun, h.standsAt.current_eq, h.passed, h.passed.length_le, h.visits⟩
    | error hrun h =>
      exact ⟨_, h.result_eq ▸ hrun, h.standsAt.current_eq, h.passed, h.passed.length_le, h.visits⟩

open Descent in
/-- The block starts behind its `{{#`, and its section behind the tag with the keyword.  The last
round of a list of items finds none: the first list of the block ends at the keyword, the second one
at the close tag and the outermost one where the source does. -/
example :
    (Template.descend (({} : Dialect).addSection "b" "else") "{{#b}}x{{else}}{{f y}}{{/b}}").map
        (·.2.visits) =
      some [⟨.items, 0⟩, ⟨.block, 1⟩, ⟨.items, 3⟩, ⟨.items, 4⟩, ⟨.sections, 7⟩, ⟨.items, 7⟩,
        ⟨.arguments, 9⟩, ⟨.items, 11⟩, ⟨.items, 14⟩] := by
  cbv

end Stencil
