/-
One tag in a template under construction.

What a token does to a draft depends on the spot of the draft and on the names of the open blocks,
and on nothing else that has been read.  So two drafts that differ in the arguments of one tag
(`Draft.DiffersAt`) stay so, token after token.

* `Draft.extend_kept`, `Draft.extendAll_kept` — a token, and then a list of tokens, leads on from
  two related drafts to related ones, or is refused by both, if the relation is `Kept` by all that
  can become of a draft;
* `Draft.kept_differsAt` — that two drafts differ in one tag is kept;
* `Draft.exists_reads_tag` — where a tag opens, any slots lead past it, and what is behind it
  differs in this tag only;
* `Template.ofTokens_exchange` — so where one list of slots can stand in a tag, so can every other
  one, and the templates differ in the arguments of this tag.
-/
import Stencil.Proofs.Grammar.Derived
import Stencil.Proofs.OneTag
import Stencil.Proofs.Relocation

namespace Stencil

open Grammar (Slots Collects)

/-! ### What tokens look at -/

namespace Draft

/-- Both outcomes are the same fault, or drafts that `R` relates. -/
inductive Outcomes (R : Draft → Draft → Prop) : Except Fault Draft → Except Fault Draft → Prop
  | fault (fault : Fault) : Outcomes R (.error fault) (.error fault)
  | draft {d d' : Draft} : R d d' → Outcomes R (.ok d) (.ok d')

/-- Whether `R` relates drafts that agree in what decides about the next token, and is kept by all
that can become of them. -/
structure Kept (R : Draft → Draft → Prop) : Prop where
  spot : ∀ {d d'}, R d d' → d.spot = d'.spot
  names : ∀ {d d'}, R d d' → d.blocks.map OpenBlock.name = d'.blocks.map OpenBlock.name
  moveTo : ∀ {d d'}, R d d' → ∀ spot, R (d.moveTo spot) (d'.moveTo spot)
  push : ∀ {d d'}, R d d' → ∀ item, R (d.push item) (d'.push item)
  closeArguments : ∀ {d d'}, R d d' → ∀ owner args,
    R (d.closeArguments owner args) (d'.closeArguments owner args)
  closeBlock : ∀ {d d'}, R d d' → R d.closeBlock d'.closeBlock

variable {R : Draft → Draft → Prop} {dialect : Dialect} {d d' : Draft}

theorem opensSection_kept (hR : Kept R) (h : R d d') (n : String) :
    d.opensSection dialect n = d'.opensSection dialect n := by
  have hany (d : Draft) : d.opensSection dialect n =
      (d.blocks.map OpenBlock.name).head?.any fun b => dialect.isSectionKeyword b n := by
    rw [opensSection, List.head?_map]
    cases d.blocks.head? <;> rfl
  rw [hany, hany, hR.names h]

theorem settle_kept (hR : Kept R) (h : R d d') (destination : Destination) (v : Value) :
    R (d.settle destination v) (d'.settle destination v) := by
  cases destination with
  | tag => exact hR.moveTo h _
  | argument owner args key? => exact hR.moveTo h _

theorem refuse_kept (hR : Kept R) (h : R d d') (token : Token) :
    Outcomes R (d.refuse token) (d'.refuse token) := by
  rw [refuse, refuse, hR.spot h]
  exact .fault _

theorem extendOutside_kept (hR : Kept R) (h : R d d') (token : Token) :
    Outcomes R (d.extendOutside dialect token) (d'.extendOutside dialect token) := by
  rw [extendOutside.eq_def, extendOutside.eq_def]
  cases token.lexeme with
  | text content => exact .draft (hR.push h _)
  | tagOpen => exact .draft (hR.moveTo h _)
  | blockOpen =>
    have hlength := congrArg List.length (hR.names h)
    rw [List.length_map, List.length_map] at hlength
    dsimp only
    rw [hlength]
    split
    next => exact .draft (hR.moveTo h _)
    next => exact .fault _
  | blockClose => exact .draft (hR.moveTo h _)
  | _ => exact refuse_kept hR h token

theorem extendArguments_kept (hR : Kept R) (h : R d d') (owner : ArgumentOwner)
    (args : Arguments) (token : Token) :
    Outcomes R (d.extendArguments owner args token) (d'.extendArguments owner args token) := by
  rw [extendArguments.eq_def, extendArguments.eq_def]
  cases token.lexeme with
  | tagClose => exact .draft (hR.closeArguments h owner args)
  | identifier name => exact .draft (hR.moveTo h _)
  | string text => exact .draft (hR.moveTo h _)
  | number digits => exact .draft (hR.moveTo h _)
  | _ => exact refuse_kept hR h token

theorem extendValue_kept (hR : Kept R) (h : R d d') (destination : Destination) (v : Value)
    (token : Token) :
    Outcomes R (d.extendValue destination v token) (d'.extendValue destination v token) := by
  rw [extendValue.eq_def, extendValue.eq_def]
  cases destination with
  | tag =>
    cases token.lexeme with
    | comparison op => exact .draft (hR.moveTo h _)
    | tagClose => exact .draft (hR.push h _)
    | _ => exact refuse_kept hR h token
  | argument owner args key? =>
    cases token.lexeme with
    | comparison op => exact .draft (hR.moveTo h _)
    | _ => exact extendArguments_kept hR h owner _ token

theorem extendClose_kept (hR : Kept R) (h : R d d') (position : Nat) (token : Token) :
    Outcomes R (d.extendClose position token) (d'.extendClose position token) := by
  have hnames := hR.names h
  rw [extendClose.eq_def, extendClose.eq_def]
  cases token.lexeme with
  | identifier name =>
    cases hblocks : d.blocks with
    | nil =>
      rw [hblocks] at hnames
      rw [List.map_eq_nil_iff.mp hnames.symm]
      exact .fault _
    | cons block outer =>
      rw [hblocks, List.map_cons] at hnames
      obtain ⟨block', outer', hblocks', hname, -⟩ := List.map_eq_cons_iff.mp hnames.symm
      rw [hblocks']
      dsimp only
      rw [hname]
      split
      next => exact .draft (hR.moveTo h _)
      next => exact .fault _
  | _ => exact refuse_kept hR h token

/-- A token leads on from both drafts, to drafts that are related again, or both refuse it. -/
theorem extend_kept (hR : Kept R) (h : R d d') (token : Token) :
    Outcomes R (d.extend dialect token) (d'.extend dialect token) := by
  have hrefuse := refuse_kept hR h token
  rw [extend.eq_def, extend.eq_def, ← hR.spot h]
  cases d.spot with
  | outside => exact extendOutside_kept hR h token
  | tagStart =>
    cases token.lexeme with
    | identifier name =>
      dsimp only
      rw [opensSection_kept hR h]
      split
      next => exact .draft (hR.moveTo h _)
      next => exact .draft (hR.moveTo h _)
    | string text => exact .draft (hR.moveTo h _)
    | number digits => exact .draft (hR.moveTo h _)
    | _ => exact hrefuse
  | tagName name =>
    cases token.lexeme with
    | tagClose => exact .draft (hR.push h _)
    | comparison op => exact .draft (hR.moveTo h _)
    | _ => exact extendArguments_kept hR h (.call name) {} token
  | value destination v => exact extendValue_kept hR h destination v token
  | operator destination op left =>
    cases token.lexeme with
    | identifier name => exact .draft (settle_kept hR h destination _)
    | string text => exact .draft (settle_kept hR h destination _)
    | _ => exact hrefuse
  | tagEnd v =>
    cases token.lexeme with
    | tagClose => exact .draft (hR.push h _)
    | _ => exact hrefuse
  | arguments owner args => exact extendArguments_kept hR h owner args token
  | argumentName owner args name =>
    cases token.lexeme with
    | assign => exact .draft (hR.moveTo h _)
    | _ => exact extendValue_kept hR h (.argument owner args none) (.variable name) token
  | argumentKey owner args key =>
    cases token.lexeme with
    | identifier name => exact .draft (hR.moveTo h _)
    | string text => exact .draft (hR.moveTo h _)
    | number digits => exact .draft (hR.moveTo h _)
    | _ => exact hrefuse
  | blockStart =>
    cases token.lexeme with
    | identifier name => exact .draft (hR.moveTo h _)
    | _ => exact hrefuse
  | closeStart position => exact extendClose_kept hR h position token
  | closeEnd =>
    cases token.lexeme with
    | tagClose => exact .draft (hR.closeBlock h)
    | _ => exact hrefuse

/-- So do all tokens, one after another. -/
theorem extendAll_kept (hR : Kept R) (h : R d d') (tokens : List Token) :
    Outcomes R (d.extendAll dialect tokens) (d'.extendAll dialect tokens) := by
  induction tokens generalizing d d' with
  | nil => exact .draft h
  | cons token tokens ih =>
    have hstep : Outcomes R (d.extend dialect token) (d'.extend dialect token) :=
      extend_kept hR h token
    rw [extendAll_cons, extendAll_cons]
    generalize d.extend dialect token = x, d'.extend dialect token = y at hstep
    cases hstep with
    | fault fault => exact .fault fault
    | draft hnext => exact ih hnext

end Draft

/-! ### One tag in a draft -/

section Drafts

variable (name : String) (args args' : Arguments)

/-- The sections of two blocks, the main one first, that are equal but for one tag. -/
inductive SectionsDiffer : Section × Array Section → Section × Array Section → Prop
  | main {main main' : Section} (done : Array Section) :
      main.DiffersAt name args args' main' → SectionsDiffer (main, done) (main', done)
  | done (main : Section) {done done' : Array Section} :
      DiffersOnce (Section.DiffersAt name args args') done.toList done'.toList →
      SectionsDiffer (main, done) (main, done')

/-- Open blocks that are equal but for one tag, whatever items the section being filled ends up
with. -/
inductive OpenBlock.DiffersAt : OpenBlock → OpenBlock → Prop
  | arguments (outer : Array Item) (filling : Filling) :
      OpenBlock.DiffersAt ⟨name, args, outer, filling⟩ ⟨name, args', outer, filling⟩
  | outer (n : String) (as : Arguments) {outer outer' : Array Item} (filling : Filling) :
      DiffersOnce (Item.DiffersAt name args args') outer.toList outer'.toList →
      OpenBlock.DiffersAt ⟨n, as, outer, filling⟩ ⟨n, as, outer', filling⟩
  | filling (n : String) (as : Arguments) (outer : Array Item) {filling filling' : Filling} :
      (∀ items, SectionsDiffer name args args' (filling.sections items)
        (filling'.sections items)) →
      OpenBlock.DiffersAt ⟨n, as, outer, filling⟩ ⟨n, as, outer, filling'⟩

/-- Drafts that are equal but for one tag. -/
inductive Draft.DiffersAt : Draft → Draft → Prop
  | items {items items' : Array Item} (blocks : List OpenBlock) (spot : Spot) :
      DiffersOnce (Item.DiffersAt name args args') items.toList items'.toList →
      Draft.DiffersAt ⟨items, blocks, spot⟩ ⟨items', blocks, spot⟩
  | blocks (items : Array Item) {blocks blocks' : List OpenBlock} (spot : Spot) :
      DiffersOnce (OpenBlock.DiffersAt name args args') blocks blocks' →
      Draft.DiffersAt ⟨items, blocks, spot⟩ ⟨items, blocks', spot⟩

end Drafts

variable {name : String} {args args' : Arguments}

theorem Section.DiffersAt.of_items {items items' : List Item}
    (h : DiffersOnce (Item.DiffersAt name args args') items items') (n? : Option String)
    (as : Arguments) : Section.DiffersAt name args args' ⟨n?, as, items⟩ ⟨n?, as, items'⟩ := by
  obtain ⟨before, after, hxy⟩ := h
  exact .items n? as before after hxy

theorem SectionsDiffer.push {p p' : Section × Array Section}
    (h : SectionsDiffer name args args' p p') (s : Section) :
    SectionsDiffer name args args' (p.1, p.2.push s) (p'.1, p'.2.push s) := by
  cases h with
  | main done h => exact .main _ h
  | done main h =>
    refine .done main ?_
    rw [Array.toList_push, Array.toList_push]
    exact h.append [s]

theorem SectionsDiffer.block {p p' : Section × Array Section}
    (h : SectionsDiffer name args args' p p') (n : String) (as : Arguments) :
    Block.DiffersAt name args args' ⟨n, as, p.1, p.2.toList⟩ ⟨n, as, p'.1, p'.2.toList⟩ := by
  cases h with
  | main done h => exact .main n as done.toList h
  | @done main done done' h =>
    generalize done.toList = ss, done'.toList = ss' at h
    obtain ⟨before, after, hxy⟩ := h
    exact .sections n as main before after hxy

/-- Items end up in the section that is being filled. -/
theorem Filling.sections_differ (filling : Filling) {items items' : Array Item}
    (h : DiffersOnce (Item.DiffersAt name args args') items.toList items'.toList) :
    SectionsDiffer name args args' (filling.sections items) (filling.sections items') := by
  cases filling with
  | ofMain => exact .main #[] (.of_items h none {})
  | ofKeyword main done keyword as =>
    refine .done main ?_
    rw [Array.toList_push, Array.toList_push]
    exact .concat (.of_items h (some keyword) as) done.toList

/-- The section that a keyword ends comes before the one that it opens. -/
theorem Filling.sections_next (filling : Filling) (items more : Array Item) (keyword : String)
    (as : Arguments) : (filling.next items keyword as).sections more =
      ((filling.sections items).1,
        (filling.sections items).2.push ⟨some keyword, as, more.toList⟩) :=
  rfl

namespace OpenBlock.DiffersAt

variable {block block' : OpenBlock}

theorem name_eq (h : block.DiffersAt name args args' block') : block.name = block'.name := by
  cases h <;> rfl

/-- With a keyword more, the blocks still differ in the one tag. -/
theorem next (h : block.DiffersAt name args args' block') (items : Array Item) (keyword : String)
    (as : Arguments) :
    OpenBlock.DiffersAt name args args'
      { block with filling := block.filling.next items keyword as }
      { block' with filling := block'.filling.next items keyword as } := by
  cases h with
  | arguments outer filling => exact .arguments outer _
  | outer n bs filling h => exact .outer n bs _ h
  | filling n bs outer h =>
    refine .filling n bs outer fun more => ?_
    rw [Filling.sections_next, Filling.sections_next]
    exact (h items).push _

/-- A closed block joins the items around it, and takes the difference along. -/
theorem close (h : block.DiffersAt name args args' block') (items : Array Item) :
    DiffersOnce (Item.DiffersAt name args args')
      (block.outer.push (.block (block.close items))).toList
      (block'.outer.push (.block (block'.close items))).toList := by
  rw [Array.toList_push, Array.toList_push]
  cases h with
  | arguments outer filling => exact .concat (.block (.arguments _ _)) _
  | outer n bs filling h => exact h.append _
  | filling n bs outer h => exact .concat (.block ((h items).block n bs)) _

end OpenBlock.DiffersAt

namespace Draft

variable {d d' : Draft}

theorem push_differsAt (h : d.DiffersAt name args args' d') (item : Item) :
    (d.push item).DiffersAt name args args' (d'.push item) := by
  cases h with
  | items blocks spot h =>
    refine .items blocks .outside ?_
    rw [Array.toList_push, Array.toList_push]
    exact h.append [item]
  | blocks items spot h => exact .blocks _ .outside h

theorem closeArguments_differsAt (h : d.DiffersAt name args args' d') (owner : ArgumentOwner)
    (as : Arguments) :
    (d.closeArguments owner as).DiffersAt name args args' (d'.closeArguments owner as) := by
  cases owner with
  | call n => exact push_differsAt h _
  | block n =>
    cases h with
    | items blocks spot h => exact .blocks #[] .outside (.head (.outer n as .ofMain h) blocks)
    | @blocks items blocks blocks' spot h => exact .blocks #[] .outside (h.cons _)
  | keyword n =>
    cases h with
    | items blocks spot h =>
      cases blocks with
      | nil => exact .items [] .outside h
      | cons block outer =>
        refine .blocks #[] .outside (.head (.filling _ _ _ fun more => ?_) outer)
        rw [Filling.sections_next, Filling.sections_next]
        exact (block.filling.sections_differ h).push _
    | @blocks items blocks blocks' spot h =>
      cases blocks with
      | nil => exact absurd rfl h.ne_nil.1
      | cons block outer =>
        cases blocks' with
        | nil => exact absurd rfl h.ne_nil.2
        | cons block' outer' =>
          rcases h.cons_cases with ⟨hblock, rfl⟩ | ⟨rfl, houter⟩
          · exact .blocks #[] .outside (.head (hblock.next items n as) outer)
          · exact .blocks #[] .outside (houter.cons _)

theorem closeBlock_differsAt (h : d.DiffersAt name args args' d') :
    d.closeBlock.DiffersAt name args args' d'.closeBlock := by
  cases h with
  | @items items items' blocks spot h =>
    cases blocks with
    | nil => exact .items [] .outside h
    | cons block outer =>
      refine .items outer .outside ?_
      rw [Array.toList_push, Array.toList_push]
      exact .concat (.block ((block.filling.sections_differ h).block _ _)) _
  | @blocks items blocks blocks' spot h =>
    cases blocks with
    | nil => exact absurd rfl h.ne_nil.1
    | cons block outer =>
      cases blocks' with
      | nil => exact absurd rfl h.ne_nil.2
      | cons block' outer' =>
        rcases h.cons_cases with ⟨hblock, rfl⟩ | ⟨rfl, houter⟩
        · exact .items outer .outside (hblock.close items)
        · exact .blocks _ .outside houter

/-- That two drafts differ in one tag is kept by all tokens. -/
theorem kept_differsAt : Kept (Draft.DiffersAt name args args') where
  spot h := by cases h <;> rfl
  names h := by
    cases h with
    | items => rfl
    | blocks items spot h => exact h.map_eq fun _ _ hblock => hblock.name_eq
  moveTo h spot := by
    cases h with
    | items blocks _ h => exact .items blocks spot h
    | blocks items _ h => exact .blocks items spot h
  push := push_differsAt
  closeArguments := closeArguments_differsAt
  closeBlock := closeBlock_differsAt

/-- A source that may end behind one of the drafts may end behind the other. -/
theorem finish_differsAt (h : d.DiffersAt name args args' d') {position : Nat} {t : Template}
    (ht : d.finish position = .ok t) (position' : Nat) :
    ∃ t', d'.finish position' = .ok t' ∧ t.DiffersAt name args args' t' := by
  obtain ⟨hspot, hblocks, hitems⟩ := finish_eq_ok_iff.mp ht
  obtain ⟨items⟩ := t
  obtain rfl : items = d.items.toList := hitems
  cases h with
  | @items items items' blocks spot h =>
    exact ⟨⟨items'.toList⟩, finish_eq_ok_iff.mpr ⟨hspot, hblocks, rfl⟩, h⟩
  | blocks items spot h => exact absurd hblocks h.ne_nil.1

end Draft

/-! ### Slots in a tag -/

/-- The lexemes of a tag with a name and slots. -/
def tagLexemes (opener : Lexeme) (name : String) (slots : List Lexeme) : List Lexeme :=
  opener :: .identifier name :: (slots ++ [.tagClose])

namespace Draft

variable {dialect : Dialect} {draft : Draft}

theorem differsAt_openedBlock (draft : Draft) (name : String) (args args' : Arguments) :
    (Grammar.openedBlock draft name args).DiffersAt name args args'
      (Grammar.openedBlock draft name args') :=
  .blocks #[] .outside (.head (.arguments draft.items .ofMain) draft.blocks)

theorem differsAt_openedSection (draft : Draft) (block : OpenBlock) (outer : List OpenBlock)
    (name : String) (args args' : Arguments) :
    (Grammar.openedSection draft block outer name args).DiffersAt name args args'
      (Grammar.openedSection draft block outer name args') := by
  refine .blocks #[] .outside (.head (.filling _ _ _ fun more => ?_) outer)
  rw [Filling.sections_next, Filling.sections_next]
  refine .done _ ?_
  rw [Array.toList_push, Array.toList_push]
  exact .concat (.arguments more.toList) _

theorem differsAt_push_call (draft : Draft) (name : String) (args args' : Arguments) :
    (draft.push (.call ⟨name, args⟩)).DiffersAt name args args'
      (draft.push (.call ⟨name, args'⟩)) := by
  refine .items draft.blocks .outside ?_
  rw [Array.toList_push, Array.toList_push]
  exact .concat .call draft.items.toList

theorem exists_block_of_opensSection (h : draft.opensSection dialect name = true) :
    ∃ block outer, draft.blocks = block :: outer ∧
      dialect.isSectionKeyword block.name name = true := by
  obtain ⟨items, blocks, spot⟩ := draft
  cases blocks with
  | nil => cases h
  | cons block outer => exact ⟨block, outer, rfl, h⟩

/-- A call leads past its `}}`. -/
theorem reads_call {ls : List Lexeme} {slots : List (Option String × Value)}
    (hspot : draft.spot = .outside) (hsection : ¬draft.opensSection dialect name = true)
    (hls : Slots ls slots) (hne : slots ≠ []) (hargs : Collects slots args) :
    draft.Reads dialect (tagLexemes .tagOpen name ls) (draft.push (.call ⟨name, args⟩)) := by
  have hstart : ¬Grammar.StartsSection dialect.isSectionKeyword
      (draft.blocks.head?.map OpenBlock.name) (.identifier name :: ls) := by
    rintro ⟨n, k, hn, hk, hkeyword⟩
    obtain rfl : name = k := Lexeme.identifier.inj (Option.some.inj hk)
    obtain ⟨block, hblock, rfl⟩ := Option.map_eq_some_iff.mp hn
    refine hsection ?_
    rw [opensSection, hblock]
    exact hkeyword
  refine .cons (b := draft.moveTo .tagStart) (fun _ => ?_)
    ((Grammar.Tag.call name hls hne hargs).reads hstart)
  rw [extend_outside hspot]
  rfl

/-- Outside of tags, where a tag can open, any slots lead past it, and the draft behind it depends
on their arguments only. -/
theorem exists_reads_tag {opener : Lexeme} (hopener : opener = .tagOpen ∨ opener = .blockOpen)
    (hspot : draft.spot = .outside)
    (hroom : opener = .blockOpen → draft.blocks.length < dialect.maxDepth) (name : String) :
    ∃ behind : Arguments → Draft,
      (∀ ls slots args, Slots ls slots → slots ≠ [] → Collects slots args →
        draft.Reads dialect (tagLexemes opener name ls) (behind args)) ∧
      ∀ args args', (behind args).DiffersAt name args args' (behind args') := by
  rcases hopener with rfl | rfl
  · by_cases hsection : draft.opensSection dialect name = true
    · -- A keyword of the innermost open block opens a section.
      obtain ⟨block, outer, hblocks, hkeyword⟩ := exists_block_of_opensSection hsection
      exact ⟨Grammar.openedSection draft block outer name, fun ls slots args hls _ hargs =>
        Grammar.reads_sectionOpen hspot hblocks hkeyword hls hargs,
        differsAt_openedSection draft block outer name⟩
    · -- Any other name is that of a call.
      exact ⟨fun args => draft.push (.call ⟨name, args⟩), fun ls slots args hls hne hargs =>
        reads_call hspot hsection hls hne hargs, differsAt_push_call draft name⟩
  · exact ⟨Grammar.openedBlock draft name, fun ls slots args hls _ hargs =>
      Grammar.reads_blockOpen hspot (hroom rfl) hls hargs name, differsAt_openedBlock draft name⟩

/-- A tag opens outside of tags only, and a block only while fewer are open than may be. -/
theorem outside_of_extend {opener : Lexeme} (hopener : opener = .tagOpen ∨ opener = .blockOpen)
    {position : Nat} {draft' : Draft} (h : draft.extend dialect ⟨opener, position⟩ = .ok draft') :
    draft.spot = .outside ∧ (opener = .blockOpen → draft.blocks.length < dialect.maxDepth) := by
  obtain ⟨items, blocks, spot⟩ := draft
  cases spot with
  | outside =>
    refine ⟨rfl, ?_⟩
    rintro rfl
    by_contra hroom
    have hrefused : (⟨items, blocks, .outside⟩ : Draft).extend dialect ⟨.blockOpen, position⟩ =
        .error ⟨.nestedTooDeep dialect.maxDepth, position⟩ := if_neg hroom
    rw [hrefused] at h
    cases h
  | value destination v =>
    rcases hopener with rfl | rfl
    · cases destination <;> cases h
    · cases destination <;> cases h
  | closeStart _ =>
    rcases hopener with rfl | rfl
    · cases blocks <;> cases h
    · cases blocks <;> cases h
  | _ =>
    rcases hopener with rfl | rfl
    · cases h
    · cases h

/-- Tokens complete drafts that differ in one tag alike. -/
theorem completed_differsAt {d d' : Draft} (h : d.DiffersAt name args args' d')
    {tokens : List Token} {position : Nat} {t : Template}
    (ht : d.completed dialect tokens position = .ok t) :
    ∃ t', d'.completed dialect tokens position = .ok t' ∧ t.DiffersAt name args args' t' := by
  have hall : Outcomes (Draft.DiffersAt name args args') (d.extendAll dialect tokens)
    (d'.extendAll dialect tokens) := extendAll_kept kept_differsAt h tokens
  rw [completed] at ht ⊢
  generalize d.extendAll dialect tokens = x, d'.extendAll dialect tokens = y at hall ht
  cases hall with
  | fault fault => cases ht
  | draft hnext => exact finish_differsAt hnext ht position

/-- What completes a draft goes on with the draft behind the tokens that have been read. -/
theorem completed_of_extendAll {d d' : Draft} {as bs : List Token}
    (h : d.extendAll dialect as = .ok d') (position : Nat) :
    d.completed dialect (as ++ bs) position = d'.completed dialect bs position := by
  rw [completed, extendAll_append, h]
  rfl

/-- A draft that tokens complete takes in the first of them. -/
theorem exists_extend_of_completed {d : Draft} {token : Token} {tokens : List Token}
    {position : Nat} {t : Template}
    (h : d.completed dialect (token :: tokens) position = .ok t) :
    ∃ d', d.extend dialect token = .ok d' := by
  rw [completed, extendAll_cons] at h
  cases hstep : d.extend dialect token with
  | error fault =>
    rw [hstep] at h
    cases h
  | ok d' => exact ⟨d', rfl⟩

/-- A draft that tokens complete takes in those in front. -/
theorem exists_extendAll_of_completed {d : Draft} {as bs : List Token} {position : Nat}
    {t : Template} (h : d.completed dialect (as ++ bs) position = .ok t) :
    ∃ d', d.extendAll dialect as = .ok d' := by
  rw [completed, extendAll_append] at h
  cases hall : d.extendAll dialect as with
  | error fault =>
    rw [hall] at h
    cases h
  | ok d' => exact ⟨d', rfl⟩

end Draft

/-! ### Tokens -/

namespace Template

variable {dialect : Dialect}

/-- Tokens make the same template wherever they stand. -/
theorem ofTokens_eq_ok_of_lexemes {tokens tokens' : List Token} {position position' : Nat}
    {t : Template} (hlexemes : tokens.map Token.lexeme = tokens'.map Token.lexeme)
    (h : ofTokens dialect tokens position = .ok t) :
    ofTokens dialect tokens' position' = .ok t := by
  rw [Grammar.ofTokens_eq_ok_iff] at h ⊢
  rwa [← hlexemes]

/-- Where one list of slots stands in a tag, every other one can stand, and makes a template that
differs in the arguments of this tag only. -/
theorem ofTokens_exchange {opener : Lexeme} (hopener : opener = .tagOpen ∨ opener = .blockOpen)
    {before after ls ls' : List Lexeme} {slots slots' : List (Option String × Value)}
    (hls : Slots ls slots) (hne : slots ≠ []) (hargs : Collects slots args)
    (hls' : Slots ls' slots') (hne' : slots' ≠ []) (hargs' : Collects slots' args')
    {tokens tokens' : List Token} {position position' : Nat} {t : Template}
    (htokens : tokens.map Token.lexeme = before ++ (tagLexemes opener name ls ++ after))
    (htokens' : tokens'.map Token.lexeme = before ++ (tagLexemes opener name ls' ++ after))
    (h : ofTokens dialect tokens position = .ok t) :
    ∃ t', ofTokens dialect tokens' position' = .ok t' ∧ t.DiffersAt name args args' t' := by
  -- Where the tokens stand does not matter, so let all of them stand at the same offset.
  let still (ls : List Lexeme) : List Token := ls.map fun l => ⟨l, 0⟩
  have hstill (ls : List Lexeme) : (still ls).map Token.lexeme = ls := by
    simp [still, Function.comp_def]
  have happend (as bs : List Lexeme) : still (as ++ bs) = still as ++ still bs := List.map_append
  have hread : ofTokens dialect (still before ++ (still (tagLexemes opener name ls) ++
      still after)) 0 = .ok t := by
    refine ofTokens_eq_ok_of_lexemes ?_ h
    rw [htokens, ← happend, ← happend, hstill]
  obtain ⟨draft, hbefore⟩ := Draft.exists_extendAll_of_completed hread
  have hcompleted := (Draft.completed_of_extendAll hbefore 0).symm.trans hread
  -- The draft takes in the opener, so a tag can open there, with any slots.
  obtain ⟨_, hopened⟩ := Draft.exists_extend_of_completed hcompleted
  obtain ⟨hspot, hroom⟩ := Draft.outside_of_extend hopener hopened
  obtain ⟨behind, hreads, hdiffers⟩ := Draft.exists_reads_tag hopener hspot hroom name
  rw [Draft.completed_of_extendAll (hreads ls slots args hls hne hargs _ (hstill _))]
    at hcompleted
  obtain ⟨t', hcompleted', ht'⟩ := Draft.completed_differsAt (hdiffers args args') hcompleted
  refine ⟨t', ?_, ht'⟩
  rw [← Draft.completed_of_extendAll (hreads ls' slots' args' hls' hne' hargs' _ (hstill _)),
    ← Draft.completed_of_extendAll hbefore] at hcompleted'
  refine ofTokens_eq_ok_of_lexemes ?_ hcompleted'
  rw [htokens', ← happend, ← happend, hstill]

end Template

end Stencil
