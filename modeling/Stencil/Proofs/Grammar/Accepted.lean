/-
What derives is read.

`draft.Reads dialect ls draft'` says that lexemes lead from one draft to another, wherever in
a source their tokens stand.  Each production of the grammar has one lemma about it, and
`Items.reads` puts them together: lexemes that derive items lead to the draft with these items
more (`Draft.pushAll`), if the open blocks and those in the items are not too many.

A slot ends only where the next lexeme is no operator.  So the lemmas about slots speak of a
slot together with what follows on it: `Lexeme.EndsSlot` is all that they ask of the lexeme
behind.
-/
import Stencil.Proofs.Grammar
import Stencil.Proofs.Nesting
import Stencil.Template.Source

namespace Stencil

open Grammar

/-- A lexeme that cannot go on with the slot before it. -/
def Lexeme.EndsSlot (l : Lexeme) : Prop :=
  l ≠ .assign ∧ ∀ op, l ≠ .comparison op

namespace Draft

variable {dialect : Dialect}

/-- The lexemes lead from one draft to the other, wherever their tokens stand. -/
def Reads (dialect : Dialect) (draft : Draft) (ls : List Lexeme) (draft' : Draft) : Prop :=
  ∀ tokens : List Token, tokens.map Token.lexeme = ls →
    draft.extendAll dialect tokens = .ok draft'

theorem Reads.nil (draft : Draft) : draft.Reads dialect [] draft := by
  intro tokens h
  rw [List.map_eq_nil_iff.mp h]
  rfl

theorem Reads.append {a b c : Draft} {ls ms : List Lexeme} (h : a.Reads dialect ls b)
    (h' : b.Reads dialect ms c) : a.Reads dialect (ls ++ ms) c := by
  intro tokens htokens
  obtain ⟨ts, us, rfl, hts, hus⟩ := List.map_eq_append_iff.mp htokens
  rw [extendAll_append, h ts hts]
  exact h' us hus

/-- Where the first token stands may show in the draft behind it. -/
theorem Reads.step {a c : Draft} {l : Lexeme} {ls : List Lexeme}
    (h : ∀ position, ∃ b, a.extend dialect ⟨l, position⟩ = .ok b ∧ b.Reads dialect ls c) :
    a.Reads dialect (l :: ls) c := by
  intro tokens htokens
  obtain ⟨⟨lexeme, position⟩, ts, rfl, hlexeme, hts⟩ := List.map_eq_cons_iff.mp htokens
  obtain rfl : lexeme = l := hlexeme
  obtain ⟨b, hb, h'⟩ := h position
  rw [extendAll_cons, hb]
  exact h' ts hts

theorem Reads.cons {a b c : Draft} {l : Lexeme} {ls : List Lexeme}
    (h : ∀ position, a.extend dialect ⟨l, position⟩ = .ok b) (h' : b.Reads dialect ls c) :
    a.Reads dialect (l :: ls) c :=
  .step fun position => ⟨b, h position, h'⟩

/-- Two drafts that take the next token alike take all that follows alike. -/
theorem Reads.congr {a b c : Draft} {l : Lexeme} {ls : List Lexeme}
    (h : ∀ position, a.extend dialect ⟨l, position⟩ = b.extend dialect ⟨l, position⟩)
    (h' : b.Reads dialect (l :: ls) c) : a.Reads dialect (l :: ls) c := by
  intro tokens htokens
  have hb := h' tokens htokens
  obtain ⟨⟨lexeme, position⟩, ts, rfl, hlexeme, -⟩ := List.map_eq_cons_iff.mp htokens
  obtain rfl : lexeme = l := hlexeme
  rw [extendAll_cons] at hb ⊢
  rw [h position]
  exact hb

/-! ### Slots -/

variable {draft : Draft} {owner : ArgumentOwner} {args : Arguments} {key? : Option String}

/-- Where the value of a slot starts. -/
def slotStart (owner : ArgumentOwner) (args : Arguments) : Option String → Spot
  | none => .arguments owner args
  | some key => .argumentKey owner args key

/-- Where a slot stands behind the first lexeme of its value. -/
inductive BehindPrimary (owner : ArgumentOwner) (args : Arguments) :
    Option String → Value → Spot → Prop
  | name (n : String) :
      BehindPrimary owner args none (.variable n) (.argumentName owner args n)
  | value (key? : Option String) (v : Value) :
      BehindPrimary owner args key? v (.value (.argument owner args key?) v)

theorem extend_slotStart {l : Lexeme} {v : Value} (h : Primary l v) (draft : Draft)
    (key? : Option String) :
    ∃ spot, BehindPrimary owner args key? v spot ∧ ∀ position,
      (draft.moveTo (slotStart owner args key?)).extend dialect ⟨l, position⟩ =
        .ok (draft.moveTo spot) := by
  rcases h with n | h
  · rcases key? with _ | key
    · exact ⟨_, .name n, fun _ => rfl⟩
    · exact ⟨_, .value _ _, fun _ => rfl⟩
  · rcases h with s | d
    · rcases key? with _ | key
      · exact ⟨_, .value _ _, fun _ => rfl⟩
      · exact ⟨_, .value _ _, fun _ => rfl⟩
    · rcases key? with _ | key
      · exact ⟨_, .value _ _, fun _ => rfl⟩
      · exact ⟨_, .value _ _, fun _ => rfl⟩

theorem extend_behindPrimary_comparison {v : Value} {spot : Spot}
    (h : BehindPrimary owner args key? v spot) (draft : Draft) (op : Comparison)
    (position : Nat) :
    (draft.moveTo spot).extend dialect ⟨.comparison op, position⟩ =
      .ok (draft.moveTo (.operator (.argument owner args key?) op v)) := by
  cases h with
  | name n => rfl
  | value key? v => rfl

/-- Behind a value, a lexeme that ends the slot is taken as behind a list of arguments that
has the value already. -/
theorem extend_behindPrimary_of_endsSlot {v : Value} {spot : Spot}
    (h : BehindPrimary owner args key? v spot) (draft : Draft) {l : Lexeme} (hl : l.EndsSlot)
    (position : Nat) :
    (draft.moveTo spot).extend dialect ⟨l, position⟩ =
      (draft.moveTo (.arguments owner (args.add key? v))).extend dialect ⟨l, position⟩ := by
  obtain ⟨hassign, hcomparison⟩ := hl
  -- Only `=` and an operator are taken otherwise, and these end no slot.
  cases h with
  | name n =>
    cases l with
    | comparison op => exact absurd rfl (hcomparison op)
    | assign => exact absurd rfl hassign
    | tagClose => cases owner <;> rfl
    | _ => rfl
  | value key? v =>
    cases l with
    | comparison op => exact absurd rfl (hcomparison op)
    | assign => exact absurd rfl hassign
    | tagClose => cases owner <;> rfl
    | _ => rfl

theorem extend_operator {r : Lexeme} {w : Value} (h : Operand r w) (draft : Draft)
    (destination : Destination) (op : Comparison) (v : Value) (position : Nat) :
    (draft.moveTo (.operator destination op v)).extend dialect ⟨r, position⟩ =
      .ok (draft.settle destination (.comparison op v w)) := by
  cases h with
  | name n => cases destination <;> rfl
  | string s => cases destination <;> rfl

theorem reads_expr {ls more : List Lexeme} {v : Value} {next : Lexeme} {draft' : Draft}
    (h : Expr ls v) (hnext : next.EndsSlot)
    (hmore : (draft.moveTo (.arguments owner (args.add key? v))).Reads dialect
      (next :: more) draft') :
    (draft.moveTo (slotStart owner args key?)).Reads dialect (ls ++ next :: more) draft' := by
  rcases h with hl | ⟨op, hl, hr⟩
  · obtain ⟨spot, hspot, hextend⟩ := extend_slotStart hl draft key?
    exact .cons hextend (.congr (extend_behindPrimary_of_endsSlot hspot draft hnext) hmore)
  · obtain ⟨spot, hspot, hextend⟩ := extend_slotStart hl draft key?
    exact .cons hextend <| .cons (extend_behindPrimary_comparison hspot draft op) <|
      .cons (extend_operator hr draft _ op _) hmore

theorem reads_slot {ls more : List Lexeme} {s : Option String × Value} {next : Lexeme}
    {draft' : Draft} (h : Slot ls s) (hnext : next.EndsSlot)
    (hmore : (draft.moveTo (.arguments owner (args.add s.1 s.2))).Reads dialect
      (next :: more) draft') :
    (draft.moveTo (.arguments owner args)).Reads dialect (ls ++ next :: more) draft' := by
  rcases h with hv | ⟨k, hv⟩
  · exact reads_expr hv hnext hmore
  · have hkey := reads_expr hv hnext hmore
    exact .cons (fun _ => rfl) (.cons (fun _ => rfl) hkey)

end Draft

namespace Grammar

/-- A lexeme that starts a slot: it ends the slot before it, but not the arguments. -/
def StartsSlot (l : Lexeme) : Prop :=
  l.EndsSlot ∧ l ≠ .tagClose

theorem Primary.startsSlot {l : Lexeme} {v : Value} (h : Primary l v) : StartsSlot l := by
  rcases h with n | (s | d)
  · exact ⟨⟨nofun, nofun⟩, nofun⟩
  · exact ⟨⟨nofun, nofun⟩, nofun⟩
  · exact ⟨⟨nofun, nofun⟩, nofun⟩

theorem Expr.head {ls : List Lexeme} {v : Value} (h : Expr ls v) :
    ∃ l rest, ls = l :: rest ∧ StartsSlot l := by
  rcases h with hl | ⟨op, hl, hr⟩
  · exact ⟨_, _, rfl, hl.startsSlot⟩
  · exact ⟨_, _, rfl, hl.startsSlot⟩

theorem Slot.head {ls : List Lexeme} {s : Option String × Value} (h : Slot ls s) :
    ∃ l rest, ls = l :: rest ∧ StartsSlot l := by
  rcases h with hv | ⟨k, hv⟩
  · exact hv.head
  · exact ⟨_, _, rfl, ⟨nofun, nofun⟩, nofun⟩

/-- Slots, and then the `}}` that ends them, start with a lexeme that ends a slot; it is that
`}}` only if there are none. -/
theorem Slots.head {ls : List Lexeme} {slots : List (Option String × Value)}
    (h : Slots ls slots) : ∃ l rest, ls ++ [.tagClose] = l :: rest ∧ l.EndsSlot ∧
      (slots ≠ [] → l ≠ .tagClose) := by
  cases h with
  | nil => exact ⟨_, _, rfl, ⟨nofun, nofun⟩, fun h => absurd rfl h⟩
  | cons hs _ =>
    obtain ⟨l, rest, rfl, hends, hl⟩ := hs.head
    exact ⟨l, _, rfl, hends, fun _ => hl⟩

open Draft

variable {dialect : Dialect} {draft : Draft}

/-- Slots lead past the `}}` behind them, with all their arguments. -/
theorem Slots.reads {owner : ArgumentOwner} {ls : List Lexeme}
    {slots : List (Option String × Value)} (h : Slots ls slots) (args : Arguments) :
    (draft.moveTo (.arguments owner args)).Reads dialect (ls ++ [.tagClose])
      (draft.closeArguments owner (slots.foldl (fun args s => args.add s.1 s.2) args)) := by
  induction h generalizing args with
  | nil => exact .cons (fun _ => by cases owner <;> rfl) (.nil _)
  | cons hs hrest ih =>
    obtain ⟨next, more, hnext, hends, -⟩ := hrest.head
    rw [List.append_assoc, hnext]
    exact reads_slot hs hends (hnext ▸ ih (args.add _ _))

/-- The slots of one owner, from the empty list of arguments on. -/
theorem Slots.reads_collect {owner : ArgumentOwner} {ls : List Lexeme}
    {slots : List (Option String × Value)} {args : Arguments} (h : Slots ls slots)
    (hargs : Collects slots args) :
    (draft.moveTo (.arguments owner {})).Reads dialect (ls ++ [.tagClose])
      (draft.closeArguments owner args) := by
  rw [collects_iff.mp hargs]
  exact h.reads {}

/-! ### Tags -/

theorem opensSection_eq_false {n : String} {ls : List Lexeme}
    (h : ¬StartsSection dialect.isSectionKeyword (draft.blocks.head?.map OpenBlock.name)
      (.identifier n :: ls)) : draft.opensSection dialect n = false := by
  rw [opensSection]
  cases hblocks : draft.blocks with
  | nil => rfl
  | cons block outer =>
    rw [Bool.eq_false_iff]
    intro hkeyword
    exact h ⟨block.name, n, by rw [hblocks]; rfl, rfl, hkeyword⟩

/-- The lexemes of a tag lead past its `}}`, with its item. -/
theorem Tag.reads {ls : List Lexeme} {item : Item} (h : Tag ls item)
    (hstart : ¬StartsSection dialect.isSectionKeyword
      (draft.blocks.head?.map OpenBlock.name) ls) :
    (draft.moveTo .tagStart).Reads dialect (ls ++ [.tagClose]) (draft.push item) := by
  have hname : ∀ {n ls'}, ls = .identifier n :: ls' → ∀ position,
      (draft.moveTo .tagStart).extend dialect ⟨.identifier n, position⟩ =
        .ok (draft.moveTo (.tagName n)) := by
    rintro n ls' rfl position
    have hopens : (draft.moveTo .tagStart).opensSection dialect n = false :=
      opensSection_eq_false hstart
    show (if (draft.moveTo .tagStart).opensSection dialect n = true then _ else _) = _
    rw [hopens]
    rfl
  cases h with
  | name n => exact .cons (hname rfl) (.cons (fun _ => rfl) (.nil _))
  | comparison n op hr =>
    exact .cons (hname rfl) <| .cons (fun _ => rfl) <| .cons (extend_operator hr draft _ op _) <|
      .cons (fun _ => rfl) (.nil _)
  | @call as slots args n has hne hargs =>
    rw [List.cons_append]
    refine .cons (hname rfl) ?_
    -- The first slot shows that the name is that of a call.
    obtain ⟨next, more, hnext, ⟨hassign, hcomparison⟩, hclose⟩ := has.head
    have hreads : (draft.moveTo (.arguments (.call n) {})).Reads dialect (as ++ [.tagClose])
        (draft.closeArguments (.call n) args) := has.reads_collect hargs
    rw [hnext] at hreads ⊢
    refine .congr (fun position => ?_) hreads
    cases next with
    | tagClose => exact absurd rfl (hclose hne)
    | assign => exact absurd rfl hassign
    | comparison op => exact absurd rfl (hcomparison op)
    | _ => rfl
  | literal hl =>
    cases hl with
    | string s => exact .cons (fun _ => rfl) (.cons (fun _ => rfl) (.nil _))
    | number d => exact .cons (fun _ => rfl) (.cons (fun _ => rfl) (.nil _))
  | literalComparison op hl hr =>
    cases hl with
    | string s =>
      exact .cons (fun _ => rfl) <| .cons (fun _ => rfl) <|
        .cons (extend_operator hr draft _ op _) <| .cons (fun _ => rfl) (.nil _)
    | number d =>
      exact .cons (fun _ => rfl) <| .cons (fun _ => rfl) <|
        .cons (extend_operator hr draft _ op _) <| .cons (fun _ => rfl) (.nil _)

end Grammar

/-! ### Items and blocks -/

namespace Draft

/-- The draft with more items. -/
def pushAll (draft : Draft) (items : List Item) : Draft :=
  items.foldl push draft

theorem toList_items_pushAll (draft : Draft) (items : List Item) :
    (draft.pushAll items).items.toList = draft.items.toList ++ items := by
  induction items generalizing draft with
  | nil => simp [pushAll]
  | cons item items ih =>
    rw [show draft.pushAll (item :: items) = (draft.push item).pushAll items from rfl, ih]
    simp [push]

@[simp] theorem blocks_pushAll (draft : Draft) (items : List Item) :
    (draft.pushAll items).blocks = draft.blocks := by
  induction items generalizing draft with
  | nil => rfl
  | cons item items ih => exact ih (draft.push item)

theorem spot_pushAll {draft : Draft} (h : draft.spot = .outside) (items : List Item) :
    (draft.pushAll items).spot = .outside := by
  induction items generalizing draft with
  | nil => exact h
  | cons item items ih => exact ih rfl

theorem extend_outside {dialect : Dialect} {draft : Draft} (h : draft.spot = .outside)
    (token : Token) : draft.extend dialect token = draft.extendOutside dialect token := by
  rw [extend, h]

end Draft

namespace Grammar

open Draft

variable {dialect : Dialect}

/-- The draft inside a block whose `{{#` and arguments have been read. -/
def openedBlock (draft : Draft) (n : String) (args : Arguments) : Draft :=
  { items := #[], blocks := { name := n, arguments := args, outer := draft.items } :: draft.blocks }

theorem reads_blockOpen {draft : Draft} {as : List Lexeme}
    {slots : List (Option String × Value)} {args : Arguments} (hspot : draft.spot = .outside)
    (hroom : draft.blocks.length < dialect.maxDepth) (has : Slots as slots)
    (hargs : Collects slots args) (n : String) :
    draft.Reads dialect (.blockOpen :: .identifier n :: (as ++ [.tagClose]))
      (openedBlock draft n args) := by
  refine .cons (b := draft.moveTo .blockStart) (fun position => ?_) ?_
  · rw [extend_outside hspot]
    exact if_pos hroom
  · exact .cons (fun _ => rfl) (has.reads_collect hargs)

/-- The name of the innermost open block closes it. -/
theorem reads_blockClose {draft : Draft} {block : OpenBlock} {outer : List OpenBlock}
    (hspot : draft.spot = .outside) (hblocks : draft.blocks = block :: outer) :
    draft.Reads dialect [.blockClose, .identifier block.name, .tagClose]
      { items := block.outer.push (.block (block.close draft.items)), blocks := outer } := by
  refine .step fun position => ⟨draft.moveTo (.closeStart position), ?_, ?_⟩
  · rw [extend_outside hspot]
    rfl
  · refine .cons (b := draft.moveTo .closeEnd) (fun position' => ?_) (.cons (fun _ => ?_) (.nil _))
    · show (draft.moveTo (.closeStart position)).extendClose position _ = _
      simp [extendClose, moveTo, hblocks]
    · show Except.ok (draft.moveTo .closeEnd).closeBlock = _
      simp [closeBlock, moveTo, hblocks]

/-- The draft inside the section that a keyword opens in the innermost open block. -/
def openedSection (draft : Draft) (block : OpenBlock) (outer : List OpenBlock) (k : String)
    (args : Arguments) : Draft :=
  { items := #[]
    blocks := { block with filling := block.filling.next draft.items k args } :: outer }

/-- The header of a keyword section ends the section before it. -/
theorem reads_sectionOpen {draft : Draft} {block : OpenBlock} {outer : List OpenBlock}
    {as : List Lexeme} {slots : List (Option String × Value)} {args : Arguments} {k : String}
    (hspot : draft.spot = .outside) (hblocks : draft.blocks = block :: outer)
    (hk : dialect.isSectionKeyword block.name k = true) (has : Slots as slots)
    (hargs : Collects slots args) :
    draft.Reads dialect (.tagOpen :: .identifier k :: (as ++ [.tagClose]))
      (openedSection draft block outer k args) := by
  refine .cons (b := draft.moveTo .tagStart) (fun _ => ?_)
    (.cons (b := draft.moveTo (.arguments (.keyword k) {})) (fun _ => ?_) ?_)
  · rw [extend_outside hspot]
    rfl
  · show (if (draft.moveTo .tagStart).opensSection dialect k = true then _ else _) = _
    rw [if_pos (by simp [opensSection, moveTo, hblocks, hk])]
    rfl
  · have hclosed : draft.closeArguments (.keyword k) args =
        openedSection draft block outer k args := by
      simp only [closeArguments, hblocks, openedSection]
    rw [← hclosed]
    exact has.reads_collect hargs

/-- The block with more sections. -/
def addSections (block : Block) (more : List Section) : Block :=
  ⟨block.name, block.arguments, block.main, block.sections ++ more⟩

theorem addSections_nil (block : Block) : addSections block [] = block := by
  obtain ⟨name, arguments, main, sections⟩ := block
  rw [addSections, List.append_nil]

theorem addSections_addSections (block : Block) (more others : List Section) :
    addSections (addSections block more) others = addSections block (more ++ others) := by
  simp [addSections]

/-- A section that has been filled is the last of its block when the block ends. -/
theorem close_next (block : OpenBlock) (items items' : Array Item) (k : String)
    (args : Arguments) :
    ({ block with filling := block.filling.next items k args } : OpenBlock).close items' =
      addSections (block.close items) [⟨some k, args, items'.toList⟩] := by
  simp [OpenBlock.close, Filling.next, Filling.sections, addSections]

mutual

theorem Items.reads : ∀ {b : Option String} {ls : List Lexeme} {items : List Item}
    {draft : Draft}, Items dialect.isSectionKeyword b ls items → draft.spot = .outside →
    draft.blocks.head?.map OpenBlock.name = b →
    draft.blocks.length + Item.listNesting items ≤ dialect.maxDepth →
    draft.Reads dialect ls (draft.pushAll items)
  | _, _, _, draft, .nil, _, _, _ => .nil draft
  | _, _, _, draft, @Items.cons _ _ _ _ item items hitem hitems, hspot, hblock, hdepth => by
    simp only [Item.listNesting] at hdepth
    have h := hitem.reads hspot hblock (by omega)
    have h' : (draft.push item).Reads dialect _ ((draft.push item).pushAll items) :=
      hitems.reads rfl hblock (show draft.blocks.length + _ ≤ _ by omega)
    exact h.append h'

theorem OneItem.reads : ∀ {b : Option String} {ls : List Lexeme} {item : Item}
    {draft : Draft}, OneItem dialect.isSectionKeyword b ls item → draft.spot = .outside →
    draft.blocks.head?.map OpenBlock.name = b →
    draft.blocks.length + item.nesting ≤ dialect.maxDepth →
    draft.Reads dialect ls (draft.push item)
  | _, _, _, _, .text c, hspot, _, _ => .cons (fun _ => by rw [extend_outside hspot]; rfl) (.nil _)
  | _, _, _, _, .tag htag hstart, hspot, hblock, _ => by
    subst hblock
    exact .cons (fun _ => by rw [extend_outside hspot]; rfl) (htag.reads hstart)
  | _, _, _, _, .block hblock, hspot, _, hdepth => hblock.reads hspot hdepth

theorem OneBlock.reads : ∀ {ls : List Lexeme} {block : Block} {draft : Draft},
    OneBlock dialect.isSectionKeyword ls block → draft.spot = .outside →
    draft.blocks.length + block.nesting ≤ dialect.maxDepth →
    draft.Reads dialect ls (draft.push (.block block))
  | _, _, draft, @OneBlock.mk _ _ _ _ _ args main sections n has hargs hmain hsections, hspot,
      hdepth => by
    simp only [Block.nesting, Section.nesting, Section.ofItems] at hdepth
    -- The header of the block, its main part, its sections, and its close tag.
    have hopen : draft.Reads dialect _ (openedBlock draft n args) :=
      reads_blockOpen hspot (by omega) has hargs n
    have hitems : (openedBlock draft n args).Reads dialect _
        ((openedBlock draft n args).pushAll main) :=
      hmain.reads rfl rfl (show draft.blocks.length + 1 + _ ≤ _ by omega)
    obtain ⟨draft', block', hreads, hspot', hblocks', hname, houter, hclosed⟩ :=
      hsections.reads (spot_pushAll rfl main) (blocks_pushAll (openedBlock draft n args) main) rfl
        (by
          rw [blocks_pushAll]
          show draft.blocks.length + 1 + _ ≤ _
          omega)
    have hclose : draft'.Reads dialect _ _ := reads_blockClose hspot' hblocks'
    rw [hname, houter, hclosed] at hclose
    have h := hopen.append (hitems.append (hreads.append hclose))
    have hblock : addSections (OpenBlock.close
        { name := n, arguments := args, outer := draft.items }
        ((openedBlock draft n args).pushAll main).items) sections =
          ⟨n, args, .ofItems main, sections⟩ := by
      simp [addSections, OpenBlock.close, Filling.sections, toList_items_pushAll, openedBlock]
    rw [hblock] at h
    simpa only [List.cons_append, List.append_assoc, List.nil_append, push] using h

theorem Sections.reads : ∀ {n : String} {ls : List Lexeme} {sections : List Section}
    {draft : Draft} {block : OpenBlock} {outer : List OpenBlock},
    Sections dialect.isSectionKeyword n ls sections → draft.spot = .outside →
    draft.blocks = block :: outer → block.name = n →
    draft.blocks.length + Section.listNesting sections ≤ dialect.maxDepth →
    ∃ draft' block', draft.Reads dialect ls draft' ∧ draft'.spot = .outside ∧
      draft'.blocks = block' :: outer ∧ block'.name = n ∧ block'.outer = block.outer ∧
      block'.close draft'.items = addSections (block.close draft.items) sections
  | _, _, _, draft, block, _, .nil, hspot, hblocks, hname, _ =>
    ⟨draft, block, .nil _, hspot, hblocks, hname, rfl, (addSections_nil _).symm⟩
  | _, _, _, draft, block, outer, @Sections.cons _ _ k _ _ _ _ args items _ hk has hargs hitems
      hrest, hspot, hblocks, hname, hdepth => by
    simp only [Section.listNesting, Section.nesting, hblocks, List.length_cons] at hdepth
    subst hname
    -- The header of the section, its items, and the sections behind it.
    have hopen : draft.Reads dialect _ (openedSection draft block outer k args) :=
      reads_sectionOpen hspot hblocks hk has hargs
    have hitems' : (openedSection draft block outer k args).Reads dialect _
        ((openedSection draft block outer k args).pushAll items) :=
      hitems.reads rfl rfl (show outer.length + 1 + _ ≤ _ by omega)
    obtain ⟨draft', block', hreads, hspot', hblocks', hname, houter, hclosed⟩ :=
      hrest.reads (spot_pushAll rfl items)
        (blocks_pushAll (openedSection draft block outer k args) items) rfl
        (by
          rw [blocks_pushAll]
          show outer.length + 1 + _ ≤ _
          omega)
    refine ⟨draft', block', ?_, hspot', hblocks', hname, houter, ?_⟩
    · have h := hopen.append (hitems'.append hreads)
      simpa only [List.cons_append, List.append_assoc, List.nil_append] using h
    · rw [hclosed, close_next, addSections_addSections, toList_items_pushAll]
      rfl

end

/-- Tokens whose lexemes derive a template make it. -/
theorem Derives.ofTokens {tokens : List Token} {template : Template}
    (h : Derives dialect.isSectionKeyword (tokens.map Token.lexeme) template)
    (hdepth : template.nesting ≤ dialect.maxDepth) (position : Nat) :
    Template.ofTokens dialect tokens position = .ok template := by
  have hreads : ({} : Draft).Reads dialect _ (({} : Draft).pushAll template.items) :=
    Items.reads h rfl rfl (show 0 + template.nesting ≤ _ by omega)
  rw [Template.ofTokens, hreads tokens rfl]
  refine finish_eq_ok_iff.mpr ⟨spot_pushAll rfl _, blocks_pushAll _ _, ?_⟩
  rw [toList_items_pushAll]
  rfl

end Grammar

end Stencil
