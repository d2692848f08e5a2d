/-
What is read derives.

A draft knows all the lexemes before it: `draft.Spells dialect ls` says that `ls` derives the
items of every list that the draft has open (`Stack`), and that the rest of `ls` is the part
of a tag that the draft's spot stands for (`SpotSpells`).

* `spells_extend` — one token more is one lexeme more;
* `spells_extendAll` — so a draft that tokens lead to knows all of them.

Once the draft is a whole template, nothing but a derivation is left, and
`Template.ofSource_eq_ok_iff` has both directions: the templates of a source are those that
its lexemes derive.
-/
import Mathlib
import Stencil.Proofs.Grammar.Accepted

namespace Stencil

open Grammar

theorem Grammar.Tag.nesting {ls : List Lexeme} {item : Item} (h : Tag ls item) :
    item.nesting = 0 := by
  cases h with
  | name n => rfl
  | comparison n op hr => rfl
  | call n has hne hargs => rfl
  | literal hl => rfl
  | literalComparison op hl hr => rfl

namespace Draft

/-! ### Open blocks -/

variable {keyword : String → String → Bool}

/-- The lexemes derive the sections of a block up to the items of the one being filled. -/
inductive Filled (keyword : String → String → Bool) (n : String) :
    Filling → List Item → List Lexeme → Prop
  | ofMain {items : List Item} {ls : List Lexeme} :
      Items keyword (some n) ls items → Filled keyword n .ofMain items ls
  | ofKeyword {main items : List Item} {done : Array Section} {k : String}
      {slots : List (Option String × Value)} {ms ss as ls : List Lexeme} :
      Items keyword (some n) ms main → Sections keyword n ss done.toList →
      keyword n k = true → Slots as slots → Items keyword (some n) ls items →
      Filled keyword n (.ofKeyword (.ofItems main) done k (collect slots)) items
        (ms ++ (ss ++ (.tagOpen :: .identifier k :: (as ++ .tagClose :: ls))))

theorem Filled.concat {n : String} {filling : Filling} {items : List Item} {ls ms : List Lexeme}
    {item : Item} (h : Filled keyword n filling items ls)
    (hitem : OneItem keyword (some n) ms item) :
    Filled keyword n filling (items ++ [item]) (ls ++ ms) := by
  cases h with
  | ofMain hitems => exact .ofMain (hitems.concat hitem)
  | ofKeyword hmain hdone hk has hitems =>
    have h := Filled.ofKeyword hmain hdone hk has (hitems.concat hitem)
    simpa only [List.append_assoc, List.cons_append] using h

/-- The lexemes of all sections, once the one being filled ends. -/
theorem Filled.sections {n : String} {filling : Filling} {items : Array Item}
    {ls : List Lexeme} (h : Filled keyword n filling items.toList ls) :
    ∃ main ms ss, ls = ms ++ ss ∧ (filling.sections items).1 = .ofItems main ∧
      Items keyword (some n) ms main ∧
      Sections keyword n ss (filling.sections items).2.toList := by
  cases h with
  | ofMain hitems => exact ⟨_, _, [], (List.append_nil _).symm, rfl, hitems, .nil⟩
  | @ofKeyword main _ done k slots ms ss as ls hmain hdone hk has hitems =>
    refine ⟨main, ms, _, rfl, rfl, hmain, ?_⟩
    have hlast := Sections.cons hk has (collects_collect slots) hitems .nil
    rw [List.append_nil] at hlast
    simpa only [Filling.sections, Array.toList_push] using hlast.append hdone

/-- A block nests as deep as what it holds, be it still being filled. -/
theorem nesting_close_push (block : OpenBlock) (items : Array Item) (item : Item) :
    (block.close (items.push item)).nesting =
      max (block.close items).nesting (1 + item.nesting) := by
  obtain ⟨name, arguments, outer, filling⟩ := block
  cases filling with
  | ofMain =>
    simp only [OpenBlock.close, Filling.sections, Block.nesting, Section.ofItems, Section.nesting,
      Array.toList_push, Item.listNesting_append, Item.listNesting, Section.listNesting]
    omega
  | ofKeyword main done keyword arguments =>
    simp only [OpenBlock.close, Filling.sections, Block.nesting, Section.nesting,
      Array.toList_push, Item.listNesting_append, Item.listNesting, Section.listNesting_append,
      Section.listNesting]
    omega

theorem one_le_nesting (block : Block) : 1 ≤ block.nesting := by
  obtain ⟨name, arguments, main, sections⟩ := block
  rw [Block.nesting]
  omega

theorem nesting_addSections (block : Block) (k : String) (args : Arguments) :
    (addSections block [⟨some k, args, []⟩]).nesting = block.nesting := by
  obtain ⟨name, arguments, main, sections⟩ := block
  simp [addSections, Block.nesting, Section.listNesting_append, Section.listNesting,
    Section.nesting, Item.listNesting]

/-- The lexemes derive the items of the innermost open list, and of those around it, and no
list holds too many blocks for its place. -/
inductive Stack (dialect : Dialect) : List OpenBlock → Array Item → List Lexeme → Prop
  | root {items : Array Item} {ls : List Lexeme} :
      Items dialect.isSectionKeyword none ls items.toList →
      Item.listNesting items.toList ≤ dialect.maxDepth → Stack dialect [] items ls
  | block {blocks : List OpenBlock} {outer items : Array Item} {n : String}
      {slots : List (Option String × Value)} {filling : Filling} {ls as ms : List Lexeme} :
      Stack dialect blocks outer ls → Slots as slots →
      Filled dialect.isSectionKeyword n filling items.toList ms →
      blocks.length + (OpenBlock.close { name := n, arguments := collect slots, outer, filling }
        items).nesting ≤ dialect.maxDepth →
      Stack dialect ({ name := n, arguments := collect slots, outer, filling } :: blocks) items
        (ls ++ .blockOpen :: .identifier n :: (as ++ .tagClose :: ms))

variable {dialect : Dialect} {blocks : List OpenBlock}

theorem Stack.length_le {items : Array Item} {ls : List Lexeme}
    (h : Stack dialect blocks items ls) : blocks.length ≤ dialect.maxDepth := by
  cases h with
  | root _ _ => exact Nat.zero_le _
  | block _ _ _ hdepth => exact Nat.le_trans (Nat.add_le_add_left (one_le_nesting _) _) hdepth

theorem Stack.push {items : Array Item} {ls ms : List Lexeme} {item : Item}
    (h : Stack dialect blocks items ls)
    (hitem : OneItem dialect.isSectionKeyword (blocks.head?.map OpenBlock.name) ms item)
    (hdepth : blocks.length + item.nesting ≤ dialect.maxDepth) :
    Stack dialect blocks (items.push item) (ls ++ ms) := by
  cases h with
  | root hitems hnesting =>
    refine .root ?_ ?_
    · rw [Array.toList_push]
      exact hitems.concat hitem
    · rw [Array.toList_push, Item.listNesting_append, Item.listNesting, Item.listNesting]
      simp only [List.length_nil] at hdepth
      omega
  | block houter has hfilled hnesting =>
    have hfilled := hfilled.concat hitem
    rw [← Array.toList_push] at hfilled
    have h := Stack.block houter has hfilled <| by
      rw [nesting_close_push]
      simp only [List.length_cons] at hdepth
      omega
    simpa only [List.append_assoc, List.cons_append] using h

theorem Stack.openBlock {items : Array Item} {ls as : List Lexeme}
    {slots : List (Option String × Value)} (h : Stack dialect blocks items ls)
    (hroom : blocks.length < dialect.maxDepth) (has : Slots as slots) (n : String) :
    Stack dialect ({ name := n, arguments := collect slots, outer := items } :: blocks) #[]
      (ls ++ .blockOpen :: .identifier n :: (as ++ [.tagClose])) :=
  .block h has (.ofMain .nil) hroom

theorem Stack.openSection {block : OpenBlock} {outer : List OpenBlock} {items : Array Item}
    {ls as : List Lexeme} {slots : List (Option String × Value)} {k : String}
    (h : Stack dialect (block :: outer) items ls)
    (hk : dialect.isSectionKeyword block.name k = true) (has : Slots as slots) :
    Stack dialect
      ({ block with filling := block.filling.next items k (collect slots) } :: outer) #[]
      (ls ++ .tagOpen :: .identifier k :: (as ++ [.tagClose])) := by
  cases h with
  | @block _ outer' _ n bslots filling _ _ _ houter hbs hfilled hdepth =>
    obtain ⟨main, ms, ss, rfl, hmain, hms, hss⟩ := hfilled.sections
    -- What has been filled so far is done, and the new section is still empty.
    have hnext : filling.next items k (collect slots) =
        .ofKeyword (.ofItems main) (filling.sections items).2 k (collect slots) := by
      rw [← hmain]
      rfl
    have hclose := close_next
      { name := n, arguments := collect bslots, outer := outer', filling } items #[] k
      (collect slots)
    have hfilled : Filled dialect.isSectionKeyword n _ (#[] : Array Item).toList _ :=
      .ofKeyword hms hss hk has .nil
    have h := Stack.block houter hbs hfilled <| by
      rw [← hnext, hclose, nesting_addSections]
      exact hdepth
    rw [← hnext] at h
    simpa only [List.append_assoc, List.cons_append, List.nil_append] using h

theorem Stack.closeBlock {block : OpenBlock} {outer : List OpenBlock} {items : Array Item}
    {ls : List Lexeme} (h : Stack dialect (block :: outer) items ls) :
    Stack dialect outer (block.outer.push (.block (block.close items)))
      (ls ++ [.blockClose, .identifier block.name, .tagClose]) := by
  cases h with
  | @block _ _ _ n slots _ _ as _ houter has hfilled hdepth =>
    obtain ⟨main, ms, ss, rfl, hmain, hms, hss⟩ := hfilled.sections
    have hblock := OneBlock.mk n has (collects_collect slots) hms hss
    rw [← hmain] at hblock
    have h := houter.push (.block hblock) hdepth
    simpa only [OpenBlock.close, List.append_assoc, List.cons_append, List.nil_append] using h

/-! ### Parts of a tag -/

/-- The lexemes before the arguments of an owner. -/
def ownerLexemes : ArgumentOwner → List Lexeme
  | .call n => [.tagOpen, .identifier n]
  | .block n => [.blockOpen, .identifier n]
  | .keyword k => [.tagOpen, .identifier k]

/-- Whether arguments of an owner may stand directly inside the innermost of the blocks. -/
def OwnerAllowed (dialect : Dialect) (blocks : List OpenBlock) : ArgumentOwner → Prop
  | .call n =>
    ¬StartsSection dialect.isSectionKeyword (blocks.head?.map OpenBlock.name) [.identifier n]
  | .block _ => blocks.length < dialect.maxDepth
  | .keyword k =>
    ∃ block outer, blocks = block :: outer ∧ dialect.isSectionKeyword block.name k = true

/-- The lexemes before the value of a slot. -/
def keyLexemes : Option String → List Lexeme
  | none => []
  | some k => [.identifier k, .assign]

theorem slot_of_expr {ls : List Lexeme} {v : Value} (h : Expr ls v) :
    ∀ key?, Slot (keyLexemes key? ++ ls) (key?, v)
  | none => .positional h
  | some k => .named k h

/-- The part of a tag that a spot stands for. -/
inductive SpotSpells (dialect : Dialect) (blocks : List OpenBlock) :
    Spot → List Lexeme → Prop
  | outside : SpotSpells dialect blocks .outside []
  | tagStart : SpotSpells dialect blocks .tagStart [.tagOpen]
  | tagName {n : String} :
      ¬StartsSection dialect.isSectionKeyword (blocks.head?.map OpenBlock.name)
        [.identifier n] →
      SpotSpells dialect blocks (.tagName n) [.tagOpen, .identifier n]
  | tagValue {l : Lexeme} {v : Value} :
      Literal l v → SpotSpells dialect blocks (.value .tag v) [.tagOpen, l]
  | tagOperator {l : Lexeme} {v : Value} {op : Comparison} :
      Primary l v →
      ¬StartsSection dialect.isSectionKeyword (blocks.head?.map OpenBlock.name) [l] →
      SpotSpells dialect blocks (.operator .tag op v) [.tagOpen, l, .comparison op]
  | tagEnd {ls : List Lexeme} {v : Value} :
      Tag ls (.expression v) →
      ¬StartsSection dialect.isSectionKeyword (blocks.head?.map OpenBlock.name) ls →
      SpotSpells dialect blocks (.tagEnd v) (.tagOpen :: ls)
  | arguments {owner : ArgumentOwner} {slots : List (Option String × Value)}
      {as : List Lexeme} :
      OwnerAllowed dialect blocks owner → Slots as slots →
      ((∃ n, owner = .call n) → slots ≠ []) →
      SpotSpells dialect blocks (.arguments owner (collect slots)) (ownerLexemes owner ++ as)
  | argumentName {owner : ArgumentOwner} {slots : List (Option String × Value)}
      {as : List Lexeme} {n : String} :
      OwnerAllowed dialect blocks owner → Slots as slots →
      SpotSpells dialect blocks (.argumentName owner (collect slots) n)
        (ownerLexemes owner ++ (as ++ [.identifier n]))
  | argumentKey {owner : ArgumentOwner} {slots : List (Option String × Value)}
      {as : List Lexeme} {k : String} :
      OwnerAllowed dialect blocks owner → Slots as slots →
      SpotSpells dialect blocks (.argumentKey owner (collect slots) k)
        (ownerLexemes owner ++ (as ++ [.identifier k, .assign]))
  | value {owner : ArgumentOwner} {slots : List (Option String × Value)} {as : List Lexeme}
      {l : Lexeme} {v : Value} (key? : Option String) :
      OwnerAllowed dialect blocks owner → Slots as slots → Primary l v →
      SpotSpells dialect blocks (.value (.argument owner (collect slots) key?) v)
        (ownerLexemes owner ++ (as ++ (keyLexemes key? ++ [l])))
  | operator {owner : ArgumentOwner} {slots : List (Option String × Value)} {as : List Lexeme}
      {key? : Option String} {l : Lexeme} {v : Value} {op : Comparison} :
      OwnerAllowed dialect blocks owner → Slots as slots → Primary l v →
      SpotSpells dialect blocks (.operator (.argument owner (collect slots) key?) op v)
        (ownerLexemes owner ++ (as ++ (keyLexemes key? ++ [l, .comparison op])))
  | blockStart :
      blocks.length < dialect.maxDepth → SpotSpells dialect blocks .blockStart [.blockOpen]
  | closeStart {position : Nat} :
      SpotSpells dialect blocks (.closeStart position) [.blockClose]
  | closeEnd {block : OpenBlock} {outer : List OpenBlock} :
      blocks = block :: outer →
      SpotSpells dialect blocks .closeEnd [.blockClose, .identifier block.name]

/-- The lexemes that a draft has taken: those of the open lists, and then those of the tag that
it stands in. -/
def Spells (dialect : Dialect) (draft : Draft) (ls : List Lexeme) : Prop :=
  ∃ as bs, ls = as ++ bs ∧
    Stack dialect draft.blocks draft.items as ∧ SpotSpells dialect draft.blocks draft.spot bs

/-! ### One token more -/

section

variable {draft draft' : Draft} {as : List Lexeme}
  (hstack : Stack dialect draft.blocks draft.items as)

include hstack

theorem spells_moveTo {spot : Spot} {bs : List Lexeme}
    (h : SpotSpells dialect draft.blocks spot bs) :
    (draft.moveTo spot).Spells dialect (as ++ bs) :=
  ⟨as, bs, rfl, hstack, h⟩

theorem spells_push {item : Item} {ms : List Lexeme}
    (h : OneItem dialect.isSectionKeyword (draft.blocks.head?.map OpenBlock.name) ms item)
    (hflat : item.nesting = 0) :
    (draft.push item).Spells dialect (as ++ ms) := by
  have hdepth : draft.blocks.length + item.nesting ≤ dialect.maxDepth := by
    rw [hflat]
    exact hstack.length_le
  exact ⟨as ++ ms, [], (List.append_nil _).symm, hstack.push h hdepth, .outside⟩

theorem spells_pushTag {item : Item} {ms : List Lexeme} (h : Tag ms item)
    (hstart : ¬StartsSection dialect.isSectionKeyword
      (draft.blocks.head?.map OpenBlock.name) ms) :
    (draft.push item).Spells dialect (as ++ .tagOpen :: (ms ++ [.tagClose])) :=
  spells_push hstack (.tag h hstart) h.nesting

theorem spells_closeArguments {owner : ArgumentOwner} {slots : List (Option String × Value)}
    {ms : List Lexeme} (howner : OwnerAllowed dialect draft.blocks owner) (hms : Slots ms slots)
    (hcall : (∃ n, owner = .call n) → slots ≠ []) :
    (draft.closeArguments owner (collect slots)).Spells dialect
      (as ++ (ownerLexemes owner ++ (ms ++ [.tagClose]))) := by
  cases owner with
  | call n =>
    exact spells_pushTag hstack (.call n hms (hcall ⟨n, rfl⟩) (collects_collect slots)) howner
  | block n =>
    exact ⟨_, [], (List.append_nil _).symm, hstack.openBlock howner hms n, .outside⟩
  | keyword k =>
    obtain ⟨block, outer, hblocks, hk⟩ := howner
    rw [hblocks] at hstack
    have h := hstack.openSection hk hms
    rw [closeArguments, hblocks]
    exact ⟨_, [], (List.append_nil _).symm, h, .outside⟩

/-- A token between arguments.  It ends them, or starts the next one. -/
theorem spells_extendArguments {owner : ArgumentOwner} {slots : List (Option String × Value)}
    {ms : List Lexeme} {token : Token} (howner : OwnerAllowed dialect draft.blocks owner)
    (hms : Slots ms slots)
    (hcall : token.lexeme = .tagClose → (∃ n, owner = .call n) → slots ≠ [])
    (h : draft.extendArguments owner (collect slots) token = .ok draft') :
    draft'.Spells dialect (as ++ (ownerLexemes owner ++ (ms ++ [token.lexeme]))) := by
  obtain ⟨lexeme, position⟩ := token
  cases lexeme with
  | tagClose =>
    cases h
    exact spells_closeArguments hstack howner hms (hcall rfl)
  | identifier n =>
    cases h
    exact spells_moveTo hstack (.argumentName howner hms)
  | string s =>
    cases h
    exact spells_moveTo hstack (.value none howner hms (.literal (.string s)))
  | number d =>
    cases h
    exact spells_moveTo hstack (.value none howner hms (.literal (.number d)))
  | _ => cases h

/-- A token behind a value of a slot. -/
theorem spells_extendValue {owner : ArgumentOwner} {slots : List (Option String × Value)}
    {ms : List Lexeme} {key? : Option String} {l : Lexeme} {v : Value} {token : Token}
    (howner : OwnerAllowed dialect draft.blocks owner) (hms : Slots ms slots)
    (hl : Primary l v)
    (h : draft.extendValue (.argument owner (collect slots) key?) v token = .ok draft') :
    draft'.Spells dialect
      (as ++ (ownerLexemes owner ++ (ms ++ (keyLexemes key? ++ [l, token.lexeme])))) := by
  have hslots := hms.concat (slot_of_expr (.primary hl) key?)
  -- Any token but an operator is taken as behind arguments that have the value already.
  have harguments : ∀ {token : Token},
      draft.extendArguments owner ((collect slots).add key? v) token = .ok draft' →
      draft'.Spells dialect
        (as ++ (ownerLexemes owner ++ (ms ++ (keyLexemes key? ++ [l, token.lexeme])))) := by
    intro token h
    rw [← collect_concat slots (key?, v)] at h
    have h := spells_extendArguments hstack howner hslots
      (fun _ _ => List.append_ne_nil_of_right_ne_nil _ (List.cons_ne_nil _ _)) h
    simpa only [List.append_assoc, List.cons_append, List.nil_append] using h
  obtain ⟨lexeme, position⟩ := token
  cases lexeme with
  | comparison op =>
    cases h
    exact spells_moveTo hstack (.operator howner hms hl)
  | _ => exact harguments h

omit hstack in
/-- A token behind the operator of a comparison. -/
theorem operand_of_extend {destination : Destination} {op : Comparison} {v : Value}
    {token : Token}
    (h : (draft.moveTo (.operator destination op v)).extend dialect token = .ok draft') :
    ∃ w, Operand token.lexeme w ∧ draft' = draft.settle destination (.comparison op v w) := by
  obtain ⟨lexeme, position⟩ := token
  cases lexeme with
  | identifier n =>
    cases h
    exact ⟨_, .name n, by cases destination <;> rfl⟩
  | string s =>
    cases h
    exact ⟨_, .string s, by cases destination <;> rfl⟩
  | _ => cases h

/-- A token outside of tags. -/
theorem spells_extendOutside {token : Token}
    (h : draft.extendOutside dialect token = .ok draft') :
    draft'.Spells dialect (as ++ [token.lexeme]) := by
  obtain ⟨lexeme, position⟩ := token
  cases lexeme with
  | text c =>
    cases h
    exact spells_push hstack (.text c) rfl
  | tagOpen =>
    cases h
    exact spells_moveTo hstack .tagStart
  | blockOpen =>
    by_cases hroom : draft.blocks.length < dialect.maxDepth
    · rw [extendOutside, if_pos hroom] at h
      cases h
      exact spells_moveTo hstack (.blockStart hroom)
    · rw [extendOutside, if_neg hroom] at h
      cases h
  | blockClose =>
    cases h
    exact spells_moveTo hstack .closeStart
  | _ => cases h

/-- A token behind `{{`. -/
theorem spells_extendTagStart {token : Token}
    (h : (draft.moveTo .tagStart).extend dialect token = .ok draft') :
    draft'.Spells dialect (as ++ [.tagOpen, token.lexeme]) := by
  obtain ⟨lexeme, position⟩ := token
  cases lexeme with
  | identifier n =>
    -- A keyword of the innermost block starts a section, any other name a tag.
    cases hopens : draft.opensSection dialect n with
    | false =>
      rw [show (draft.moveTo .tagStart).extend dialect ⟨.identifier n, position⟩ =
        if draft.opensSection dialect n = true then _ else .ok (draft.moveTo (.tagName n))
        from rfl, hopens] at h
      cases h
      refine spells_moveTo hstack (.tagName ?_)
      rintro ⟨b, k, hb, hk, hkeyword⟩
      obtain rfl : n = k := by simpa using hk
      obtain ⟨block, hblock, rfl⟩ := Option.map_eq_some_iff.mp hb
      simp [opensSection, hblock, hkeyword] at hopens
    | true =>
      rw [show (draft.moveTo .tagStart).extend dialect ⟨.identifier n, position⟩ =
        if draft.opensSection dialect n = true then .ok (draft.moveTo (.arguments (.keyword n) {}))
        else _ from rfl, hopens] at h
      cases h
      have hcall : (∃ m, ArgumentOwner.keyword n = .call m) →
          ([] : List (Option String × Value)) ≠ [] := by
        rintro ⟨m, hm⟩
        cases hm
      refine spells_moveTo hstack
        (@SpotSpells.arguments dialect draft.blocks (.keyword n) [] [] ?_ .nil hcall)
      rw [opensSection] at hopens
      rcases hblocks : draft.blocks with _ | ⟨block, outer⟩
      · rw [hblocks] at hopens
        cases hopens
      · rw [hblocks] at hopens
        exact ⟨block, outer, rfl, hopens⟩
  | string s =>
    cases h
    exact spells_moveTo hstack (.tagValue (.string s))
  | number d =>
    cases h
    exact spells_moveTo hstack (.tagValue (.number d))
  | _ => cases h

/-- A token behind the name that starts a tag. -/
theorem spells_extendTagName {n : String} {token : Token}
    (hstart : ¬StartsSection dialect.isSectionKeyword
      (draft.blocks.head?.map OpenBlock.name) [.identifier n])
    (h : (draft.moveTo (.tagName n)).extend dialect token = .ok draft') :
    draft'.Spells dialect (as ++ [.tagOpen, .identifier n, token.lexeme]) := by
  have harguments : ∀ {token : Token}, token.lexeme ≠ .tagClose →
      (draft.moveTo (.tagName n)).extendArguments (.call n) {} token = .ok draft' →
      draft'.Spells dialect (as ++ [.tagOpen, .identifier n, token.lexeme]) := by
    intro token hclose h
    exact @spells_extendArguments dialect (draft.moveTo (.tagName n)) draft' as hstack (.call n)
      [] [] token hstart .nil (fun h => absurd h hclose) h
  obtain ⟨lexeme, position⟩ := token
  cases lexeme with
  | tagClose =>
    cases h
    exact spells_pushTag hstack (.name n) hstart
  | comparison op =>
    cases h
    exact spells_moveTo hstack (.tagOperator (.name n) hstart)
  | _ => exact harguments nofun h

/-- A token behind a quoted text or a number that starts a tag. -/
theorem spells_extendTagValue {l : Lexeme} {v : Value} {token : Token} (hl : Literal l v)
    (h : (draft.moveTo (.value .tag v)).extend dialect token = .ok draft') :
    draft'.Spells dialect (as ++ [.tagOpen, l, token.lexeme]) := by
  have hstart : ∀ ls, ¬StartsSection dialect.isSectionKeyword
      (draft.blocks.head?.map OpenBlock.name) (l :: ls) := by
    rintro ls ⟨b, k, -, hk, -⟩
    cases hl <;> simp at hk
  obtain ⟨lexeme, position⟩ := token
  cases lexeme with
  | tagClose =>
    cases h
    exact spells_pushTag hstack (.literal hl) (hstart [])
  | comparison op =>
    cases h
    exact spells_moveTo hstack (.tagOperator (.literal hl) (hstart []))
  | _ => cases h

/-- A token behind the operator of the comparison that a tag prints. -/
theorem spells_extendTagOperator {l : Lexeme} {v : Value} {op : Comparison} {token : Token}
    (hl : Primary l v)
    (hstart : ¬StartsSection dialect.isSectionKeyword
      (draft.blocks.head?.map OpenBlock.name) [l])
    (h : (draft.moveTo (.operator .tag op v)).extend dialect token = .ok draft') :
    draft'.Spells dialect (as ++ [.tagOpen, l, .comparison op, token.lexeme]) := by
  obtain ⟨w, hw, rfl⟩ := operand_of_extend h
  refine spells_moveTo hstack (.tagEnd ?_ hstart)
  rcases hl with n | hl
  · exact .comparison n op hw
  · exact .literalComparison op hl hw

/-- A token behind the operator of a comparison in a slot. -/
theorem spells_extendOperator {owner : ArgumentOwner} {slots : List (Option String × Value)}
    {ms : List Lexeme} {key? : Option String} {l : Lexeme} {v : Value} {op : Comparison}
    {token : Token} (howner : OwnerAllowed dialect draft.blocks owner) (hms : Slots ms slots)
    (hl : Primary l v)
    (h : (draft.moveTo (.operator (.argument owner (collect slots) key?) op v)).extend dialect
      token = .ok draft') :
    draft'.Spells dialect (as ++ (ownerLexemes owner ++
      (ms ++ (keyLexemes key? ++ [l, .comparison op, token.lexeme])))) := by
  obtain ⟨w, hw, rfl⟩ := operand_of_extend h
  have hslots := hms.concat (slot_of_expr (.comparison op hl hw) key?)
  have hspot := @SpotSpells.arguments dialect draft.blocks owner _ _ howner hslots
    fun _ => List.append_ne_nil_of_right_ne_nil _ (List.cons_ne_nil _ _)
  rw [collect_concat] at hspot
  exact spells_moveTo hstack hspot

/-- A token behind a name in a slot. -/
theorem spells_extendArgumentName {owner : ArgumentOwner}
    {slots : List (Option String × Value)} {ms : List Lexeme} {n : String} {token : Token}
    (howner : OwnerAllowed dialect draft.blocks owner) (hms : Slots ms slots)
    (h : (draft.moveTo (.argumentName owner (collect slots) n)).extend dialect token =
      .ok draft') :
    draft'.Spells dialect
      (as ++ (ownerLexemes owner ++ (ms ++ [.identifier n, token.lexeme]))) := by
  obtain ⟨lexeme, position⟩ := token
  cases lexeme with
  | assign =>
    cases h
    exact spells_moveTo hstack (.argumentKey howner hms)
  | _ =>
    exact @spells_extendValue dialect (draft.moveTo (.argumentName owner (collect slots) n))
      draft' as hstack owner slots ms none _ _ _ howner hms (.name n) h

/-- A token behind the `=` of a named argument. -/
theorem spells_extendArgumentKey {owner : ArgumentOwner}
    {slots : List (Option String × Value)} {ms : List Lexeme} {k : String} {token : Token}
    (howner : OwnerAllowed dialect draft.blocks owner) (hms : Slots ms slots)
    (h : (draft.moveTo (.argumentKey owner (collect slots) k)).extend dialect token =
      .ok draft') :
    draft'.Spells dialect
      (as ++ (ownerLexemes owner ++ (ms ++ [.identifier k, .assign, token.lexeme]))) := by
  obtain ⟨lexeme, position⟩ := token
  cases lexeme with
  | identifier n =>
    cases h
    exact spells_moveTo hstack (.value (some k) howner hms (.name n))
  | string s =>
    cases h
    exact spells_moveTo hstack (.value (some k) howner hms (.literal (.string s)))
  | number d =>
    cases h
    exact spells_moveTo hstack (.value (some k) howner hms (.literal (.number d)))
  | _ => cases h

/-- A token behind `{{/`. -/
theorem spells_extendClose {position : Nat} {token : Token}
    (h : (draft.moveTo (.closeStart position)).extendClose position token = .ok draft') :
    draft'.Spells dialect (as ++ [.blockClose, token.lexeme]) := by
  obtain ⟨lexeme, position'⟩ := token
  cases lexeme with
  | identifier n =>
    rcases hblocks : draft.blocks with _ | ⟨block, outer⟩
    · rw [extendClose, show (draft.moveTo (.closeStart position)).blocks = [] from hblocks] at h
      cases h
    · rw [extendClose,
        show (draft.moveTo (.closeStart position)).blocks = block :: outer from hblocks] at h
      by_cases hname : n = block.name
      · simp only [hname, ↓reduceIte] at h
        cases h
        subst hname
        exact spells_moveTo hstack (.closeEnd hblocks)
      · simp only [hname, ↓reduceIte] at h
        cases h
  | _ => cases h

/-- The `}}` of a close tag. -/
theorem spells_extendCloseEnd {block : OpenBlock} {outer : List OpenBlock} {token : Token}
    (hblocks : draft.blocks = block :: outer)
    (h : (draft.moveTo .closeEnd).extend dialect token = .ok draft') :
    draft'.Spells dialect (as ++ [.blockClose, .identifier block.name, token.lexeme]) := by
  obtain ⟨lexeme, position⟩ := token
  cases lexeme with
  | tagClose =>
    rw [hblocks] at hstack
    have hclosed := hstack.closeBlock
    cases h
    rw [closeBlock, show (draft.moveTo .closeEnd).blocks = block :: outer from hblocks]
    exact ⟨_, [], (List.append_nil _).symm, hclosed, .outside⟩
  | _ => cases h

end

/-- One token more is one lexeme more. -/
theorem spells_extend {draft draft' : Draft} {ls : List Lexeme} {token : Token}
    (h : draft.Spells dialect ls) (hextend : draft.extend dialect token = .ok draft') :
    draft'.Spells dialect (ls ++ [token.lexeme]) := by
  obtain ⟨as, bs, rfl, hstack, hspot⟩ := h
  -- The spot is all that tells the cases apart; the open lists are `hstack` in each of them.
  rw [show draft = draft.moveTo draft.spot from rfl] at hextend
  generalize draft.spot = spot at hspot hextend
  cases hspot with
  | outside =>
    rw [List.append_nil]
    exact @spells_extendOutside dialect (draft.moveTo .outside) draft' as hstack token hextend
  | tagStart => simpa using spells_extendTagStart hstack hextend
  | tagName hstart => simpa using spells_extendTagName hstack hstart hextend
  | tagValue hl => simpa using spells_extendTagValue hstack hl hextend
  | tagOperator hl hstart => simpa using spells_extendTagOperator hstack hl hstart hextend
  | @tagEnd ms v htag hstart =>
    obtain ⟨lexeme, position⟩ := token
    cases lexeme with
    | tagClose =>
      cases hextend
      rw [List.append_assoc]
      exact spells_pushTag hstack htag hstart
    | _ => cases hextend
  | @arguments owner slots ms howner hms hcall =>
    have h := @spells_extendArguments dialect
      (draft.moveTo (.arguments owner (collect slots))) draft' as hstack owner slots ms token howner
      hms (fun _ => hcall) hextend
    simpa using h
  | argumentName howner hms => simpa using spells_extendArgumentName hstack howner hms hextend
  | argumentKey howner hms => simpa using spells_extendArgumentKey hstack howner hms hextend
  | @value owner slots ms l v key? howner hms hl =>
    have h := @spells_extendValue dialect (draft.moveTo (.value (.argument owner _ key?) v)) draft'
      as hstack owner slots ms key? l v token howner hms hl hextend
    simpa using h
  | operator howner hms hl => simpa using spells_extendOperator hstack howner hms hl hextend
  | blockStart hroom =>
    obtain ⟨lexeme, position⟩ := token
    cases lexeme with
    | identifier n =>
      cases hextend
      have h := @SpotSpells.arguments dialect draft.blocks (.block n) [] [] hroom .nil nofun
      rw [List.append_assoc]
      exact spells_moveTo hstack h
    | _ => cases hextend
  | closeStart => simpa using spells_extendClose hstack hextend
  | closeEnd hblocks => simpa using spells_extendCloseEnd hstack hblocks hextend

/-- A draft that tokens lead to knows the lexemes of all of them. -/
theorem spells_extendAll {draft draft' : Draft} {ls : List Lexeme} {tokens : List Token}
    (h : draft.Spells dialect ls) (hextend : draft.extendAll dialect tokens = .ok draft') :
    draft'.Spells dialect (ls ++ tokens.map Token.lexeme) := by
  induction tokens generalizing draft ls with
  | nil =>
    cases hextend
    simpa using h
  | cons token tokens ih =>
    rw [extendAll_cons] at hextend
    cases hnext : draft.extend dialect token with
    | error fault =>
      rw [hnext] at hextend
      cases hextend
    | ok next =>
      rw [hnext] at hextend
      simpa using ih (spells_extend h hnext) hextend

/-- The empty draft has taken nothing. -/
theorem spells_nil (dialect : Dialect) : ({} : Draft).Spells dialect [] :=
  ⟨[], [], rfl, .root .nil (Nat.zero_le _), .outside⟩

/-- What has been read of a source is known. -/
theorem spells_of_extendAll {draft : Draft} {tokens : List Token}
    (h : Draft.extendAll dialect {} tokens = .ok draft) :
    draft.Spells dialect (tokens.map Token.lexeme) :=
  spells_extendAll (spells_nil dialect) h

end Draft

namespace Grammar

variable {dialect : Dialect}

/-- Tokens make a template exactly if their lexemes derive it and its blocks do not nest too
deep. -/
theorem ofTokens_eq_ok_iff {tokens : List Token} {position : Nat} {template : Template} :
    Template.ofTokens dialect tokens position = .ok template ↔
      Derives dialect.isSectionKeyword (tokens.map Token.lexeme) template ∧
        template.nesting ≤ dialect.maxDepth := by
  constructor
  · intro h
    rw [Template.ofTokens] at h
    cases hall : Draft.extendAll dialect {} tokens with
    | error fault =>
      rw [hall] at h
      cases h
    | ok draft =>
      rw [hall] at h
      obtain ⟨hspot, hblocks, hitems⟩ := Draft.finish_eq_ok_iff.mp h
      -- No tag and no block is open, so all lexemes are those of the outermost items.
      obtain ⟨as, bs, hlexemes, hstack, hbs⟩ := Draft.spells_of_extendAll hall
      rw [hspot] at hbs
      rw [hblocks] at hstack
      cases hbs
      obtain ⟨hderives, hdepth⟩ | _ := hstack
      rw [List.append_nil] at hlexemes
      rw [hlexemes, Derives, Template.nesting, hitems]
      exact ⟨hderives, hdepth⟩
  · rintro ⟨h, hdepth⟩
    exact h.ofTokens hdepth position

/-- Lexemes derive at most one template. -/
theorem Derives.unique {ls : List Lexeme} {t t' : Template}
    (h : Derives dialect.isSectionKeyword ls t) (h' : Derives dialect.isSectionKeyword ls t') :
    t = t' := by
  -- In a dialect that lets blocks nest deep enough for both, the tokens make both.
  let deep : Dialect := { dialect with maxDepth := max t.nesting t'.nesting }
  let tokens := ls.map fun l => (⟨l, 0⟩ : Token)
  have hlexemes : tokens.map Token.lexeme = ls := by simp [tokens, Function.comp_def]
  have ht : Template.ofTokens deep tokens 0 = .ok t := ofTokens_eq_ok_iff.mpr
    ⟨hlexemes.symm ▸ h, Nat.le_max_left _ _⟩
  have ht' : Template.ofTokens deep tokens 0 = .ok t' := ofTokens_eq_ok_iff.mpr
    ⟨hlexemes.symm ▸ h', Nat.le_max_right _ _⟩
  exact Except.ok.inj (ht.symm.trans ht')

/-- A source has the templates that its tokens make. -/
theorem ofSource_eq_ok_iff_ofTokens {source : String} {template : Template} :
    Template.ofSource dialect source = .ok template ↔
      Template.ofTokens dialect (Scanner.ofSource source).tokens
        (Scanner.ofSource source).endPosition = .ok template :=
  mapError_eq_ok

end Grammar

/-- The templates of sources are those of the grammar: a source has a template exactly if its
tokens derive it and its blocks nest as deep as they may, and they derive no other one. -/
theorem Template.ofSource_eq_ok_iff (dialect : Dialect) (source : String)
    (template : Template) :
    (Template.ofSource dialect source = .ok template ↔
      Derives dialect.isSectionKeyword ((Scanner.ofSource source).tokens.map Token.lexeme)
        template ∧ template.nesting ≤ dialect.maxDepth) ∧
    ∀ ls, {t | Derives dialect.isSectionKeyword ls t}.Subsingleton :=
  ⟨ofSource_eq_ok_iff_ofTokens.trans ofTokens_eq_ok_iff, fun _ _ h _ h' => h.unique h'⟩

end Stencil
