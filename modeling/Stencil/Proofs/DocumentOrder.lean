/-
The first missing name.

A template is compiled in the order in which it is written: a block before its sections, the main
section before those behind keywords, items from left to right (`Item.listNodes`).  Helpers that
take every call, and block helpers that ask for all sections in this order, add no errors of their
own (`Compiler.TakesAll`).

* `Item.mem_listNodes_iff` — the nodes are the items at any depth;
* `Compiler.error?_compile` — the error of a template is that of the first node whose name is
  missing;
* `Compiler.compile_eq_error_iff` — so a template fails exactly for a name that is missing in the
  registry of its own kind, and for the first such name.
-/
import Stencil.Helper.Stock
import Stencil.Proofs.Unregistered

namespace Stencil

/-! ### Nodes -/

mutual

/-- The item and what stands in it, in the order in which it is written. -/
def Item.nodes : Item → List Item
  | .text content => [.text content]
  | .expression value => [.expression value]
  | .call call => [.call call]
  | .block block => .block block :: block.nodes

/-- What stands in the sections of a block, the main one first. -/
def Block.nodes : Block → List Item
  | ⟨_, _, main, sections⟩ => main.nodes ++ Section.listNodes sections

def Section.nodes : Section → List Item
  | ⟨_, _, items⟩ => Item.listNodes items

def Item.listNodes : List Item → List Item
  | [] => []
  | item :: rest => item.nodes ++ Item.listNodes rest

def Section.listNodes : List Section → List Item
  | [] => []
  | s :: rest => s.nodes ++ Section.listNodes rest

end

theorem Section.nodes_eq (s : Section) : s.nodes = Item.listNodes s.items := by
  obtain ⟨_, _, _⟩ := s
  rfl

theorem Item.mem_nodes_self (item : Item) : item ∈ item.nodes := by
  cases item <;> exact List.mem_cons_self

theorem Item.listNodes_eq_flatMap (items : List Item) :
    Item.listNodes items = items.flatMap Item.nodes := by
  induction items with
  | nil => rfl
  | cons item rest ih => rw [listNodes, List.flatMap_cons, ih]

theorem Section.listNodes_eq_flatMap (sections : List Section) :
    Section.listNodes sections = sections.flatMap Section.nodes := by
  induction sections with
  | nil => rfl
  | cons s rest ih => rw [listNodes, List.flatMap_cons, ih]

theorem Item.nodes_subset_listNodes {item : Item} {items : List Item} (h : item ∈ items) :
    item.nodes ⊆ Item.listNodes items := by
  rw [listNodes_eq_flatMap]
  exact fun _ hnode => List.mem_flatMap_of_mem h hnode

theorem Section.nodes_subset_listNodes {s : Section} {sections : List Section}
    (h : s ∈ sections) : s.nodes ⊆ Section.listNodes sections := by
  rw [listNodes_eq_flatMap]
  exact fun _ hnode => List.mem_flatMap_of_mem h hnode

theorem Block.nodes_subset {block : Block} {s : Section} (h : s ∈ block.allSections) :
    s.nodes ⊆ block.nodes := by
  obtain ⟨name, args, main, sections⟩ := block
  rw [nodes]
  rcases List.mem_cons.mp h with rfl | h
  · exact List.subset_append_left _ _
  · exact List.subset_append_of_subset_right _ (Section.nodes_subset_listNodes h)

theorem Item.Within.mem_listNodes {item : Item} {items : List Item}
    (h : item.Within Block.allSections items) : item ∈ Item.listNodes items := by
  induction h with
  | here h => exact Item.nodes_subset_listNodes h item.mem_nodes_self
  | @inside _ block s hblock hs _ ih =>
    rw [← s.nodes_eq] at ih
    refine Item.nodes_subset_listNodes hblock ?_
    rw [nodes]
    exact List.mem_cons_of_mem _ (Block.nodes_subset hs ih)

/-- More items hold all that fewer hold. -/
theorem Item.Within.mono {parts : Block → List Section} {item : Item} {items items' : List Item}
    (h : item.Within parts items) (hsub : items ⊆ items') : item.Within parts items' := by
  cases h with
  | here h => exact .here (hsub h)
  | inside hblock hs h => exact .inside (hsub hblock) hs h

mutual

theorem Item.within_of_mem_nodes {node : Item} : ∀ {item : Item}, node ∈ item.nodes →
    node.Within Block.allSections [item]
  | .text _, h | .expression _, h | .call _, h => .here h
  | .block block, h => by
    rcases List.mem_cons.mp h with rfl | h
    · exact .here List.mem_cons_self
    · obtain ⟨s, hs, hnode⟩ := Block.exists_within_of_mem_nodes h
      exact .inside List.mem_cons_self hs hnode

theorem Block.exists_within_of_mem_nodes {node : Item} : ∀ {block : Block}, node ∈ block.nodes →
    ∃ s ∈ block.allSections, node.Within Block.allSections s.items
  | ⟨_, _, main, sections⟩, h => by
    rcases List.mem_append.mp h with h | h
    · exact ⟨main, List.mem_cons_self, Section.within_of_mem_nodes h⟩
    · obtain ⟨s, hs, hnode⟩ := Section.exists_within_of_mem_listNodes h
      exact ⟨s, List.mem_cons_of_mem _ hs, hnode⟩

theorem Section.within_of_mem_nodes {node : Item} : ∀ {s : Section}, node ∈ s.nodes →
    node.Within Block.allSections s.items
  | ⟨_, _, _⟩, h => Item.within_of_mem_listNodes h

theorem Item.within_of_mem_listNodes {node : Item} : ∀ {items : List Item},
    node ∈ Item.listNodes items → node.Within Block.allSections items
  | [], h => nomatch h
  | item :: rest, h => by
    rcases List.mem_append.mp h with h | h
    · exact (Item.within_of_mem_nodes h).mono (List.cons_subset_cons _ (List.nil_subset _))
    · exact (Item.within_of_mem_listNodes h).mono (List.subset_cons_self _ _)

theorem Section.exists_within_of_mem_listNodes {node : Item} : ∀ {sections : List Section},
    node ∈ Section.listNodes sections →
    ∃ s ∈ sections, node.Within Block.allSections s.items
  | [], h => nomatch h
  | s :: rest, h => by
    rcases List.mem_append.mp h with h | h
    · exact ⟨s, List.mem_cons_self, Section.within_of_mem_nodes h⟩
    · obtain ⟨s', hs', hnode⟩ := Section.exists_within_of_mem_listNodes h
      exact ⟨s', List.mem_cons_of_mem _ hs', hnode⟩

end

/-- The nodes of items are the items and all that stands in them. -/
theorem Item.mem_listNodes_iff {node : Item} {items : List Item} :
    node ∈ Item.listNodes items ↔ node.Within Block.allSections items :=
  ⟨Item.within_of_mem_listNodes, Item.Within.mem_listNodes⟩

/-! ### First errors -/

/-- The first error in the sections of a block. -/
def CompiledBlock.error? (block : CompiledBlock) : Option CompileError :=
  (block.main :: block.sections).findSome? fun s => Stencil.error? s.code

/-- Showing a block asks for all its sections. -/
theorem BlockHelper.error?_echo (context : String) (block : CompiledBlock) :
    Stencil.error? (echo context block) = block.error? := by
  rw [echo, CompiledBlock.error?, findSome?_cons_eq_or]
  refine error?_bind fun _ => ?_
  simp only [error?_bind_pure, error?_mapM]

/-! ### Missing names -/

/-- The error that says that the name of an item is missing. -/
def Item.notFound? : Item → Option CompileError
  | .text _ | .expression _ => none
  | .call ⟨name, _⟩ => some (.unknownHelper name)
  | .block ⟨name, _, _, _⟩ => some (.unknownBlockHelper name)

instance (compiler : Compiler) : DecidablePred (Item.Unregistered compiler)
  | .text _ | .expression _ => instDecidableFalse
  | .call ⟨name, _⟩ => inferInstanceAs (Decidable (compiler.helpers.get? name = none))
  | .block ⟨name, _, _, _⟩ => inferInstanceAs (Decidable (compiler.blockHelpers.get? name = none))

/-- The error of an item whose name is not registered. -/
def Item.missing? (compiler : Compiler) (item : Item) : Option CompileError :=
  if item.Unregistered compiler then item.notFound? else none

theorem Item.missing?_eq_some_iff {compiler : Compiler} {item : Item} {e : CompileError} :
    item.missing? compiler = some e ↔ item.Unregistered compiler ∧ item.notFound? = some e :=
  Option.ite_none_right_eq_some

theorem Item.missing?_of_unregistered {compiler : Compiler} {item : Item}
    (h : item.Unregistered compiler) : item.missing? compiler = item.notFound? :=
  if_pos h

theorem Item.missing?_of_not_unregistered {compiler : Compiler} {item : Item}
    (h : ¬item.Unregistered compiler) : item.missing? compiler = none :=
  if_neg h

theorem Item.missing?_eq_none_iff {compiler : Compiler} {item : Item} :
    item.missing? compiler = none ↔ ¬item.Unregistered compiler := by
  refine ⟨fun h hunregistered => ?_, missing?_of_not_unregistered⟩
  rw [missing?_of_unregistered hunregistered] at h
  cases item with
  | text => exact hunregistered
  | expression => exact hunregistered
  | call => cases h
  | block block =>
    obtain ⟨_, _, _, _⟩ := block
    cases h

namespace Compiler

/-- Whether the helpers take every call, and the block helpers ask for all sections of a block in
order and add no errors of their own. -/
structure TakesAll (compiler : Compiler) : Prop where
  helpers : ∀ call, compiler.helpers.contains call.name = true →
    ∃ code, compiler.codeOfCall call = .ok code
  blockHelpers : ∀ name write, compiler.blockHelpers.get? name = some write →
    ∀ block, error? (write compiler.context block) = block.error?

variable {compiler : Compiler}

/-- A call fails only if its name is missing. -/
theorem error?_codeOfCall (h : compiler.TakesAll) (call : Call) :
    error? (compiler.codeOfCall call) = (Item.call call).missing? compiler := by
  by_cases hget : compiler.helpers.get? call.name = none
  · have hunregistered : (Item.call call).Unregistered compiler := hget
    rw [Item.missing?_of_unregistered hunregistered, codeOfCall, Helper.write]
    split
    next => rfl
    next hsome => cases hget.symm.trans hsome
    next hsome => cases hget.symm.trans hsome
  · have hregistered : ¬(Item.call call).Unregistered compiler := hget
    obtain ⟨code, hcode⟩ := h.helpers call (Option.isSome_iff_ne_none.mpr hget)
    rw [Item.missing?_of_not_unregistered hregistered, hcode]
    rfl

/-- A block fails if its name is missing, and otherwise for the first error in its sections. -/
theorem error?_codeOfBlock (h : compiler.TakesAll) (block : Block) :
    error? (compiler.codeOfBlock (compiler.compileBlock block)) =
      ((Item.block block).missing? compiler).or (compiler.compileBlock block).error? := by
  obtain ⟨name, args, main, sections⟩ := block
  have hname : (compiler.compileBlock ⟨name, args, main, sections⟩).name = name := rfl
  rw [codeOfBlock, hname]
  cases hget : compiler.blockHelpers.get? name with
  | none =>
    have hunregistered : (Item.block ⟨name, args, main, sections⟩).Unregistered compiler := hget
    rw [Item.missing?_of_unregistered hunregistered]
    rfl
  | some write =>
    have hregistered : ¬(Item.block ⟨name, args, main, sections⟩).Unregistered compiler :=
      Option.isSome_iff_ne_none.mp (by rw [hget]; rfl)
    rw [Item.missing?_of_not_unregistered hregistered]
    exact h.blockHelpers name write hget _

mutual

/-- An item has the error of the first node in it whose name is missing. -/
theorem error?_codeOfItem (h : compiler.TakesAll) : ∀ item : Item,
    error? (compiler.codeOfItem item) = item.nodes.findSome? (Item.missing? compiler)
  | .text _ | .expression _ => rfl
  | .call call => by
    rw [codeOfItem, error?_codeOfCall h, Item.nodes, findSome?_cons_eq_or, List.findSome?_nil,
      Option.or_none]
  | .block block => by
    rw [codeOfItem, error?_codeOfBlock h, Item.nodes, findSome?_cons_eq_or,
      error?_compileBlock h block]

theorem error?_compileBlock (h : compiler.TakesAll) : ∀ block : Block,
    (compiler.compileBlock block).error? = block.nodes.findSome? (Item.missing? compiler)
  | ⟨name, args, main, sections⟩ => by
    rw [compileBlock, CompiledBlock.error?, findSome?_cons_eq_or, Block.nodes,
      List.findSome?_append, error?_compileSection h main, findSome?_compileSections h sections]

theorem error?_compileSection (h : compiler.TakesAll) : ∀ s : Section,
    error? (compiler.compileSection s).code = s.nodes.findSome? (Item.missing? compiler)
  | ⟨_, _, items⟩ => by
    rw [compileSection, Section.nodes, error?_map, error?_fragments h items]

theorem error?_fragments (h : compiler.TakesAll) : ∀ items : List Item,
    error? (compiler.fragments items) =
      (Item.listNodes items).findSome? (Item.missing? compiler)
  | [] => rfl
  | item :: rest => by
    rw [fragments, Item.listNodes, List.findSome?_append, ← error?_codeOfItem h item,
      ← error?_fragments h rest]
    exact error?_bind fun _ => error?_bind_pure ..

theorem findSome?_compileSections (h : compiler.TakesAll) : ∀ sections : List Section,
    (compiler.compileSections sections).findSome? (fun s => error? s.code) =
      (Section.listNodes sections).findSome? (Item.missing? compiler)
  | [] => rfl
  | s :: rest => by
    rw [compileSections, Section.listNodes, List.findSome?_append, findSome?_cons_eq_or,
      error?_compileSection h s, findSome?_compileSections h rest]

end

/-- A constant has no names that could be missing. -/
theorem findSome?_missing?_of_constant? {template : Template} {text : String}
    (h : template.constant? = some text) :
    (Item.listNodes template.items).findSome? (Item.missing? compiler) = none := by
  rcases Template.constant?_eq_some_iff.mp h with ⟨hitems, -⟩ | hitems
  · rw [hitems]
    rfl
  · rw [hitems]
    rfl

/-- A template has the error of its first node whose name is missing. -/
theorem error?_compile (h : compiler.TakesAll) (template : Template) :
    error? (compiler.compile template) =
      (Item.listNodes template.items).findSome? (Item.missing? compiler) := by
  rw [compile]
  split
  next text hconstant => exact (findSome?_missing?_of_constant? hconstant).symm
  next =>
    rw [error?_bind_pure, codeOfItems, error?_map, error?_fragments h]

/-- With helpers that take all, a template fails exactly if it is no constant and has a node whose
name is missing in the registry of its own kind, whatever the other registry holds.  The error is
that of the first such node. -/
theorem compile_eq_error_iff (h : compiler.TakesAll) (template : Template) :
    ((∃ e, compiler.compile template = .error e) ↔
      template.constant? = none ∧
        ∃ item : Item, item.Within Block.allSections template.items ∧
          item.Unregistered compiler) ∧
    (∀ e, compiler.compile template = .error e ↔
      ∃ before item after, Item.listNodes template.items = before ++ item :: after ∧
        (∀ node ∈ before, ¬node.Unregistered compiler) ∧ item.Unregistered compiler ∧
        item.notFound? = some e) ∧
    (∀ call, (Item.call call).Within Block.allSections template.items →
      compiler.helpers.contains call.name = false →
      compiler.blockHelpers.contains call.name = true →
      ∃ e, compiler.compile template = .error e) ∧
    (∀ block, (Item.block block).Within Block.allSections template.items →
      compiler.blockHelpers.contains block.name = false →
      compiler.helpers.contains block.name = true →
      ∃ e, compiler.compile template = .error e) := by
  have herror : ∀ {e}, compiler.compile template = .error e ↔
      (Item.listNodes template.items).findSome? (Item.missing? compiler) = some e := by
    intro e
    rw [← error?_compile h, error?_eq_some_iff]
  have hfails : ∀ {item : Item}, item.Within Block.allSections template.items →
      item.Unregistered compiler → ∃ e, compiler.compile template = .error e := by
    intro item hwithin hunregistered
    simp only [herror]
    refine Option.ne_none_iff_exists'.mp fun hnone => ?_
    have hclear := List.findSome?_eq_none_iff.mp hnone item (Item.mem_listNodes_iff.mpr hwithin)
    exact Item.missing?_eq_none_iff.mp hclear hunregistered
  refine ⟨⟨?_, ?_⟩, ?_, ?_, ?_⟩
  · rintro ⟨e, he⟩
    rw [herror] at he
    constructor
    · refine Option.eq_none_iff_forall_not_mem.mpr fun text hconstant => ?_
      cases he.symm.trans (findSome?_missing?_of_constant? hconstant)
    · obtain ⟨item, hmem, hmissing⟩ := List.exists_of_findSome?_eq_some he
      exact ⟨item, Item.mem_listNodes_iff.mp hmem, (Item.missing?_eq_some_iff.mp hmissing).1⟩
  · rintro ⟨-, item, hwithin, hunregistered⟩
    exact hfails hwithin hunregistered
  · intro e
    simp only [herror, List.findSome?_eq_some_iff, Item.missing?_eq_some_iff,
      Item.missing?_eq_none_iff]
    tauto
  · intro call hwithin hhelpers _
    exact hfails hwithin (Option.not_isSome_iff_eq_none.mp (Bool.eq_false_iff.mp hhelpers))
  · intro ⟨_, _, _, _⟩ hwithin hhelpers _
    exact hfails hwithin (Option.not_isSome_iff_eq_none.mp (Bool.eq_false_iff.mp hhelpers))

/-- A call in a section of the name of its block, in front of a block of the name of a helper. -/
theorem compile_eq_error_iff_nested :
    Compiler.compile
        { helpers := Registry.insert {} "f" (.const "1"),
          blockHelpers := Registry.insert {} "g" .echo }
        ⟨[.block ⟨"g", {}, .ofItems [.call ⟨"f", {}⟩],
          [⟨some "else", {}, [.text "a", .call ⟨"g", {}⟩]⟩]⟩, .block ⟨"f", {}, .ofItems [], []⟩]⟩ =
      .error (.unknownHelper "g") := by
  have htakes : TakesAll
      { helpers := Registry.insert {} "f" (.const "1"),
        blockHelpers := Registry.insert {} "g" .echo } := by
    constructor
    · rintro ⟨name, args⟩ hregistered
      rw [Registry.contains_insert] at hregistered
      obtain rfl : name = "f" :=
        ((Bool.or_eq_true _ _).mp hregistered).elim of_decide_eq_true nofun
      exact ⟨"1", by cbv⟩
    · intro name write hget block
      rw [Registry.get?_insert] at hget
      split at hget
      next =>
        obtain rfl := Option.some.inj hget
        exact BlockHelper.error?_echo _ block
      next => cases hget
  refine ((compile_eq_error_iff htakes _).2.1 _).mpr
    ⟨[.block _, .call _, .text _], .call _, [.block _], rfl, ?_, rfl, rfl⟩
  intro node hnode
  rw [← Item.missing?_eq_none_iff]
  simp only [List.mem_cons, List.not_mem_nil, or_false] at hnode
  rcases hnode with rfl | rfl | rfl <;> rfl

end Compiler

end Stencil
