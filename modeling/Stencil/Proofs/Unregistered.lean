/-
Names without a helper.

A call of a name without a helper has no code, and neither has a block of a name without a block
helper.  Nor has what they stand in, as far as its code is asked for, and that is the affair of
block helpers: of the control flow, a `switch` leaves out its main section, and an `if` leaves out
its `else` sections but the first (`Block.writtenSections`).

* `ControlFlow.process_unregistered` — a source with such a name in what is written has no code;
* `ControlFlow.codeOfBlock_eq_of_writtenSections_eq` — what is left out makes no difference, so
  nobody looks for helpers there (`ControlFlow.process_unregistered_left_out`).
-/
import Mathlib
import Stencil.Proofs.ControlFlow
import Stencil.Proofs.Readback

namespace Stencil

/-! ### Places in a template -/

/-- The sections of a block, the main one first. -/
def Block.allSections (block : Block) : List Section :=
  block.main :: block.sections

/-- The sections of a block whose code the control flow asks for. -/
def Block.writtenSections (block : Block) : List Section :=
  if block.name = "switch" then block.sections
  else if block.name = "if" then block.main :: block.sections.take 1
  else block.allSections

/-- Whether an item is one of the items, or stands at any depth in those sections of their blocks
that `parts` gives. -/
inductive Item.Within (parts : Block → List Section) (item : Item) : List Item → Prop
  | here {items : List Item} : item ∈ items → Within parts item items
  | inside {items : List Item} {block : Block} {s : Section} :
      Item.block block ∈ items → s ∈ parts block → Within parts item s.items →
      Within parts item items

/-- Whether the item is a call of a name without a helper, or a block of a name without a block
helper. -/
def Item.Unregistered (compiler : Compiler) : Item → Prop
  | .text _ | .expression _ => False
  | .call ⟨name, _⟩ => compiler.helpers.get? name = none
  | .block ⟨name, _, _, _⟩ => compiler.blockHelpers.get? name = none

variable {keyword : String → String → Bool}

theorem Item.wellFormed_of_mem {block? : Option String} {items : List Item}
    (h : Item.ListWellFormed keyword block? items) {item : Item} (hitem : item ∈ items) :
    item.WellFormed keyword := by
  induction items with
  | nil => cases hitem
  | cons first rest ih =>
    obtain ⟨⟨hfirst, -⟩, hrest⟩ := h
    rcases List.mem_cons.mp hitem with rfl | hitem
    · exact hfirst
    · exact ih hrest hitem

theorem Section.wellFormed_of_mem {block : String} {sections : List Section}
    (h : Section.ListWellFormed keyword block sections) {s : Section} (hs : s ∈ sections) :
    s.HeadedIn keyword block ∧ s.BodyWellFormed keyword block := by
  induction sections with
  | nil => cases hs
  | cons first rest ih =>
    obtain ⟨hfirst, hrest⟩ := h
    rcases List.mem_cons.mp hs with rfl | hs
    · exact hfirst
    · exact ih hrest hs

/-- The sections of a well-formed block have well-formed items. -/
theorem Block.WellFormed.section_items {block : Block} (h : block.WellFormed keyword)
    {s : Section} (hs : s ∈ block.allSections) :
    Item.ListWellFormed keyword (some block.name) s.items := by
  obtain ⟨name, args, main, sections⟩ := block
  obtain ⟨-, -, ⟨-, -, hmain⟩, hsections⟩ := h
  rcases List.mem_cons.mp hs with rfl | hs
  · obtain ⟨_, _, _⟩ := s
    exact hmain.1
  · obtain ⟨-, hbody⟩ := Section.wellFormed_of_mem hsections hs
    obtain ⟨_, _, _⟩ := s
    exact hbody.1

theorem Block.writtenSections_subset (block : Block) :
    block.writtenSections ⊆ block.allSections := by
  rw [writtenSections]
  split
  next => exact List.subset_cons_self _ _
  next =>
    split
    next => exact List.cons_subset_cons _ (List.take_subset _ _)
    next => exact List.Subset.refl _

/-! ### Code of parts -/

namespace Compiler

variable {compiler : Compiler}

/-- Items have no code unless each of them has. -/
theorem exists_code_of_mem {items : List Item} {codes : List String}
    (h : compiler.fragments items = .ok codes) {item : Item} (hitem : item ∈ items) :
    ∃ code, compiler.codeOfItem item = .ok code := by
  induction items generalizing codes with
  | nil => cases hitem
  | cons first rest ih =>
    obtain ⟨code, hcode, h⟩ := bind_eq_ok.mp h
    obtain ⟨codes, hcodes, -⟩ := bind_eq_ok.mp h
    rcases List.mem_cons.mp hitem with rfl | hitem
    · exact ⟨code, hcode⟩
    · exact ih hcodes hitem

/-- What asks for a helper that is not there has no code. -/
theorem not_unregistered {item : Item} {code : String} (h : compiler.codeOfItem item = .ok code) :
    ¬item.Unregistered compiler := by
  intro hnone
  cases item with
  | text => exact hnone
  | expression => exact hnone
  | call call =>
    have hmissing : compiler.helpers.get? call.name = none := hnone
    rw [codeOfItem, codeOfCall, Helper.write] at h
    split at h
    next => cases h
    next hget =>
      rw [hmissing] at hget
      cases hget
    next hget =>
      rw [hmissing] at hget
      cases hget
  | block block =>
    obtain ⟨name, args, main, sections⟩ := block
    have hmissing : compiler.blockHelpers.get? name = none := hnone
    rw [codeOfItem, codeOfBlock, show (compiler.compileBlock ⟨name, args, main, sections⟩).name =
      name from rfl, hmissing] at h
    cases h

/-- A section has no code unless its items have. -/
theorem exists_fragments {s : Section} {code : String}
    (h : (compiler.compileSection s).code = .ok code) :
    ∃ codes, compiler.fragments s.items = .ok codes := by
  obtain ⟨name?, args, items⟩ := s
  obtain ⟨codes, hcodes, -⟩ := map_eq_ok.mp h
  exact ⟨codes, hcodes⟩

/-- A template has no code unless its items have. -/
theorem exists_fragments_of_compile {template : Template} {code : String}
    (h : compiler.compile template = .ok code) :
    ∃ codes, compiler.fragments template.items = .ok codes := by
  rcases compile_eq_ok_iff.mp h with ⟨text, htext, -⟩ | ⟨-, body, hbody, -⟩
  · rcases Template.constant?_eq_some_iff.mp htext with ⟨hitems, -⟩ | hitems
    · exact ⟨[], by rw [hitems]; rfl⟩
    · exact ⟨[Text.jsonString text], by rw [hitems]; rfl⟩
  · obtain ⟨codes, hcodes, -⟩ := map_eq_ok.mp hbody
    exact ⟨codes, hcodes⟩

end Compiler

namespace ControlFlow

variable {engine : Engine} {context : String}

/-- Arms are made of sections that all have code. -/
theorem Arms.exists_code_of_foldlM {sections : List CompiledSection} {arms arms' : Arms}
    (h : sections.foldlM (Arms.add context) arms = .ok arms') {s : CompiledSection}
    (hs : s ∈ sections) : ∃ code, s.code = .ok code := by
  induction sections generalizing arms with
  | nil => cases hs
  | cons first rest ih =>
    rw [List.foldlM_cons] at h
    obtain ⟨next, hnext, h⟩ := bind_eq_ok.mp h
    rcases List.mem_cons.mp hs with rfl | hs
    · obtain ⟨body, hbody, -⟩ := Arms.add_eq_ok_iff.mp hnext
      exact ⟨body, hbody⟩
    · exact ih h hs

/-- Only `else` heads the sections of an `if`, so the first one is the one that is written. -/
theorem section?_else (halone : Alone engine) (args : Arguments) (main : Section)
    {sections : List Section}
    (h : Section.ListWellFormed engine.dialect.isSectionKeyword "if" sections) :
    (engine.compiler.compileBlock ⟨"if", args, main, sections⟩).section? "else" =
      sections.head?.map engine.compiler.compileSection := by
  rw [section?_compileBlock]
  cases sections with
  | nil => rfl
  | cons s rest =>
    obtain ⟨⟨keyword, hkeyword, -, hregistered, -⟩, -⟩ :=
      Section.wellFormed_of_mem h List.mem_cons_self
    obtain rfl : keyword = "else" := by
      simpa using (halone.keywords _ _).mp hregistered
    have hfound : (s :: rest).find? (fun s => s.name? = some "else") = some s :=
      List.find?_cons_of_pos (decide_eq_true hkeyword)
    rw [hfound]
    rfl

/-- No keyword heads a section of an `each`. -/
theorem sections_each_eq_nil (halone : Alone engine) {sections : List Section}
    (h : Section.ListWellFormed engine.dialect.isSectionKeyword "each" sections) :
    sections = [] := by
  refine List.eq_nil_iff_forall_not_mem.mpr fun s hs => ?_
  obtain ⟨⟨keyword, -, -, hregistered, -⟩, -⟩ := Section.wellFormed_of_mem h hs
  have hkeyword := (halone.keywords _ _).mp hregistered
  simp at hkeyword

/-- A block has no code unless the sections that are written have. -/
theorem exists_code_of_mem_writtenSections (halone : Alone engine) {block : Block} {code : String}
    (hwell : block.WellFormed engine.dialect.isSectionKeyword)
    (h : engine.compiler.codeOfBlock (engine.compiler.compileBlock block) = .ok code)
    {s : Section} (hs : s ∈ block.writtenSections) :
    ∃ code, (engine.compiler.compileSection s).code = .ok code := by
  obtain ⟨name, args, main, sections⟩ := block
  obtain ⟨-, -, -, hsections⟩ := hwell
  rcases (codeOfBlock_eq_ok_iff halone).mp h with ⟨hname, h⟩ | ⟨hname, h⟩ | ⟨hname, h⟩
  · obtain rfl : name = "if" := hname
    obtain ⟨-, body, otherwise, -, hbody, helse, -⟩ := ifBlock_eq_ok_iff.mp h
    rcases List.mem_cons.mp hs with rfl | hs
    · exact ⟨body, hbody⟩
    · cases sections with
      | nil => cases hs
      | cons first rest =>
        obtain rfl := List.mem_singleton.mp hs
        exact ⟨otherwise, helse _ (section?_else halone args main hsections)⟩
  · obtain rfl : name = "switch" := hname
    obtain ⟨-, arms, -, harms, -⟩ := switchBlock_eq_ok_iff.mp h
    refine Arms.exists_code_of_foldlM harms ?_
    have hcompiled : (engine.compiler.compileBlock ⟨"switch", args, main, sections⟩).sections =
        sections.map engine.compiler.compileSection :=
      engine.compiler.compileSections_eq_map sections
    rw [hcompiled]
    exact List.mem_map_of_mem hs
  · obtain rfl : name = "each" := hname
    obtain rfl := sections_each_eq_nil halone hsections
    obtain ⟨-, body, -, hbody, -⟩ := eachBlock_eq_ok_iff.mp h
    obtain rfl := List.mem_singleton.mp hs
    exact ⟨body, hbody⟩

/-- The sections that are left out of a block make no difference to its code. -/
theorem codeOfBlock_eq_of_writtenSections_eq (halone : Alone engine) {name : String}
    {args : Arguments} {main main' : Section} {sections sections' : List Section}
    (hwell : Block.WellFormed engine.dialect.isSectionKeyword ⟨name, args, main, sections⟩)
    (hwell' : Block.WellFormed engine.dialect.isSectionKeyword ⟨name, args, main', sections'⟩)
    (h : Block.writtenSections ⟨name, args, main, sections⟩ =
      Block.writtenSections ⟨name, args, main', sections'⟩) :
    engine.compiler.codeOfBlock (engine.compiler.compileBlock ⟨name, args, main, sections⟩) =
      engine.compiler.codeOfBlock
        (engine.compiler.compileBlock ⟨name, args, main', sections'⟩) := by
  by_cases hswitch : name = "switch"
  · subst hswitch
    obtain rfl : sections = sections' := h
    rw [Compiler.codeOfBlock_eq (halone.blockHelpers "switch"),
      Compiler.codeOfBlock_eq (halone.blockHelpers "switch")]
    rfl
  by_cases hif : name = "if"
  · subst hif
    obtain ⟨rfl, htake⟩ := List.cons.inj (show main :: sections.take 1 =
      main' :: sections'.take 1 from h)
    have helse := section?_else halone args main hwell.2.2.2
    have helse' := section?_else halone args main hwell'.2.2.2
    rw [Compiler.codeOfBlock_eq (halone.blockHelpers "if"),
      Compiler.codeOfBlock_eq (halone.blockHelpers "if"), ifBlock, ifBlock, helse, helse']
    have hhead := congrArg List.head? htake
    rw [List.head?_take, List.head?_take, if_neg Nat.one_ne_zero, if_neg Nat.one_ne_zero] at hhead
    rw [hhead]
    rfl
  · have hall : main :: sections = main' :: sections' := by
      simpa [Block.writtenSections, Block.allSections, hswitch, hif] using h
    obtain ⟨rfl, rfl⟩ := List.cons.inj hall
    rfl

/-- Items have no code unless all that is written in them has. -/
theorem exists_code_of_within (halone : Alone engine) {item : Item} {items : List Item}
    (hwithin : item.Within Block.writtenSections items) : ∀ {block? : Option String}
    {codes : List String}, Item.ListWellFormed engine.dialect.isSectionKeyword block? items →
    engine.compiler.fragments items = .ok codes →
    ∃ code, engine.compiler.codeOfItem item = .ok code := by
  induction hwithin with
  | here hitem =>
    intro _ _ _ h
    exact Compiler.exists_code_of_mem h hitem
  | @inside items block s hblock hs _ ih =>
    intro _ _ hwell h
    have hblockWell : block.WellFormed engine.dialect.isSectionKeyword :=
      Item.wellFormed_of_mem hwell hblock
    obtain ⟨code, hcode⟩ := Compiler.exists_code_of_mem h hblock
    obtain ⟨body, hbody⟩ := exists_code_of_mem_writtenSections halone hblockWell hcode hs
    obtain ⟨codes, hcodes⟩ := Compiler.exists_fragments hbody
    exact ih (hblockWell.section_items (block.writtenSections_subset hs)) hcodes

/-- A source has no code if, in what is written of it, a call asks for a helper that is not
registered or a block for such a block helper. -/
theorem process_unregistered (halone : Alone engine) {source : String} {template : Template}
    (hparse : engine.parse source = .ok template) {item : Item}
    (hwithin : item.Within Block.writtenSections template.items)
    (hunregistered : item.Unregistered engine.compiler) :
    ∃ e, engine.process source = .error (.uncompilable e) := by
  have hprocess : engine.process source =
      (engine.compiler.compile template).mapError .uncompilable := by
    rw [Engine.process, hparse]
    rfl
  rw [hprocess]
  cases hcode : engine.compiler.compile template with
  | error e => exact ⟨e, rfl⟩
  | ok code =>
    obtain ⟨codes, hcodes⟩ := Compiler.exists_fragments_of_compile hcode
    obtain ⟨code, hcode⟩ :=
      exists_code_of_within halone hwithin (Engine.wellFormed_of_parse hparse).1 hcodes
    exact absurd hunregistered (Compiler.not_unregistered hcode)

/-- A call in an `each` in the first `else` section of an `if`. -/
theorem process_unregistered_nested :
    ∃ e, ((Engine.ofContext "params").configure settings).process
      r"{{#if x}}1{{else}}{{#each l}}{{missing y}}{{/each}}{{/if}}" =
      .error (.uncompilable e) := by
  have hparse : ((Engine.ofContext "params").configure settings).parse
      r"{{#if x}}1{{else}}{{#each l}}{{missing y}}{{/each}}{{/if}}" =
      .ok ⟨[.block ⟨"if", ⟨[.variable "x"], {}⟩, .ofItems [.text "1"],
        [⟨some "else", {}, [.block ⟨"each", ⟨[.variable "l"], {}⟩,
          .ofItems [.call ⟨"missing", ⟨[.variable "y"], {}⟩⟩], []⟩]⟩]⟩]⟩ := by
    cbv
  have hwithin : (Item.call ⟨"missing", ⟨[.variable "y"], {}⟩⟩).Within Block.writtenSections
      [.block ⟨"if", ⟨[.variable "x"], {}⟩, .ofItems [.text "1"],
        [⟨some "else", {}, [.block ⟨"each", ⟨[.variable "l"], {}⟩,
          .ofItems [.call ⟨"missing", ⟨[.variable "y"], {}⟩⟩], []⟩]⟩]⟩] := by
    refine .inside List.mem_cons_self (List.mem_cons_of_mem _ List.mem_cons_self) ?_
    exact .inside List.mem_cons_self List.mem_cons_self (.here List.mem_cons_self)
  exact process_unregistered (alone_configure "params") hparse hwithin rfl

/-- Neither the second `else` section of an `if` nor the main section of a `switch` is written, so
no helper is looked for there. -/
theorem process_unregistered_left_out :
    (∃ template : Template, ((Engine.ofContext "params").configure settings).parse
        r"{{#if x}}1{{else}}2{{else}}{{missing y}}{{/if}}" = .ok template ∧
      (∃ item : Item, item.Within Block.allSections template.items ∧
        item.Unregistered ((Engine.ofContext "params").configure settings).compiler) ∧
      ((Engine.ofContext "params").configure settings).process
        r"{{#if x}}1{{else}}2{{else}}{{missing y}}{{/if}}" =
        .ok r#"function(params){return (params.x?"1":"2");}"#) ∧
    ∃ template : Template, ((Engine.ofContext "params").configure settings).parse
        r#"{{#switch v}}{{missing x}}{{case "1"}}A{{/switch}}"# = .ok template ∧
      (∃ item : Item, item.Within Block.allSections template.items ∧
        item.Unregistered ((Engine.ofContext "params").configure settings).compiler) ∧
      ((Engine.ofContext "params").configure settings).process
        r#"{{#switch v}}{{missing x}}{{case "1"}}A{{/switch}}"# =
        .ok r#"function(params){return (params.v=="1"?"A":"");}"# := by
  constructor
  · refine ⟨⟨[.block ⟨"if", ⟨[.variable "x"], {}⟩, .ofItems [.text "1"],
      [⟨some "else", {}, [.text "2"]⟩,
        ⟨some "else", {}, [.call ⟨"missing", ⟨[.variable "y"], {}⟩⟩]⟩]⟩]⟩, by cbv,
      ⟨.call ⟨"missing", ⟨[.variable "y"], {}⟩⟩, ?_, rfl⟩, by cbv⟩
    exact .inside List.mem_cons_self
      (List.mem_cons_of_mem _ (List.mem_cons_of_mem _ List.mem_cons_self))
      (.here List.mem_cons_self)
  · refine ⟨⟨[.block ⟨"switch", ⟨[.variable "v"], {}⟩,
      .ofItems [.call ⟨"missing", ⟨[.variable "x"], {}⟩⟩],
      [⟨some "case", ⟨[.string "1"], {}⟩, [.text "A"]⟩]⟩]⟩, by cbv,
      ⟨.call ⟨"missing", ⟨[.variable "x"], {}⟩⟩, ?_, rfl⟩, by cbv⟩
    exact .inside List.mem_cons_self List.mem_cons_self (.here List.mem_cons_self)

end ControlFlow

end Stencil
