/-
Code of plain templates means what the templates render.

An engine on which the control flow is `Installed` writes a choice for an `if` and a chain of
choices for a `switch`.  If the code of their sections means what the sections render, then so
does theirs (`means_ifBlock`, `means_switchBlock`), whether or not the sections are joined
expressions themselves.  By induction on the template its code means what it renders, and
`ControlFlow.process_means` adds that there is no other way to read that code.
-/
import Mathlib
import Stencil.Engine
import Stencil.Helper.ControlFlow
import Stencil.Proofs.Meaning

namespace Stencil

open Code

/-- Whether the code of a section, if it has one, means what the section renders. -/
def Section.Faithful (compiler : Compiler) (s : Section) : Prop :=
  ∀ code, (compiler.compileSection s).code = .ok code →
    Means compiler.context code fun w => s.render w

namespace Compiler

theorem compileSections_eq_map (compiler : Compiler) (sections : List Section) :
    compiler.compileSections sections = sections.map compiler.compileSection := by
  induction sections with
  | nil => rfl
  | cons s rest ih => rw [compileSections, ih, List.map_cons]

@[simp] theorem name?_compileSection (compiler : Compiler) (s : Section) :
    (compiler.compileSection s).name? = s.name? := by
  cases s
  rfl

@[simp] theorem arguments_compileSection (compiler : Compiler) (s : Section) :
    (compiler.compileSection s).arguments = s.arguments := by
  cases s
  rfl

/-- The block helper of a name writes the blocks of that name. -/
theorem codeOfBlock_eq {compiler : Compiler} {block : Block} {write : BlockHelper}
    (h : compiler.blockHelpers.get? block.name = some write) :
    compiler.codeOfBlock (compiler.compileBlock block) =
      write compiler.context (compiler.compileBlock block) := by
  obtain ⟨name, args, main, sections⟩ := block
  have hname : (compiler.compileBlock ⟨name, args, main, sections⟩).name = name := rfl
  rw [codeOfBlock, hname, h]

theorem eq_nil_of_fragments {compiler : Compiler} {items : List Item}
    (h : compiler.fragments items = .ok []) : items = [] := by
  cases items with
  | nil => rfl
  | cons item rest =>
    obtain ⟨code, -, h⟩ := bind_eq_ok.mp h
    obtain ⟨codes, -, h⟩ := bind_eq_ok.mp h
    cases h

end Compiler

theorem Arguments.WellFormed.get? {args : Arguments} (h : args.WellFormed) {i : Nat} {v : Value}
    (hv : args.get? i = some v) : v.WellFormed :=
  h.1 v (List.mem_of_getElem? hv)

namespace ControlFlow

/-- What the control flow needs of an engine: its own block helpers and keywords, constants
written as they are by default, and a context that has a name. -/
structure Installed (engine : Engine) : Prop where
  context : isName engine.compiler.context.toList = true
  constant : engine.compiler.constant = Code.constant
  ifBlock : engine.compiler.blockHelpers.get? "if" = some ControlFlow.ifBlock
  switchBlock : engine.compiler.blockHelpers.get? "switch" = some ControlFlow.switchBlock
  keywords : ∀ k, engine.dialect.isSectionKeyword "switch" k = true → k = "case" ∨ k = "default"

variable {compiler : Compiler} {args : Arguments} {main : Section} {sections : List Section}

/-- The first section behind a keyword keeps its place when sections are compiled. -/
theorem section?_compileBlock (keyword : String) :
    (compiler.compileBlock ⟨"if", args, main, sections⟩).section? keyword =
      (sections.find? fun s => s.name? = some keyword).map compiler.compileSection := by
  rw [Compiler.compileBlock, CompiledBlock.section?, Compiler.compileSections_eq_map,
    List.find?_map]
  simp

theorem find?_renderAll (w : World) (keyword : String) :
    ((Section.renderAll w sections).find? fun s => s.1.name? = some keyword).map Prod.snd =
      (sections.find? fun s => s.name? = some keyword).map fun s => s.render w := by
  rw [Section.renderAll_eq_map, List.find?_map, Option.map_map]
  rfl

theorem means_ifBlock (hargs : args.WellFormed) (hmain : main.Faithful compiler)
    (hsections : ∀ s ∈ sections, s.Faithful compiler) {code : String}
    (h : ifBlock compiler.context (compiler.compileBlock ⟨"if", args, main, sections⟩) =
      .ok code) :
    Means compiler.context code fun w =>
      renderIf w args (main.render w) (Section.renderAll w sections) := by
  have harguments : (compiler.compileBlock ⟨"if", args, main, sections⟩).arguments = args := rfl
  have hbody : (compiler.compileBlock ⟨"if", args, main, sections⟩).main =
    compiler.compileSection main := rfl
  rw [ifBlock, harguments, hbody, section?_compileBlock] at h
  simp only [renderIf, find?_renderAll]
  -- Without a condition there is no code at all.
  cases hcondition : args.get? 0 with
  | none =>
    rw [hcondition] at h
    cases h
  | some condition =>
    rw [hcondition] at h
    have hvalue : AtomMeans compiler.context _ _ := Value.atomMeans_code (hargs.get? hcondition)
    cases helse : sections.find? fun s => s.name? = some "else" with
    | none =>
      rw [helse] at h
      obtain ⟨otherwise, hotherwise, h⟩ := bind_eq_ok.mp h
      obtain ⟨body, hbody, h⟩ := bind_eq_ok.mp h
      obtain rfl := Except.ok.inj hotherwise
      obtain rfl := Except.ok.inj h
      exact means_choice hvalue (hmain body hbody) ((atomMeans_jsonString "").means fun _ => rfl)
    | some s =>
      rw [helse] at h
      obtain ⟨otherwise, hotherwise, h⟩ := bind_eq_ok.mp h
      obtain ⟨body, hbody, h⟩ := bind_eq_ok.mp h
      obtain rfl := Except.ok.inj h
      exact means_choice hvalue (hmain body hbody)
        (hsections s (List.mem_of_find?_eq_some helse) otherwise hotherwise)

/-! ### The chain of a `switch` -/

variable {subject : Value}

/-- Whether code that compares the subject with the labels of `cases`, one after the other, means
the text that is found among them, and goes on with what follows where none is. -/
def CasesMean (context : String) (subject : Value) (cases : List (String × String))
    (found : World → Option String) : Prop :=
  ∀ (code : String) (rest : World → String), Means context code rest →
    Means context (Arms.code (subject.code context) ⟨cases, code⟩)
      fun w => (found w).getD (rest w)

theorem CasesMean.concat {context : String} {cases : List (String × String)}
    {found : World → Option String} (hcases : CasesMean context subject cases found)
    (hsubject : subject.WellFormed) {label : Value} (hlabel : label.WellFormed) {body : String}
    {text : World → String} (hbody : Means context body text) :
    CasesMean context subject (cases ++ [(label.code context, body)]) fun w =>
      (found w).or (if w.truthy (w.compare .eq (subject.eval w) (label.eval w)) then some (text w)
        else none) := by
  intro code rest hrest
  -- The last case is innermost: it is what the others go on with where none of them matches.
  have hchain := hcases _ _ (means_equals (Value.atomMeans_code hsubject)
    (Value.atomMeans_code hlabel) hbody hrest)
  have hcode : Arms.code (subject.code context) ⟨cases ++ [(label.code context, body)], code⟩ =
      Arms.code (subject.code context) ⟨cases, "(" ++ subject.code context ++ "==" ++
        label.code context ++ "?" ++ body ++ ":" ++ code ++ ")"⟩ := by
    simp [Arms.code]
  have htext : ∀ w, ((found w).or (if w.truthy (w.compare .eq (subject.eval w) (label.eval w))
      then some (text w) else none)).getD (rest w) =
      (found w).getD (if w.truthy (w.compare .eq (subject.eval w) (label.eval w)) then text w
        else rest w) := by
    intro w
    cases found w with
    | some => rfl
    | none => split <;> rfl
  simp only [hcode, htext]
  exact hchain

theorem firstCase?_cons (w : World) (s : Section) (text : String)
    (rest : List (Section × String)) :
    firstCase? w subject ((s, text) :: rest) =
      (if isMatchingCase w subject s then some text else none).or (firstCase? w subject rest) := by
  rw [firstCase?, List.find?_cons]
  cases isMatchingCase w subject s <;> rfl

theorem lastDefault?_cons_of_ne {s : Section} (h : s.name? ≠ some "default") (text : String)
    (rest : List (Section × String)) : lastDefault? ((s, text) :: rest) = lastDefault? rest := by
  rw [lastDefault?, List.filter_cons_of_neg (by simpa using h)]
  rfl

theorem lastDefault?_cons {s : Section} (h : s.name? = some "default") (text : String)
    (rest : List (Section × String)) :
    lastDefault? ((s, text) :: rest) = some ((lastDefault? rest).getD text) := by
  rw [lastDefault?, List.filter_cons_of_pos (by simpa using h), List.getLast?_cons, lastDefault?]
  cases (rest.filter fun s => s.1.name? = some "default").getLast? <;> rfl

/-- Whether a section of a `switch` is a case or a default, and its code means what it
renders. -/
structure IsArm (compiler : Compiler) (s : Section) : Prop where
  arguments : s.arguments.WellFormed
  name : s.name? = some "case" ∨ s.name? = some "default"
  faithful : s.Faithful compiler

/-- Adding the arms of all sections adds the cases and the default among them. -/
theorem means_foldlM_add (hsubject : subject.WellFormed) :
    ∀ {sections : List Section} {arms arms' : Arms} {found : World → Option String}
      {rest : World → String}, (∀ s ∈ sections, IsArm compiler s) →
    CasesMean compiler.context subject arms.cases found →
    Means compiler.context arms.fallback rest →
    (sections.map compiler.compileSection).foldlM (Arms.add compiler.context) arms = .ok arms' →
    CasesMean compiler.context subject arms'.cases (fun w =>
        (found w).or (firstCase? w subject (Section.renderAll w sections))) ∧
      Means compiler.context arms'.fallback fun w =>
        (lastDefault? (Section.renderAll w sections)).getD (rest w) := by
  intro sections
  -- Every section adds a case or sets the default, so both `found` and `rest` change on the way.
  induction sections with
  | nil =>
    intro arms arms' found rest _ hcases hrest h
    obtain rfl := Except.ok.inj h
    have hfound : ∀ w, (found w).or (firstCase? w subject (Section.renderAll w [])) = found w :=
      fun w => Option.or_none
    simp only [hfound]
    exact ⟨hcases, hrest⟩
  | cons s sections ih =>
    intro arms arms' found rest hsections hcases hrest h
    obtain ⟨hs, hsections⟩ := List.forall_mem_cons.mp hsections
    rw [List.map_cons, List.foldlM_cons] at h
    obtain ⟨next, hnext, h⟩ := bind_eq_ok.mp h
    rw [Arms.add, Compiler.name?_compileSection, Compiler.arguments_compileSection] at hnext
    simp only [Section.renderAll, firstCase?_cons]
    rcases hs.name with hname | hname
    · rw [if_pos hname] at hnext
      cases hlabel : s.arguments.get? 0 with
      | none =>
        rw [hlabel] at hnext
        cases hnext
      | some label =>
        rw [hlabel] at hnext
        obtain ⟨body, hbody, hnext⟩ := bind_eq_ok.mp hnext
        obtain rfl := Except.ok.inj hnext
        have hmatch : ∀ w, isMatchingCase w subject s =
            w.truthy (w.compare .eq (subject.eval w) (label.eval w)) := by
          intro w
          simp [isMatchingCase, hname, hlabel]
        have hcases' := hcases.concat hsubject (hs.arguments.get? hlabel) (hs.faithful body hbody)
        have hne : s.name? ≠ some "default" := by simp [hname]
        obtain ⟨hfound, hfallback⟩ :=
          @ih { arms with cases := _ } arms' _ _ hsections hcases' hrest h
        simp only [hmatch, ← Option.or_assoc, lastDefault?_cons_of_ne hne]
        exact ⟨hfound, hfallback⟩
    · -- A later default takes the place of this one, as its text does in `lastDefault?`.
      rw [if_neg (by simp [hname])] at hnext
      obtain ⟨fallback, hfallback, hnext⟩ := bind_eq_ok.mp hnext
      obtain rfl := Except.ok.inj hnext
      have hmatch : ∀ w, isMatchingCase w subject s = false := by
        intro w
        simp [isMatchingCase, hname]
      obtain ⟨hfound, hlast⟩ :=
        @ih { arms with fallback } arms' _ _ hsections hcases (hs.faithful fallback hfallback) h
      simp only [hmatch, lastDefault?_cons hname, Option.getD_some]
      exact ⟨hfound, hlast⟩

theorem means_switchBlock (hargs : args.WellFormed)
    (hsections : ∀ s ∈ sections, IsArm compiler s) {code : String}
    (h : switchBlock compiler.context (compiler.compileBlock ⟨"switch", args, main, sections⟩) =
      .ok code) :
    Means compiler.context code fun w => renderSwitch w args (Section.renderAll w sections) := by
  have harguments : (compiler.compileBlock ⟨"switch", args, main, sections⟩).arguments = args :=
    rfl
  have hcompiled : (compiler.compileBlock ⟨"switch", args, main, sections⟩).sections =
      sections.map compiler.compileSection := compiler.compileSections_eq_map sections
  rw [switchBlock, harguments, hcompiled] at h
  simp only [renderSwitch]
  cases hsubject : args.get? 0 with
  | none =>
    rw [hsubject] at h
    cases h
  | some subject =>
    rw [hsubject] at h
    obtain ⟨arms, harms, h⟩ := bind_eq_ok.mp h
    obtain rfl := Except.ok.inj h
    have hempty : CasesMean compiler.context subject [] fun _ => none := fun _ _ h => h
    have hnothing : Means compiler.context (Text.jsonString "") fun _ => "" :=
      (atomMeans_jsonString "").means fun _ => rfl
    obtain ⟨hfound, hlast⟩ :=
      means_foldlM_add (hargs.get? hsubject) hsections hempty hnothing harms
    have hchain := hfound _ _ hlast
    simp only [Option.none_or, ← Option.getD_or] at hchain
    exact hchain

/-! ### Templates -/

variable {engine : Engine}

/-- Fragments are joined to what the items render, one after another. -/
theorem means_concat_cons {context : String} {item : Item} {items : List Item} {code : String}
    {codes : List String} (hempty : codes = [] → items = [])
    (hitem : Means context code fun w => item.render w)
    (hitems : Means context (Code.concat codes) fun w => Item.listRender w items) :
    Means context (Code.concat (code :: codes)) fun w => Item.listRender w (item :: items) := by
  -- The last fragment is not joined to an empty text, but is the code itself.
  rcases codes with _ | ⟨next, codes⟩
  · obtain rfl := hempty rfl
    simpa [Code.concat, Item.listRender] using hitem
  · have h := means_append hitem hitems
    simpa [Code.concat, Item.listRender, String.append_assoc] using h

mutual

theorem means_codeOfItem (hengine : Installed engine) : ∀ {item : Item},
    item.WellFormed engine.dialect.isSectionKeyword → item.Plain → ∀ {code : String},
    engine.compiler.codeOfItem item = .ok code →
    Means engine.compiler.context code fun w => item.render w
  | .text content, _, _, _, h => by
    obtain rfl := Except.ok.inj h
    exact (atomMeans_jsonString content).means fun _ => rfl
  | .expression (.variable name), hwell, _, _, h => by
    obtain rfl := Except.ok.inj h
    exact (atomMeans_field hwell).means fun _ => rfl
  | .expression (.string text), _, _, _, h => by
    obtain rfl := Except.ok.inj h
    exact (atomMeans_jsonString text).means fun _ => rfl
  | .block _, hwell, hplain, _, h => means_codeOfBlock hengine hwell hplain h

theorem means_codeOfBlock (hengine : Installed engine) : ∀ {block : Block},
    block.WellFormed engine.dialect.isSectionKeyword → block.Plain → ∀ {code : String},
    engine.compiler.codeOfBlock (engine.compiler.compileBlock block) = .ok code →
    Means engine.compiler.context code fun w => block.render w
  | ⟨name, args, main, sections⟩, ⟨_, hargs, ⟨_, _, hmain⟩, hsections⟩, hplain, code, h => by
    obtain ⟨hname, hmainPlain, hsectionsPlain⟩ := hplain
    have hfaithful := faithful_section hengine hmain hmainPlain
    have hothers := faithful_sections hengine hsections hsectionsPlain
    rcases hname with rfl | rfl
    · have hrender : ∀ w, Block.render w ⟨"if", args, main, sections⟩ =
          renderIf w args (main.render w) (Section.renderAll w sections) := fun w => by
        rw [Block.render, if_pos rfl]
      rw [Compiler.codeOfBlock_eq hengine.ifBlock] at h
      simp only [hrender]
      exact means_ifBlock hargs hfaithful (fun s hs => (hothers s hs).2) h
    · have hrender : ∀ w, Block.render w ⟨"switch", args, main, sections⟩ =
          renderSwitch w args (Section.renderAll w sections) := fun w => by
        rw [Block.render, if_neg (by decide)]
      rw [Compiler.codeOfBlock_eq hengine.switchBlock] at h
      simp only [hrender]
      refine means_switchBlock hargs (fun s hs => ?_) h
      -- A well-formed section is headed by a keyword of its block.
      obtain ⟨⟨keyword, hkeyword, -, hregistered, harguments⟩, hs⟩ := hothers s hs
      refine ⟨harguments, ?_, hs⟩
      rw [hkeyword]
      exact (hengine.keywords keyword hregistered).imp (congrArg some) (congrArg some)

theorem faithful_section (hengine : Installed engine) : ∀ {n : String} {s : Section},
    s.BodyWellFormed engine.dialect.isSectionKeyword n → s.Plain → s.Faithful engine.compiler
  | _, ⟨_, _, items⟩, ⟨hwell, _⟩, hplain => by
    intro code h
    obtain ⟨codes, hcodes, rfl⟩ := map_eq_ok.mp h
    exact means_fragments hengine hwell hplain hcodes

theorem means_fragments (hengine : Installed engine) : ∀ {b : Option String} {items : List Item},
    Item.ListWellFormed engine.dialect.isSectionKeyword b items → Item.ListPlain items →
    ∀ {codes : List String}, engine.compiler.fragments items = .ok codes →
    Means engine.compiler.context (Code.concat codes) fun w => Item.listRender w items
  | _, [], _, _, _, h => by
    obtain rfl := Except.ok.inj h
    exact (atomMeans_jsonString "").means fun _ => rfl
  | _, item :: items, ⟨⟨hwell, _⟩, hwells⟩, ⟨hplain, hplains⟩, _, h => by
    obtain ⟨code, hcode, h⟩ := bind_eq_ok.mp h
    obtain ⟨codes, hcodes, h⟩ := bind_eq_ok.mp h
    obtain rfl := Except.ok.inj h
    have hitem := means_codeOfItem hengine hwell hplain hcode
    have hitems := means_fragments hengine hwells hplains hcodes
    exact means_concat_cons (fun hnil => Compiler.eq_nil_of_fragments (hnil ▸ hcodes)) hitem hitems

theorem faithful_sections (hengine : Installed engine) : ∀ {n : String} {sections : List Section},
    Section.ListWellFormed engine.dialect.isSectionKeyword n sections →
    Section.ListPlain sections → ∀ s ∈ sections, s.HeadedIn engine.dialect.isSectionKeyword n ∧
      s.Faithful engine.compiler
  | _, [], _, _ => nofun
  | _, _ :: _, ⟨⟨hheaded, hwell⟩, hwells⟩, ⟨hplain, hplains⟩ =>
    List.forall_mem_cons.mpr ⟨⟨hheaded, faithful_section hengine hwell hplain⟩,
      faithful_sections hengine hwells hplains⟩

end

/-- The code of a plain template is a function whose body means what the template renders. -/
theorem compile_means (hengine : Installed engine) {template : Template} {code : String}
    (hwell : template.WellFormed engine.dialect) (hplain : template.Plain)
    (h : engine.compiler.compile template = .ok code) :
    ∃ parameter body, (parameter = "" ∨ parameter = engine.compiler.context) ∧
      code = Code.function parameter body ∧
      Means engine.compiler.context body fun w => template.render w := by
  rw [Compiler.compile] at h
  -- A template without code of its own is written as a constant, whose function has no parameter.
  cases hconstant : template.constant? with
  | none =>
    rw [hconstant] at h
    obtain ⟨body, hbody, h⟩ := bind_eq_ok.mp h
    obtain rfl := Except.ok.inj h
    obtain ⟨codes, hcodes, rfl⟩ := map_eq_ok.mp hbody
    exact ⟨_, _, .inr rfl, rfl, means_fragments hengine hwell.1 hplain hcodes⟩
  | some text =>
    rw [hconstant] at h
    obtain rfl := Except.ok.inj h
    rw [hengine.constant]
    refine ⟨"", Text.jsonString text, .inl rfl, rfl, (atomMeans_jsonString text).means fun w => ?_⟩
    rcases Template.constant?_eq_some_iff.mp hconstant with ⟨hitems, rfl⟩ | hitems
    · rw [Template.render, hitems]
      rfl
    · rw [Template.render, hitems, Item.listRender, Item.render, Item.listRender,
        String.append_empty]

/-- The control flow is installed on the engine that its settings configure. -/
theorem installed_configure {context : String} (h : isName context.toList = true) :
    Installed ((Engine.ofContext context).configure settings) where
  context := h
  constant := rfl
  ifBlock := by
    show (((Registry.insert {} "if" ControlFlow.ifBlock).insert "switch" _).insert "each" _).get?
      "if" = _
    simp [Registry.get?_insert]
  switchBlock := by
    show (((Registry.insert {} "if" ControlFlow.ifBlock).insert "switch" _).insert "each" _).get?
      "switch" = _
    simp [Registry.get?_insert]
  keywords := by
    intro k hk
    have hdialect : ((Engine.ofContext context).configure settings).dialect =
        ((Dialect.addSection {} "if" "else").addSection "switch" "case").addSection "switch"
          "default" := rfl
    rw [hdialect] at hk
    simp only [Dialect.isSectionKeyword_addSection, Bool.or_eq_true, decide_eq_true_eq] at hk
    rcases hk with ⟨-, rfl⟩ | ⟨-, rfl⟩ | ⟨hname, -⟩ | hk
    · exact .inr rfl
    · exact .inl rfl
    · exact absurd hname (by decide)
    · cases hk

/-- The code of a source whose template is plain has a body that can be read in one way only, and
what is read has the text that the template renders for its value, whatever the variables are
and whatever numbers, comparisons and truth mean. -/
theorem process_means (hengine : Installed engine) {source : String} {template : Template}
    {code : String} (hparse : engine.parse source = .ok template) (hplain : template.Plain)
    (hprocess : engine.process source = .ok code) :
    ∃ parameter body, (parameter = "" ∨ parameter = engine.compiler.context) ∧
      code = Code.function parameter body ∧
      ∃ e : Code.Expr, (∀ f : Code.Expr,
          f.Spelled engine.compiler.context body.toList ↔ f = e) ∧
        ∀ w : World, e.eval w = w.ofText (template.render w) := by
  rw [Engine.process, hparse] at hprocess
  have hwell := Template.wellFormed_of_ofSource (mapError_eq_ok.mp hparse)
  obtain ⟨parameter, body, hparameter, hcode, e, hspelled, heval⟩ :=
    compile_means hengine hwell hplain (mapError_eq_ok.mp hprocess)
  refine ⟨parameter, body, hparameter, hcode, e, fun f => ⟨fun hf => ?_, ?_⟩, heval⟩
  · exact hf.eq_of_spelled hengine.context hspelled
  · rintro rfl
    exact hspelled

/-- A `switch` in the `else` section of an `if`, with a text behind both. -/
theorem process_means_switch_in_else :
    ((Engine.ofContext "c").configure settings).process
        r"{{#if a}}x{{else}}{{#switch b}}{{case 2}}y{{default}}{{b}}{{/switch}}{{/if}}!" =
      .ok r#"function(c){return (c.a?"x":(c.b==2?"y":c.b))+"!";}"# ∧
    ∃ template : Template, template.Plain ∧ ∃ parameter body, (parameter = "" ∨ parameter = "c") ∧
      r#"function(c){return (c.a?"x":(c.b==2?"y":c.b))+"!";}"# = Code.function parameter body ∧
      ∃ e : Code.Expr, (∀ f : Code.Expr, f.Spelled "c" body.toList ↔ f = e) ∧
        ∀ w : World, e.eval w = w.ofText (template.render w) := by
  have hparse : ((Engine.ofContext "c").configure settings).parse
      r"{{#if a}}x{{else}}{{#switch b}}{{case 2}}y{{default}}{{b}}{{/switch}}{{/if}}!" =
      .ok ⟨[.block ⟨"if", ⟨[.variable "a"], {}⟩, .ofItems [.text "x"],
        [⟨some "else", {}, [.block ⟨"switch", ⟨[.variable "b"], {}⟩, .ofItems [],
          [⟨some "case", ⟨[.number "2"], {}⟩, [.text "y"]⟩,
            ⟨some "default", {}, [.expression (.variable "b")]⟩]⟩]⟩]⟩, .text "!"]⟩ := by
    cbv
  have hprocess : ((Engine.ofContext "c").configure settings).process
      r"{{#if a}}x{{else}}{{#switch b}}{{case 2}}y{{default}}{{b}}{{/switch}}{{/if}}!" =
      .ok r#"function(c){return (c.a?"x":(c.b==2?"y":c.b))+"!";}"# := by
    cbv
  have hplain : Template.Plain ⟨[.block ⟨"if", ⟨[.variable "a"], {}⟩, .ofItems [.text "x"],
      [⟨some "else", {}, [.block ⟨"switch", ⟨[.variable "b"], {}⟩, .ofItems [],
        [⟨some "case", ⟨[.number "2"], {}⟩, [.text "y"]⟩,
          ⟨some "default", {}, [.expression (.variable "b")]⟩]⟩]⟩]⟩, .text "!"]⟩ := by
    simp [Template.Plain, Item.ListPlain, Item.Plain, Block.Plain, Section.Plain,
      Section.ListPlain, Section.ofItems]
  exact ⟨hprocess, _, hplain,
    process_means (installed_configure rfl) hparse hplain hprocess⟩

end ControlFlow

end Stencil
