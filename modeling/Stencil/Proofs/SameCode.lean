/-
Same templates, same code.

A helper is `OrderBlind` if what it writes, or the error that it gives, does not depend on the order
of named arguments.

* `Compiler.OrderBlind.compile_eq` — order-blind helpers make an order-blind compiler: on the way
  down the templates all errors come in the same order, since a block hands the same code, or the
  same error, of each of its sections to its helper;
* `ControlFlow.orderBlind` — the helpers of the control flow look at positional arguments only;
* `Template.same_iff_and_compile_eq` — so an engine with the control flow never tells apart two
  templates that are the same.
-/
import Mathlib
import Stencil.Proofs.ControlFlow
import Stencil.Proofs.Sameness

namespace Stencil

/-! ### Compiled blocks -/

/-- Whether two compiled sections have the same code, and differ at most in the order of the named
arguments that introduce them. -/
structure CompiledSection.Reordered (a b : CompiledSection) : Prop where
  name? : a.name? = b.name?
  arguments : a.arguments.Reordered b.arguments
  code : a.code = b.code

/-- Whether two compiled blocks have the same code in their sections, and differ at most in the
order of named arguments. -/
structure CompiledBlock.Reordered (a b : CompiledBlock) : Prop where
  name : a.name = b.name
  arguments : a.arguments.Reordered b.arguments
  main : a.main.Reordered b.main
  sections : List.Forall₂ CompiledSection.Reordered a.sections b.sections

theorem Arguments.Reordered.get?_eq {a b : Arguments} (h : a.Reordered b) (i : Nat) :
    a.get? i = b.get? i := by
  rw [get?, get?, h.positional]

/-- The first sections behind a keyword have the same code. -/
theorem CompiledBlock.Reordered.section? {a b : CompiledBlock} (h : a.Reordered b)
    (keyword : String) :
    Option.Rel CompiledSection.Reordered (a.section? keyword) (b.section? keyword) := by
  have hsections := h.sections
  rw [CompiledBlock.section?, CompiledBlock.section?]
  generalize a.sections = as, b.sections = bs at hsections
  induction hsections with
  | nil => exact .none
  | @cons s t _ _ hs _ ih =>
    rw [List.find?_cons, List.find?_cons, hs.name?]
    cases decide (t.name? = some keyword) with
    | true => exact .some hs
    | false => exact ih

/-! ### Order-blind helpers -/

/-- Whether the order of named arguments leaves no trace in what a helper writes.  An alias writes
nothing itself. -/
def Helper.OrderBlind : Helper → Prop
  | .rule write => ∀ context (a b : Call), a.Reordered b → write context a = write context b
  | .alias _ => True

/-- Whether the order of named arguments leaves no trace in what a block helper writes. -/
def BlockHelper.OrderBlind (write : BlockHelper) : Prop :=
  ∀ context (a b : CompiledBlock), a.Reordered b → write context a = write context b

/-- Whether all helpers of a compiler are order-blind. -/
structure Compiler.OrderBlind (compiler : Compiler) : Prop where
  helpers : ∀ name helper, compiler.helpers.get? name = some helper → helper.OrderBlind
  blockHelpers : ∀ name write, compiler.blockHelpers.get? name = some write →
    BlockHelper.OrderBlind write

theorem Registry.get?_eq_some_iff {α : Type} {registry : Registry α} {name : String} {value : α} :
    registry.get? name = some value ↔ (name, value) ∈ registry.entries :=
  lookup_eq_some_iff_mem (registry.pairwise_names.imp fun hlt => Std.ne_of_lt hlt)

/-- An entry that is still there after a name has been dropped was there before. -/
theorem Registry.get?_of_erase {α : Type} {registry : Registry α} {name other : String} {value : α}
    (h : (registry.erase name).get? other = some value) : registry.get? other = some value := by
  rw [get?_eq_some_iff] at h ⊢
  exact List.mem_of_mem_filter h

namespace Helper

variable {context : String}

theorem write_of_unknown {helpers : Registry Helper} {call : Call}
    (h : helpers.get? call.name = none) :
    Helper.write context helpers call = .error (.unknownHelper call.name) := by
  rw [Helper.write]
  split
  next => rfl
  next hget => cases h.symm.trans hget
  next hget => cases h.symm.trans hget

theorem write_of_rule {helpers : Registry Helper} {call : Call}
    {rule : String → Call → Except CompileError String}
    (h : helpers.get? call.name = some (.rule rule)) :
    Helper.write context helpers call = rule context call := by
  rw [Helper.write]
  split
  next hget => cases h.symm.trans hget
  next hget => cases h.symm.trans hget; rfl
  next hget => cases h.symm.trans hget

theorem write_of_alias {helpers : Registry Helper} {call : Call} {target : String}
    (h : helpers.get? call.name = some (.alias target)) :
    Helper.write context helpers call =
      Helper.write context (helpers.erase call.name) { call with name := target } := by
  rw [Helper.write]
  split
  next hget => cases h.symm.trans hget
  next hget => cases h.symm.trans hget
  next hget => cases h.symm.trans hget; rfl

/-- Along the same aliases, order-blind helpers write the same code for reordered calls. -/
theorem write_eq_of_reordered : ∀ {helpers : Registry Helper} {a b : Call},
    (∀ name helper, helpers.get? name = some helper → helper.OrderBlind) → a.Reordered b →
    Helper.write context helpers a = Helper.write context helpers b
  | helpers, ⟨name, args⟩, ⟨_, args'⟩, hhelpers, ⟨rfl, hargs⟩ => by
    cases hget : helpers.get? name with
    | none => rw [write_of_unknown hget, write_of_unknown hget]
    | some helper =>
      rcases helper with rule | target
      · rw [write_of_rule hget, write_of_rule hget]
        exact hhelpers name _ hget context _ _ ⟨rfl, hargs⟩
      · have := helpers.length_entries_erase_lt hget
        refine (write_of_alias hget).trans (Eq.trans ?_ (write_of_alias hget).symm)
        exact write_eq_of_reordered
          (fun other helper h => hhelpers other helper (Registry.get?_of_erase h)) ⟨rfl, hargs⟩
termination_by helpers => helpers.entries.length

end Helper

/-! ### Order-blind compilers -/

namespace Compiler.OrderBlind

variable {compiler : Compiler}

theorem codeOfCall_eq (hcompiler : compiler.OrderBlind) {a b : Call} (h : a.Reordered b) :
    compiler.codeOfCall a = compiler.codeOfCall b :=
  Helper.write_eq_of_reordered hcompiler.helpers h

theorem codeOfBlock_eq (hcompiler : compiler.OrderBlind) {a b : CompiledBlock}
    (h : a.Reordered b) : compiler.codeOfBlock a = compiler.codeOfBlock b := by
  rw [codeOfBlock, codeOfBlock, ← h.name]
  cases hget : compiler.blockHelpers.get? a.name with
  | none => rfl
  | some write => exact hcompiler.blockHelpers a.name write hget compiler.context a b h

mutual

theorem codeOfItem_eq (hcompiler : compiler.OrderBlind) : ∀ {a b : Item}, a.Reordered b →
    compiler.codeOfItem a = compiler.codeOfItem b
  | _, _, .text _ => rfl
  | _, _, .expression _ => rfl
  | _, _, .call h => by
    rw [codeOfItem, codeOfItem, hcompiler.codeOfCall_eq h]
  | _, _, .block h => by
    rw [codeOfItem, codeOfItem, hcompiler.codeOfBlock_eq (compileBlock_reordered hcompiler h)]

theorem compileBlock_reordered (hcompiler : compiler.OrderBlind) : ∀ {a b : Block},
    a.Reordered b → (compiler.compileBlock a).Reordered (compiler.compileBlock b)
  | _, _, .mk hargs hmain hsections =>
    ⟨rfl, hargs, compileSection_reordered hcompiler hmain,
      compileSections_reordered hcompiler hsections⟩

theorem compileSection_reordered (hcompiler : compiler.OrderBlind) : ∀ {a b : Section},
    a.Reordered b → (compiler.compileSection a).Reordered (compiler.compileSection b)
  | _, _, .mk hargs hitems =>
    ⟨rfl, hargs, congrArg (Except.map Code.concat) (fragments_eq hcompiler hitems)⟩

/-- The first error among the fragments is the same, too. -/
theorem fragments_eq (hcompiler : compiler.OrderBlind) : ∀ {as bs : List Item},
    Item.ListReordered as bs → compiler.fragments as = compiler.fragments bs
  | _, _, .nil => rfl
  | _, _, .cons h hs => by
    rw [fragments, fragments, codeOfItem_eq hcompiler h, fragments_eq hcompiler hs]

theorem compileSections_reordered (hcompiler : compiler.OrderBlind) : ∀ {as bs : List Section},
    Section.ListReordered as bs →
    List.Forall₂ CompiledSection.Reordered (compiler.compileSections as)
      (compiler.compileSections bs)
  | _, _, .nil => .nil
  | _, _, .cons h hs =>
    .cons (compileSection_reordered hcompiler h) (compileSections_reordered hcompiler hs)

end

/-- A template is constant in any order of its named arguments, or in none. -/
theorem constant?_eq {a b : Template} (h : a.Reordered b) : a.constant? = b.constant? := by
  obtain ⟨as⟩ := a
  obtain ⟨bs⟩ := b
  cases h with
  | nil => rfl
  | cons hitem hrest =>
    cases hitem with
    | text content =>
      cases hrest with
      | nil => rfl
      | cons => rfl
    | expression => rfl
    | call => rfl
    | block => rfl

/-- Order-blind helpers make an order-blind compiler. -/
theorem compile_eq (hcompiler : compiler.OrderBlind) {a b : Template} (h : a.Reordered b) :
    compiler.compile a = compiler.compile b := by
  rw [compile, compile, constant?_eq h, codeOfItems, codeOfItems, fragments_eq hcompiler h]

end Compiler.OrderBlind

/-! ### The control flow -/

namespace ControlFlow

theorem orderBlind_ifBlock : BlockHelper.OrderBlind ifBlock := by
  intro context a b h
  rw [ifBlock, ifBlock, h.arguments.get?_eq, h.main.code]
  have hsection := h.section? "else"
  generalize a.section? "else" = s, b.section? "else" = t at hsection
  cases hsection with
  | none => rfl
  | some hs =>
    dsimp only
    rw [hs.code]

/-- A section adds the same arm, or gives the same error, in any order of its named arguments. -/
theorem Arms.add_eq (context : String) (arms : Arms) {s t : CompiledSection} (h : s.Reordered t) :
    arms.add context s = arms.add context t := by
  rw [Arms.add, Arms.add, h.name?, h.arguments.get?_eq, h.code]

theorem Arms.foldlM_add_eq (context : String) {ss ts : List CompiledSection}
    (h : List.Forall₂ CompiledSection.Reordered ss ts) (arms : Arms) :
    ss.foldlM (Arms.add context) arms = ts.foldlM (Arms.add context) arms := by
  induction h generalizing arms with
  | nil => rfl
  | cons hs _ ih =>
    rw [List.foldlM_cons, List.foldlM_cons, Arms.add_eq context arms hs]
    exact bind_congr ih

theorem orderBlind_switchBlock : BlockHelper.OrderBlind switchBlock := by
  intro context a b h
  rw [switchBlock, switchBlock, h.arguments.get?_eq, Arms.foldlM_add_eq context h.sections]

theorem orderBlind_eachBlock : BlockHelper.OrderBlind eachBlock := by
  intro context a b h
  rw [eachBlock, eachBlock, h.arguments.get?_eq, h.main.code]

theorem orderBlind_json : json.OrderBlind := by
  intro context a b h
  dsimp only
  rw [h.arguments.positional]

/-- The helpers of the control flow do not look at named arguments at all. -/
theorem Alone.orderBlind {engine : Engine} (halone : Alone engine) :
    engine.compiler.OrderBlind where
  helpers name helper h := by
    rw [halone.helpers] at h
    split at h
    next => exact Option.some.inj h ▸ orderBlind_json
    next => cases h
  blockHelpers name write h := by
    rw [halone.blockHelpers] at h
    split at h
    next => exact Option.some.inj h ▸ orderBlind_eachBlock
    next =>
      split at h
      next => exact Option.some.inj h ▸ orderBlind_switchBlock
      next =>
        split at h
        next => exact Option.some.inj h ▸ orderBlind_ifBlock
        next => cases h

end ControlFlow

/-- An engine with the control flow, and with any way to write constants. -/
theorem ControlFlow.orderBlind_configure (context : String) (constant : String → String) :
    (((Engine.ofContext context).configure ControlFlow.settings).apply
      (.setConstant constant)).compiler.OrderBlind := by
  have h := (ControlFlow.alone_configure context).orderBlind
  exact ⟨h.helpers, h.blockHelpers⟩

/-- Being the same is an equivalence of templates, and means that they differ at most in the order
of the named arguments of calls, blocks and sections.  The control flow has the same code, or the
same error, for templates that are the same, whatever the name of the context and however constants
are written. -/
theorem Template.same_iff_and_compile_eq :
    (Equivalence fun a b : Template => a.same b = true) ∧
    (∀ a b : Template, a.same b = true ↔ a.Reordered b) ∧
    ∀ (context : String) (constant : String → String) (a b : Template), a.same b = true →
      (((Engine.ofContext context).configure ControlFlow.settings).apply
          (.setConstant constant)).compile a =
        (((Engine.ofContext context).configure ControlFlow.settings).apply
          (.setConstant constant)).compile b := by
  refine ⟨equivalence_same, fun _ _ => same_iff, fun context constant a b h => ?_⟩
  rw [Engine.compile, Engine.compile,
    (ControlFlow.orderBlind_configure context constant).compile_eq (same_iff.mp h)]

/-- A `switch` with a `case` and a call of `json` in it, each with two named arguments: in either
order of them the code is the same. -/
theorem Template.same_iff_and_compile_eq_nested :
    let template (named : NamedArguments) : Template :=
      ⟨[.block ⟨"switch", ⟨[.variable "s"], named⟩, .ofItems [],
        [⟨some "case", ⟨[.number "1"], named⟩, [.call ⟨"json", ⟨[.variable "x"], named⟩⟩]⟩]⟩]⟩
    let forth := NamedArguments.ofList [("k", .number "1"), ("l", .number "2")]
    let back := NamedArguments.ofList [("l", .number "2"), ("k", .number "1")]
    let engine := ((Engine.ofContext "c").configure ControlFlow.settings).apply
      (.setConstant Code.quotedLength)
    forth ≠ back ∧ (template forth).Reordered (template back) ∧
      engine.compile (template forth) = engine.compile (template back) ∧
      engine.compile (template back) =
        .ok r#"function(c){return (c.s==1?JSON.stringify(c.x):"");}"# := by
  intro template forth back engine
  have hsame : (template forth).same (template back) = true := by cbv
  obtain ⟨-, hiff, hcompile⟩ := same_iff_and_compile_eq
  exact ⟨by decide, (hiff _ _).mp hsame, hcompile "c" Code.quotedLength _ _ hsame, by cbv⟩

end Stencil
