/-
The control flow by itself.

An engine on which the control flow is `Alone` has no other helpers, block helpers and keywords.
What it takes for each of the helpers to write code, and which code that is, is said once:

* `codeOfCall_eq_ok_iff`, `codeOfBlock_eq_ok_iff` — only `json` writes calls, and only `if`,
  `switch` and `each` write blocks;
* `ifBlock_eq_ok_iff`, `switchBlock_eq_ok_iff`, `Arms.add_eq_ok_iff`, `eachBlock_eq_ok_iff` — a
  block helper writes the code of those sections that have to have one.
-/
import Mathlib
import Stencil.Proofs.Meaning.Preserved

namespace Stencil.ControlFlow

/-! ### Engines -/

/-- What the control flow registers, and nothing else. -/
structure Alone (engine : Engine) : Prop where
  helpers : ∀ name, engine.compiler.helpers.get? name =
    if name = "json" then some ControlFlow.json else none
  blockHelpers : ∀ name, engine.compiler.blockHelpers.get? name =
    if name = "each" then some ControlFlow.eachBlock
    else if name = "switch" then some ControlFlow.switchBlock
    else if name = "if" then some ControlFlow.ifBlock
    else none
  keywords : ∀ block keyword, engine.dialect.isSectionKeyword block keyword = true ↔
    block = "if" ∧ keyword = "else" ∨
      block = "switch" ∧ (keyword = "case" ∨ keyword = "default")

/-- The settings of the control flow register nothing else. -/
theorem alone_configure (context : String) :
    Alone ((Engine.ofContext context).configure settings) where
  helpers name := by
    show (Registry.insert {} "json" ControlFlow.json).get? name = _
    rw [Registry.get?_insert]
    rfl
  blockHelpers name := by
    show (((Registry.insert {} "if" ControlFlow.ifBlock).insert "switch"
      ControlFlow.switchBlock).insert "each" ControlFlow.eachBlock).get? name = _
    rw [Registry.get?_insert, Registry.get?_insert, Registry.get?_insert]
    rfl
  keywords block keyword := by
    have hdialect : ((Engine.ofContext context).configure settings).dialect =
        ((Dialect.addSection {} "if" "else").addSection "switch" "case").addSection "switch"
          "default" := rfl
    have hempty : Dialect.isSectionKeyword {} block keyword = false := rfl
    rw [hdialect]
    simp only [Dialect.isSectionKeyword_addSection, hempty, Bool.or_eq_true, decide_eq_true_eq,
      Bool.false_eq_true, or_false]
    tauto

variable {engine : Engine} {context : String} {block : CompiledBlock} {code : String}

/-- Only `json` writes calls. -/
theorem codeOfCall_eq_ok_iff (halone : Alone engine) {call : Call} :
    engine.compiler.codeOfCall call = .ok code ↔
      call.name = "json" ∧ ∃ value, call.arguments.positional = [value] ∧
        code = "JSON.stringify(" ++ value.code engine.compiler.context ++ ")" := by
  rw [Compiler.codeOfCall, Helper.write]
  split
  next hget =>
    rw [halone.helpers] at hget
    split at hget
    next => cases hget
    next hname => simp [hname]
  next write hget =>
    rw [halone.helpers] at hget
    split at hget
    next hname =>
      obtain rfl := Helper.rule.inj (Option.some.inj hget)
      dsimp only
      split
      next value hvalue =>
        simp only [hname, hvalue, List.cons.injEq, and_true, true_and, exists_eq_left',
          Except.ok.injEq, eq_comm]
      next hvalue =>
        refine iff_of_false (by simp) ?_
        rintro ⟨-, value, hone, -⟩
        exact hvalue value hone
    next => cases hget
  next target hget =>
    rw [halone.helpers] at hget
    split at hget
    next => cases hget
    next => cases hget

/-- Only `if`, `switch` and `each` write blocks. -/
theorem codeOfBlock_eq_ok_iff (halone : Alone engine) :
    engine.compiler.codeOfBlock block = .ok code ↔
      block.name = "if" ∧ ifBlock engine.compiler.context block = .ok code ∨
      block.name = "switch" ∧ switchBlock engine.compiler.context block = .ok code ∨
      block.name = "each" ∧ eachBlock engine.compiler.context block = .ok code := by
  rw [Compiler.codeOfBlock, halone.blockHelpers]
  by_cases heach : block.name = "each"
  · simp [heach]
  by_cases hswitch : block.name = "switch"
  · simp [hswitch]
  by_cases hif : block.name = "if"
  · simp [hif]
  · simp [heach, hswitch, hif]

/-! ### Block helpers -/

/-- An `if` needs a condition, and code of its main section and of its first `else` section if
there is one. -/
theorem ifBlock_eq_ok_iff : ifBlock context block = .ok code ↔
    ∃ condition body otherwise, block.arguments.get? 0 = some condition ∧
      block.main.code = .ok body ∧
      (∀ s, block.section? "else" = some s → s.code = .ok otherwise) ∧
      (block.section? "else" = none → otherwise = Text.jsonString "") ∧
      code = "(" ++ condition.code context ++ "?" ++ body ++ ":" ++ otherwise ++ ")" := by
  rw [ifBlock]
  cases block.arguments.get? 0 with
  | none => simp
  | some condition =>
    cases block.section? "else" with
    | none =>
      constructor
      · intro h
        obtain ⟨otherwise, hotherwise, h⟩ := bind_eq_ok.mp h
        obtain ⟨body, hbody, h⟩ := bind_eq_ok.mp h
        refine ⟨condition, body, otherwise, rfl, hbody, ?_,
          fun _ => (Except.ok.inj hotherwise).symm, (Except.ok.inj h).symm⟩
        rintro _ ⟨⟩
      · rintro ⟨_, body, _, ⟨⟩, hbody, -, hotherwise, rfl⟩
        exact bind_eq_ok.mpr ⟨_, congrArg Except.ok (hotherwise rfl).symm,
          bind_eq_ok.mpr ⟨body, hbody, rfl⟩⟩
    | some s =>
      constructor
      · intro h
        obtain ⟨otherwise, hotherwise, h⟩ := bind_eq_ok.mp h
        obtain ⟨body, hbody, h⟩ := bind_eq_ok.mp h
        refine ⟨condition, body, otherwise, rfl, hbody, ?_, ?_, (Except.ok.inj h).symm⟩
        · rintro _ ⟨⟩
          exact hotherwise
        · rintro ⟨⟩
      · rintro ⟨_, body, otherwise, ⟨⟩, hbody, hotherwise, -, rfl⟩
        exact bind_eq_ok.mpr ⟨otherwise, hotherwise s rfl, bind_eq_ok.mpr ⟨body, hbody, rfl⟩⟩

/-- A `switch` needs a subject, and the arms of all its sections. -/
theorem switchBlock_eq_ok_iff : switchBlock context block = .ok code ↔
    ∃ subject arms, block.arguments.get? 0 = some subject ∧
      block.sections.foldlM (Arms.add context) {} = .ok arms ∧
      code = arms.code (subject.code context) := by
  rw [switchBlock]
  cases block.arguments.get? 0 with
  | none => simp
  | some subject =>
    constructor
    · intro h
      obtain ⟨arms, harms, h⟩ := bind_eq_ok.mp h
      exact ⟨subject, arms, rfl, harms, (Except.ok.inj h).symm⟩
    · rintro ⟨_, arms, ⟨⟩, harms, rfl⟩
      exact bind_eq_ok.mpr ⟨arms, harms, rfl⟩

/-- A section adds a case with its label, or takes the place of the fallback. -/
theorem Arms.add_eq_ok_iff {arms arms' : Arms} {s : CompiledSection} :
    arms.add context s = .ok arms' ↔ ∃ body, s.code = .ok body ∧
      (s.name? = some "case" ∧ (∃ label, s.arguments.get? 0 = some label ∧
          arms' = { arms with cases := arms.cases ++ [(label.code context, body)] }) ∨
        s.name? ≠ some "case" ∧ arms' = { arms with fallback := body }) := by
  rw [Arms.add]
  by_cases hname : s.name? = some "case"
  · rw [if_pos hname]
    cases s.arguments.get? 0 with
    | none => simp [hname]
    | some label =>
      constructor
      · intro h
        obtain ⟨body, hbody, h⟩ := bind_eq_ok.mp h
        exact ⟨body, hbody, .inl ⟨hname, label, rfl, (Except.ok.inj h).symm⟩⟩
      · rintro ⟨body, hbody, ⟨-, _, ⟨⟩, rfl⟩ | ⟨hne, -⟩⟩
        · exact bind_eq_ok.mpr ⟨body, hbody, rfl⟩
        · exact absurd hname hne
  · rw [if_neg hname]
    constructor
    · intro h
      obtain ⟨body, hbody, h⟩ := bind_eq_ok.mp h
      exact ⟨body, hbody, .inr ⟨hname, (Except.ok.inj h).symm⟩⟩
    · rintro ⟨body, hbody, ⟨hcase, -⟩ | ⟨-, rfl⟩⟩
      · exact absurd hcase hname
      · exact bind_eq_ok.mpr ⟨body, hbody, rfl⟩

/-- An `each` needs the name of a list and code of its main section. -/
theorem eachBlock_eq_ok_iff : eachBlock context block = .ok code ↔
    ∃ list body, block.arguments.get? 0 = some (.variable list) ∧ block.main.code = .ok body ∧
      code = Code.field context list ++ ".map(" ++ Code.function "" body ++ ").join(\"\")" := by
  rw [eachBlock]
  split
  next list hlist =>
    constructor
    · intro h
      obtain ⟨body, hbody, h⟩ := bind_eq_ok.mp h
      exact ⟨list, body, hlist, hbody, (Except.ok.inj h).symm⟩
    · rintro ⟨_, body, hlist', hbody, rfl⟩
      obtain rfl := Value.variable.inj (Option.some.inj (hlist.symm.trans hlist'))
      exact bind_eq_ok.mpr ⟨body, hbody, rfl⟩
  next hlist =>
    refine iff_of_false (by simp) ?_
    rintro ⟨list, _, hvariable, -⟩
    exact hlist list hvariable

end Stencil.ControlFlow
