/-
The order of configuration.

An engine is set up in steps, each of one setting or of several that come together.  Which
step comes first is of no importance, as long as the two do not write over the same slot:
the limit, the form of a constant, or the helper of one name.  Section keywords only add up.

* `Setting.slot?` — what a setting writes over;
* `Engine.Reorder` — one change of the order of steps, or one keyword added again;
* `apply_comm`, `configure_comm` — settings, and lists of them, in either order;
* `isSectionKeyword_configure`, `mem_helpers_configure`, `mem_blockHelpers_configure` — what is
  registered behind settings;
* `ofSteps_eq_of_reorder` — one change of no consequence leaves the engine as it is;
* `ofSteps_of_eqvGen` — any number of them do, so that every answer stays the same, and the
  names that the engine shows are the registered ones, each once and in ascending order, and can
  be read off what is shown (`Compiler.summary_eq_iff`).

That the engines are equal, and not only alike, is due to `Registry.ext_get?`: a registry
keeps no trace of how it came about.
-/
import Mathlib
import Stencil.Engine
import Stencil.Helper.ControlFlow
import Stencil.Proofs.SummaryReading

namespace Stencil

namespace Setting

/-- What settings write over. -/
inductive Slot
  | maxDepth
  | constant
  | helper (name : String)
  | blockHelper (name : String)
deriving DecidableEq, Repr

/-- What a setting writes over.  A section keyword takes nothing's place. -/
def slot? : Setting → Option Slot
  | .addSection _ _ => none
  | .setMaxDepth _ => some .maxDepth
  | .setConstant _ => some .constant
  | .addHelper name _ => some (.helper name)
  | .addBlockHelper name _ => some (.blockHelper name)

/-- What settings write over. -/
def slots (settings : List Setting) : List Slot :=
  settings.filterMap slot?

/-- Whether two settings write over different slots, or over none. -/
def Apart (a b : Setting) : Prop :=
  ∀ slot, a.slot? = some slot → b.slot? ≠ some slot

theorem apart_of_disjoint {as bs : List Setting} (h : (slots as).Disjoint (slots bs))
    {a b : Setting} (ha : a ∈ as) (hb : b ∈ bs) : a.Apart b := fun _ hslot hslot' =>
  h (List.mem_filterMap.2 ⟨a, ha, hslot⟩) (List.mem_filterMap.2 ⟨b, hb, hslot'⟩)

end Setting

namespace Engine

open Setting (slots)

/-- One change of the steps of a configuration that is of no consequence. -/
inductive Reorder : List (List Setting) → List (List Setting) → Prop
  /-- Neighbours that write over different slots change places. -/
  | swap (before : List (List Setting)) (a b : List Setting) (after : List (List Setting))
      (h : (slots a).Disjoint (slots b)) :
      Reorder (before ++ a :: b :: after) (before ++ b :: a :: after)
  /-- A keyword that is added elsewhere is added once more. -/
  | again (before : List (List Setting)) (block keyword : String) (after : List (List Setting))
      (h : .addSection block keyword ∈ (before ++ after).flatten) :
      Reorder (before ++ after) (before ++ [.addSection block keyword] :: after)

theorem configure_append (engine : Engine) (as bs : List Setting) :
    engine.configure (as ++ bs) = (engine.configure as).configure bs :=
  List.foldl_append

/-! ### Either order -/

/-- Two settings that write over different slots can be made in either order. -/
theorem apply_comm (engine : Engine) {a b : Setting} (h : a.Apart b) :
    (engine.apply a).apply b = (engine.apply b).apply a := by
  cases a <;> cases b
  case addSection.addSection block keyword block' keyword' =>
    simp only [apply, engine.dialect.addSection_comm block keyword block' keyword']
  case setMaxDepth.setMaxDepth => exact absurd rfl (h .maxDepth rfl)
  case setConstant.setConstant => exact absurd rfl (h .constant rfl)
  case addHelper.addHelper name helper name' helper' =>
    have hne : name ≠ name' := fun e => h (.helper name) rfl (by rw [e]; rfl)
    simp only [apply, engine.compiler.helpers.insert_comm hne helper helper']
  case addBlockHelper.addBlockHelper name helper name' helper' =>
    have hne : name ≠ name' := fun e => h (.blockHelper name) rfl (by rw [e]; rfl)
    simp only [apply, engine.compiler.blockHelpers.insert_comm hne helper helper']
  -- Settings of different kinds change different fields.
  all_goals rfl

/-- A setting can be made before or after others that write over different slots. -/
theorem configure_apply (engine : Engine) {a : Setting} {bs : List Setting}
    (h : ∀ b ∈ bs, a.Apart b) :
    (engine.apply a).configure bs = (engine.configure bs).apply a := by
  induction bs generalizing engine with
  | nil => rfl
  | cons b bs ih =>
    calc ((engine.apply a).apply b).configure bs
        = ((engine.apply b).apply a).configure bs := by
          rw [engine.apply_comm (h b List.mem_cons_self)]
      _ = ((engine.apply b).configure bs).apply a :=
          ih _ fun b' hb' => h b' (List.mem_cons_of_mem b hb')

/-- Lists of settings that write over different slots can be made in either order. -/
theorem configure_comm (engine : Engine) {as bs : List Setting}
    (h : (slots as).Disjoint (slots bs)) :
    (engine.configure as).configure bs = (engine.configure bs).configure as := by
  have hapart : ∀ a ∈ as, ∀ b ∈ bs, a.Apart b := fun a ha b hb => Setting.apart_of_disjoint h ha hb
  clear h
  induction as generalizing engine with
  | nil => rfl
  | cons a as ih =>
    calc ((engine.apply a).configure as).configure bs
        = ((engine.apply a).configure bs).configure as :=
          ih _ fun a' ha' => hapart a' (List.mem_cons_of_mem a ha')
      _ = ((engine.configure bs).apply a).configure as := by
          rw [engine.configure_apply (hapart a List.mem_cons_self)]

/-! ### What is registered -/

/-- What holds behind a setting if the setting brings it about, or else if it held before,
holds behind settings if one of them brings it about, or else if it held before. -/
theorem configure_iff {P : Engine → Prop} {Q : Setting → Prop}
    (h : ∀ engine setting, P (apply engine setting) ↔ Q setting ∨ P engine)
    (engine : Engine) (settings : List Setting) :
    P (engine.configure settings) ↔ (∃ setting ∈ settings, Q setting) ∨ P engine := by
  induction settings generalizing engine with
  | nil => simp [configure]
  | cons setting settings ih =>
    calc P ((engine.apply setting).configure settings)
        ↔ (∃ s ∈ settings, Q s) ∨ P (engine.apply setting) := ih _
      _ ↔ (∃ s ∈ setting :: settings, Q s) ∨ P engine := by
          rw [h, List.exists_mem_cons_iff, ← or_assoc, or_comm (b := Q setting)]

theorem isSectionKeyword_apply (block keyword : String) (engine : Engine) (setting : Setting) :
    (engine.apply setting).dialect.isSectionKeyword block keyword = true ↔
      .addSection block keyword = setting ∨
        engine.dialect.isSectionKeyword block keyword = true := by
  cases setting with
  | addSection block' keyword' => simp [apply, Dialect.isSectionKeyword_addSection]
  | _ => exact (or_iff_right nofun).symm

theorem mem_helpers_apply (name : String) (engine : Engine) (setting : Setting) :
    name ∈ (engine.apply setting).compiler.helpers.names ↔
      (∃ helper, .addHelper name helper = setting) ∨ name ∈ engine.compiler.helpers.names := by
  cases setting <;> simp [apply, Registry.mem_names_iff, Registry.contains_insert]

theorem mem_blockHelpers_apply (name : String) (engine : Engine) (setting : Setting) :
    name ∈ (engine.apply setting).compiler.blockHelpers.names ↔
      (∃ helper, .addBlockHelper name helper = setting) ∨
        name ∈ engine.compiler.blockHelpers.names := by
  cases setting <;> simp [apply, Registry.mem_names_iff, Registry.contains_insert]

/-- Behind settings, the section keywords are those that were added and those before. -/
theorem isSectionKeyword_configure (engine : Engine) (settings : List Setting)
    (block keyword : String) :
    (engine.configure settings).dialect.isSectionKeyword block keyword = true ↔
      .addSection block keyword ∈ settings ∨
        engine.dialect.isSectionKeyword block keyword = true := by
  simpa using configure_iff (P := fun engine => engine.dialect.isSectionKeyword block keyword)
    (isSectionKeyword_apply block keyword) engine settings

/-- Behind settings, the helpers are those that were registered and those before. -/
theorem mem_helpers_configure (engine : Engine) (settings : List Setting) (name : String) :
    name ∈ (engine.configure settings).compiler.helpers.names ↔
      (∃ helper, .addHelper name helper ∈ settings) ∨ name ∈ engine.compiler.helpers.names := by
  simpa using configure_iff (P := fun engine => name ∈ engine.compiler.helpers.names)
    (mem_helpers_apply name) engine settings

/-- Behind settings, the block helpers are those that were registered and those before. -/
theorem mem_blockHelpers_configure (engine : Engine) (settings : List Setting) (name : String) :
    name ∈ (engine.configure settings).compiler.blockHelpers.names ↔
      (∃ helper, .addBlockHelper name helper ∈ settings) ∨
        name ∈ engine.compiler.blockHelpers.names := by
  simpa using configure_iff (P := fun engine => name ∈ engine.compiler.blockHelpers.names)
    (mem_blockHelpers_apply name) engine settings

theorem context_configure (engine : Engine) (settings : List Setting) :
    (engine.configure settings).compiler.context = engine.compiler.context := by
  induction settings generalizing engine with
  | nil => rfl
  | cons setting settings ih => exact (ih _).trans (by cases setting <;> rfl)

/-! ### The order of steps -/

/-- An engine with nothing registered at first, behind steps. -/
def ofSteps (context : String) (steps : List (List Setting)) : Engine :=
  (ofContext context).configure steps.flatten

/-- A keyword that is there already is added for nothing, at once or later. -/
theorem configure_addSection {engine : Engine} {block keyword : String} {settings : List Setting}
    (h : (engine.configure settings).dialect.isSectionKeyword block keyword = true) :
    (engine.apply (.addSection block keyword)).configure settings = engine.configure settings := by
  have hlast : (engine.apply (.addSection block keyword)).configure settings =
      (engine.configure settings).apply (.addSection block keyword) :=
    engine.configure_apply fun _ _ => nofun
  rw [hlast, apply, Dialect.addSection_eq_self h]

theorem ofSteps_eq_of_reorder (context : String) {steps steps' : List (List Setting)}
    (h : Reorder steps steps') : ofSteps context steps = ofSteps context steps' := by
  cases h with
  | swap before a b after h =>
    simp only [ofSteps, List.flatten_append, List.flatten_cons, configure_append]
    rw [configure_comm _ h]
  | again before block keyword after h =>
    have hknown := ((ofContext context).isSectionKeyword_configure _ block keyword).2 (.inl h)
    simp only [ofSteps, List.flatten_append, List.flatten_cons, configure_append] at hknown ⊢
    exact (configure_addSection hknown).symm

theorem ofSteps_eq_of_eqvGen (context : String) {steps steps' : List (List Setting)}
    (h : Relation.EqvGen Reorder steps steps') :
    ofSteps context steps = ofSteps context steps' := by
  induction h with
  | rel steps steps' h => exact ofSteps_eq_of_reorder context h
  | refl steps => rfl
  | symm steps steps' _ ih => exact ih.symm
  | trans steps steps' steps'' _ _ ih ih' => exact ih.trans ih'

/-- Whether `names` are those of what is registered, each once and in ascending order. -/
structure Lists (names : List String) (Registered : String → Prop) : Prop where
  ascending : names.Pairwise (· < ·)
  mem_iff : ∀ name, name ∈ names ↔ Registered name

theorem lists_helpers (context : String) (steps : List (List Setting)) :
    Lists (ofSteps context steps).compiler.helpers.names
      fun name => ∃ helper, .addHelper name helper ∈ steps.flatten where
  ascending := Registry.pairwise_names _
  mem_iff name := (mem_helpers_configure _ _ name).trans (or_iff_left nofun)

example :
    (ofSteps "params" [[.addHelper "show" (.alias "json")],
      ControlFlow.settings]).compiler.helpers.names = ["json", "show"] := by
  decide

theorem lists_blockHelpers (context : String) (steps : List (List Setting)) :
    Lists (ofSteps context steps).compiler.blockHelpers.names
      fun name => ∃ helper, .addBlockHelper name helper ∈ steps.flatten where
  ascending := Registry.pairwise_names _
  mem_iff name := (mem_blockHelpers_configure _ _ name).trans (or_iff_left nofun)

/-- However often neighbouring steps that write over different slots change places, and
keywords are added again, the engine stays the same, and so does its answer to any question.
The names that it shows are those of the helpers and the block helpers that were registered,
each once and in ascending order.  Each is in quotes, in brackets and behind a comma, so that the
text of another compiler is the same only if its context and all its names are. -/
theorem ofSteps_of_eqvGen (context : String) {steps steps' : List (List Setting)}
    (h : Relation.EqvGen Reorder steps steps') :
    ofSteps context steps = ofSteps context steps' ∧
      ∃ helpers blockHelpers : List String,
        Lists helpers (fun name => ∃ helper, .addHelper name helper ∈ steps.flatten) ∧
        Lists blockHelpers (fun name => ∃ helper, .addBlockHelper name helper ∈ steps.flatten) ∧
        (ofSteps context steps).compiler.summary =
          r"Compiler { config: CompilerConfig { context_name: " ++ Text.quoted context ++
            r" }, helpers: " ++ ("[" ++ ", ".intercalate (helpers.map Text.quoted) ++ "]") ++
            r", block_helpers: " ++
            ("[" ++ ", ".intercalate (blockHelpers.map Text.quoted) ++ "]") ++ r", .. }" ∧
        (ofSteps context steps).compiler.indentedSummary =
          r"Compiler {
    config: CompilerConfig {
        context_name: " ++ Text.quoted context ++ r",
    },
    helpers: " ++ (if helpers = [] then "[]" else "[\n" ++
              String.join (helpers.map fun name => "        " ++ Text.quoted name ++ ",\n") ++
              "    ]") ++ r",
    block_helpers: " ++ (if blockHelpers = [] then "[]" else "[\n" ++
              String.join (blockHelpers.map fun name => "        " ++ Text.quoted name ++ ",\n") ++
              "    ]") ++ r",
    ..
}" ∧
        ∀ compiler : Compiler,
          (compiler.summary = (ofSteps context steps).compiler.summary ↔
            compiler.context = context ∧ compiler.helpers.names = helpers ∧
              compiler.blockHelpers.names = blockHelpers) ∧
          (compiler.indentedSummary = (ofSteps context steps).compiler.indentedSummary ↔
            compiler.context = context ∧ compiler.helpers.names = helpers ∧
              compiler.blockHelpers.names = blockHelpers) := by
  have hcontext : (ofSteps context steps).compiler.context = context := context_configure _ _
  refine ⟨ofSteps_eq_of_eqvGen context h, _, _, lists_helpers context steps,
    lists_blockHelpers context steps, ?_, ?_, fun compiler => ⟨?_, ?_⟩⟩
  · unfold Compiler.summary Compiler.listOnLine
    rw [hcontext]
  · unfold Compiler.indentedSummary
    rw [hcontext, Compiler.listOnLines_eq, Compiler.listOnLines_eq]
  · rw [Compiler.summary_eq_iff, hcontext]
  · rw [Compiler.indentedSummary_eq_iff, hcontext]

/-- Control flow goes before a helper whose name cannot be printed as it stands, and one of its
keywords is added once more. -/
theorem ofSteps_of_eqvGen_controlFlow :
    Relation.EqvGen Reorder [[.addHelper "\"\t\u200b" (.alias "show")], ControlFlow.settings]
        [ControlFlow.settings, [.addSection "if" "else"],
          [.addHelper "\"\t\u200b" (.alias "show")]] ∧
      ofSteps "params" [[.addHelper "\"\t\u200b" (.alias "show")], ControlFlow.settings] =
        ofSteps "params"
          [ControlFlow.settings, [.addSection "if" "else"],
            [.addHelper "\"\t\u200b" (.alias "show")]] ∧
      (ofSteps "params" [[.addHelper "\"\t\u200b" (.alias "show")],
          ControlFlow.settings]).compiler.summary =
        r#"Compiler { config: CompilerConfig { context_name: "params" }, "# ++
          r#"helpers: ["\"\t\u{200b}", "json"], block_helpers: ["each", "if", "switch"], .. }"# ∧
      (ofSteps "params" [[.addHelper "\"\t\u200b" (.alias "show")],
          ControlFlow.settings]).compiler.indentedSummary =
        r#"Compiler {
    config: CompilerConfig {
        context_name: "params",
    },
    helpers: [
        "\"\t\u{200b}",
        "json",
    ],
    block_helpers: [
        "each",
        "if",
        "switch",
    ],
    ..
}"# := by
  have hswap := Reorder.swap [] [.addHelper "\"\t\u200b" (.alias "show")] ControlFlow.settings []
    (by simp [slots, Setting.slot?, ControlFlow.settings])
  have hagain := Reorder.again [ControlFlow.settings] "if" "else"
    [[.addHelper "\"\t\u200b" (.alias "show")]] List.mem_cons_self
  have h := Relation.EqvGen.trans _ _ _ (.rel _ _ hswap) (.rel _ _ hagain)
  obtain ⟨hengine, helpers, blockHelpers, -, -, hsummary, hindented, hread⟩ :=
    ofSteps_of_eqvGen "params" h
  -- The names are those of the engine itself.
  obtain ⟨-, rfl, rfl⟩ := (hread _).1.mp rfl
  refine ⟨h, hengine, hsummary.trans ?_, hindented.trans ?_⟩
  · decide +kernel
  · decide +kernel

end Engine

end Stencil
