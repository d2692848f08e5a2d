/-
Code is read back.

The code of a value spells an atom that tells the value (`Value.toAtom`), and the code of values
in a row spells their atoms joined by `+` (`Code.Expr.sum`).  Since characters stand for one
expression at most, the values can be read back from their code, however deep comparisons nest.
A text and the same text in quotes have the same code, so items are read back up to that
(`Item.asExpression`).

* `Compiler.asExpression_eq` — items that no helper writes are read back from their code;
* `Engine.code_unambiguous` — and so are the templates of sources from theirs.
-/
import Mathlib
import Stencil.Engine
import Stencil.Proofs.Meaning.Preserved

namespace Stencil

variable {context : String}

/-! ### Values -/

namespace Value

/-- Whether names and numbers are spelled as such, however deep comparisons nest. -/
def Legible : Value → Prop
  | .variable name => isName name.toList = true
  | .string _ => True
  | .number digits => isNumber digits.toList = true
  | .comparison _ left right => left.Legible ∧ right.Legible

/-- The atom that the code of a value spells. -/
def toAtom : Value → Code.Atom
  | .variable name => .field name
  | .string text => .literal text
  | .number digits => .number digits
  | .comparison op left right => .comparison op left.toAtom right.toAtom

theorem eq_of_toAtom_eq : ∀ {v w : Value}, v.toAtom = w.toAtom → v = w
  | .variable _, .variable _, h => congrArg _ (Code.Atom.field.inj h)
  | .string _, .string _, h => congrArg _ (Code.Atom.literal.inj h)
  | .number _, .number _, h => congrArg _ (Code.Atom.number.inj h)
  | .comparison .., .comparison .., h => by
    obtain ⟨rfl, hleft, hright⟩ := Code.Atom.comparison.inj h
    rw [eq_of_toAtom_eq hleft, eq_of_toAtom_eq hright]

/-- The code of a value spells its atom. -/
theorem Legible.spelled : ∀ {v : Value}, v.Legible →
    v.toAtom.Spelled context (v.code context).toList
  | .variable name, h => by
    have hcode : ((Value.variable name).code context).toList =
        context.toList ++ '.' :: name.toList := by
      simp [code, Code.field]
    exact hcode ▸ .field h
  | .string text, _ => .literal (Text.jsonLiteral_jsonString text)
  | .number _, h => .number h
  | .comparison op left right, ⟨hleft, hright⟩ => by
    have hcode : ((Value.comparison op left right).code context).toList =
        '(' :: ((left.code context).toList ++
          (op.symbol.toList ++ ((right.code context).toList ++ [')']))) := by
      simp [code]
    exact hcode ▸ .comparison op hleft.spelled hright.spelled

theorem StandsLeft.legible : ∀ {v : Value}, v.StandsLeft → v.Legible
  | .variable _, h => h
  | .string _, h => h
  | .number _, h => h

theorem StandsRight.legible : ∀ {v : Value}, v.StandsRight → v.Legible
  | .variable _, h => h
  | .string _, h => h

theorem WellFormed.legible {v : Value} (h : v.WellFormed) : v.Legible := by
  cases v with
  | comparison => exact ⟨h.1.legible, h.2.legible⟩
  | _ => exact StandsLeft.legible h

end Value

/-! ### Values in a row -/

namespace Code

/-- Atoms joined by `+`. -/
def Expr.sum (first : Atom) : List Atom → Expr
  | [] => .single first
  | next :: rest => .plus first (sum next rest)

theorem Expr.eq_of_sum_eq : ∀ {as bs : List Atom} {a b : Atom},
    Expr.sum a as = Expr.sum b bs → a :: as = b :: bs
  | [], [], _, _, h => congrArg (· :: []) (Expr.single.inj h)
  | _ :: _, _ :: _, _, _, h => by
    obtain ⟨rfl, hrest⟩ := Expr.plus.inj h
    rw [eq_of_sum_eq hrest]

/-- The code of values in a row spells the sum of their atoms. -/
theorem spelled_sum : ∀ {v : Value} {values : List Value}, v.Legible →
    (∀ w ∈ values, w.Legible) →
    (Expr.sum v.toAtom (values.map Value.toAtom)).Spelled context
      (concat ((v :: values).map (Value.code context))).toList
  | v, [], hv, _ => by
    have hcode : concat ([v].map (Value.code context)) = v.code context := by
      simp [concat]
    exact hcode ▸ .single hv.spelled
  | v, w :: values, hv, hvalues => by
    obtain ⟨hw, hrest⟩ := List.forall_mem_cons.mp hvalues
    have hcode : (concat ((v :: w :: values).map (Value.code context))).toList =
        (v.code context).toList ++
          '+' :: (concat ((w :: values).map (Value.code context))).toList := by
      simp [concat]
    exact hcode ▸ .plus hv.spelled (spelled_sum hw hrest)

/-- Values are read back from their code. -/
theorem eq_of_concat_eq (hcontext : isName context.toList = true) {vs ws : List Value}
    (hvs : vs ≠ []) (hws : ws ≠ []) (hlegible : ∀ v ∈ vs, v.Legible)
    (hlegible' : ∀ w ∈ ws, w.Legible)
    (h : concat (vs.map (Value.code context)) = concat (ws.map (Value.code context))) :
    vs = ws := by
  obtain ⟨v, vs, rfl⟩ := List.exists_cons_of_ne_nil hvs
  obtain ⟨w, ws, rfl⟩ := List.exists_cons_of_ne_nil hws
  obtain ⟨hv, hvs⟩ := List.forall_mem_cons.mp hlegible
  obtain ⟨hw, hws⟩ := List.forall_mem_cons.mp hlegible'
  have hsum := (spelled_sum hv hvs).eq_of_spelled hcontext (h ▸ spelled_sum hw hws)
  have hatoms : (v :: vs).map Value.toAtom = (w :: ws).map Value.toAtom :=
    Expr.eq_of_sum_eq hsum
  exact List.map_injective_iff.mpr (fun _ _ => Value.eq_of_toAtom_eq) hatoms

/-! ### Functions -/

/-- A function tells its body. -/
theorem eq_of_function_eq {parameter body body' : String}
    (h : function parameter body = function parameter body') : body = body' := by
  simp only [function, ← String.toList_inj, String.toList_append] at h ⊢
  exact List.append_cancel_left (List.append_cancel_right h)

/-- A function of a context is told from one without a parameter. -/
theorem function_ne (hcontext : isName context.toList = true) (body body' : String) :
    function context body ≠ function "" body' := by
  intro h
  simp only [function, ← String.toList_inj, String.toList_append, List.append_assoc] at h
  have hhead := List.append_cancel_left h
  cases hchars : context.toList with
  | nil =>
    rw [hchars] at hcontext
    cases hcontext
  | cons c cs =>
    rw [hchars] at hcontext hhead
    obtain rfl : c = ')' := (List.cons.inj hhead).1
    cases hcontext

end Code

theorem Text.eq_of_jsonString_eq {a b : String} (h : jsonString a = jsonString b) : a = b := by
  have hliteral := jsonLiteral_jsonString a
  rw [h] at hliteral
  have hsame : (jsonString b).toList ++ [] = (jsonString b).toList ++ [] := rfl
  exact String.toList_inj.mp (hliteral.unique (jsonLiteral_jsonString b) hsame).1

/-! ### Items -/

namespace Item

/-- The item, or an expression that is the same text in quotes. -/
def asExpression : Item → Item
  | .text content => .expression (.string content)
  | item => item

/-- Whether no helper writes the item. -/
def isPrinted : Item → Bool
  | .text _ | .expression _ => true
  | .call _ | .block _ => false

/-- Whether no helper writes the item, and its value can be read back. -/
def Legible : Item → Prop
  | .text _ => True
  | .expression value => value.Legible
  | .call _ | .block _ => False

theorem Legible.exists_value (compiler : Compiler) : ∀ {item : Item}, item.Legible →
    ∃ v : Value, v.Legible ∧ item.asExpression = .expression v ∧
      compiler.codeOfItem item = .ok (v.code compiler.context)
  | .text content, _ => ⟨.string content, trivial, rfl, rfl⟩
  | .expression value, h => ⟨value, h, rfl, rfl⟩

/-- The code of items is that of values. -/
theorem exists_values (compiler : Compiler) : ∀ {items : List Item},
    (∀ item ∈ items, item.Legible) →
    ∃ values : List Value, (∀ v ∈ values, v.Legible) ∧
      items.map asExpression = values.map Item.expression ∧
      compiler.fragments items = .ok (values.map (Value.code compiler.context))
  | [], _ => ⟨[], nofun, rfl, rfl⟩
  | item :: items, h => by
    obtain ⟨hitem, hitems⟩ := List.forall_mem_cons.mp h
    obtain ⟨v, hv, hexpression, hcode⟩ := hitem.exists_value compiler
    obtain ⟨values, hvalues, hexpressions, hcodes⟩ := exists_values compiler hitems
    refine ⟨v :: values, List.forall_mem_cons.mpr ⟨hv, hvalues⟩, ?_, ?_⟩
    · rw [List.map_cons, List.map_cons, hexpression, hexpressions]
    · rw [Compiler.fragments, hcode, hcodes]
      rfl

variable {keyword : String → String → Bool}

/-- Well-formed items that no helper writes can be read back. -/
theorem legible_of_wellFormed : ∀ {block? : Option String} {items : List Item},
    ListWellFormed keyword block? items → (∀ item ∈ items, item.isPrinted = true) →
    ∀ item ∈ items, item.Legible
  | _, [], _, _ => nofun
  | _, item :: items, ⟨⟨hitem, _⟩, hitems⟩, hprinted => by
    obtain ⟨hfirst, hrest⟩ := List.forall_mem_cons.mp hprinted
    refine List.forall_mem_cons.mpr ⟨?_, legible_of_wellFormed hitems hrest⟩
    cases item with
    | text => trivial
    | expression => exact Value.WellFormed.legible hitem
    | call => cases hfirst
    | block => cases hfirst

end Item

/-- Items that no helper writes are read back from their code. -/
theorem Compiler.asExpression_eq {compiler : Compiler}
    (hcontext : isName compiler.context.toList = true) {xs ys : List Item} (hxs : xs ≠ [])
    (hys : ys ≠ []) (hlegible : ∀ item ∈ xs, item.Legible)
    (hlegible' : ∀ item ∈ ys, item.Legible)
    (h : compiler.codeOfItems xs = compiler.codeOfItems ys) :
    xs.map Item.asExpression = ys.map Item.asExpression := by
  obtain ⟨vs, hvs, hexpressions, hcodes⟩ := Item.exists_values compiler hlegible
  obtain ⟨ws, hws, hexpressions', hcodes'⟩ := Item.exists_values compiler hlegible'
  rw [codeOfItems, codeOfItems, hcodes, hcodes'] at h
  -- There are as many values as items.
  have hne : vs ≠ [] := by
    rintro rfl
    exact hxs (List.map_eq_nil_iff.mp hexpressions)
  have hne' : ws ≠ [] := by
    rintro rfl
    exact hys (List.map_eq_nil_iff.mp hexpressions')
  rw [hexpressions, hexpressions',
    Code.eq_of_concat_eq hcontext hne hne' hvs hws (Except.ok.inj h)]

/-! ### Templates -/

namespace Compiler

variable {compiler : Compiler} {template more : Template} {code : String}

/-- A template is written as a constant, or as a function of the context. -/
theorem compile_eq_ok_iff : compiler.compile template = .ok code ↔
    (∃ text, template.constant? = some text ∧ code = compiler.constant text) ∨
    template.constant? = none ∧ ∃ body, compiler.codeOfItems template.items = .ok body ∧
      code = Code.function compiler.context body := by
  rw [compile]
  cases template.constant? with
  | some text =>
    constructor
    · intro h
      exact .inl ⟨text, rfl, (Except.ok.inj h).symm⟩
    · rintro (⟨_, ⟨⟩, rfl⟩ | ⟨⟨⟩, _⟩)
      rfl
  | none =>
    constructor
    · intro h
      obtain ⟨body, hbody, h⟩ := bind_eq_ok.mp h
      exact .inr ⟨rfl, body, hbody, (Except.ok.inj h).symm⟩
    · rintro (⟨_, ⟨⟩, _⟩ | ⟨-, body, hbody, rfl⟩)
      exact bind_eq_ok.mpr ⟨body, hbody, rfl⟩

end Compiler

/-- Constant templates of sources have the same items if they have the same text. -/
theorem Template.items_eq_of_constant?_eq {dialect dialect' : Dialect} {template more : Template}
    {text : String} (hwell : template.WellFormed dialect) (hwell' : more.WellFormed dialect')
    (h : template.constant? = some text) (h' : more.constant? = some text) :
    template.items = more.items := by
  -- The text of an item is not empty.
  have hne : ∀ {t : Template} {d : Dialect}, t.WellFormed d → t.items ≠ [.text ""] := by
    intro t d ht hitems
    rw [WellFormed, hitems] at ht
    exact ht.1.1.1.1 rfl
  rcases constant?_eq_some_iff.mp h with ⟨hitems, rfl⟩ | hitems
  · rcases constant?_eq_some_iff.mp h' with ⟨hitems', -⟩ | hitems'
    · rw [hitems, hitems']
    · exact absurd hitems' (hne hwell')
  · rcases constant?_eq_some_iff.mp h' with ⟨-, rfl⟩ | hitems'
    · exact absurd hitems (hne hwell)
    · rw [hitems, hitems']

namespace Engine

variable {engine : Engine} {source : String} {template more : Template} {code : String}

theorem wellFormed_of_parse (h : engine.parse source = .ok template) :
    template.WellFormed engine.dialect :=
  Template.wellFormed_of_ofSource (parse_eq_ok_iff.mp h)

theorem compile_of_process (hparse : engine.parse source = .ok template)
    (h : engine.process source = .ok code) : engine.compiler.compile template = .ok code := by
  rw [process_of_parse hparse] at h
  exact mapError_eq_ok.mp h

/-- Well-formed templates that no helper writes are read back from their code. -/
theorem asExpression_eq_of_compile (hcontext : isName engine.compiler.context.toList = true)
    (hconstant : engine.compiler.constant = Code.constant)
    (hwell : template.WellFormed engine.dialect) (hwell' : more.WellFormed engine.dialect)
    (hprinted : ∀ item ∈ template.items, item.isPrinted = true)
    (hprinted' : ∀ item ∈ more.items, item.isPrinted = true)
    (h : engine.compiler.compile template = .ok code)
    (h' : engine.compiler.compile more = .ok code) :
    template.items.map Item.asExpression = more.items.map Item.asExpression := by
  have hne : ∀ {t : Template}, t.constant? = none → t.items ≠ [] := by
    intro t ht hitems
    rw [Template.constant?, hitems] at ht
    cases ht
  rw [Compiler.compile_eq_ok_iff, hconstant] at h h'
  rcases h with ⟨text, htext, rfl⟩ | ⟨hnone, body, hbody, rfl⟩
  · rcases h' with ⟨text', htext', hcode⟩ | ⟨_, _, _, hcode⟩
    · obtain rfl := Text.eq_of_jsonString_eq (Code.eq_of_function_eq hcode)
      rw [Template.items_eq_of_constant?_eq hwell hwell' htext htext']
    · exact absurd hcode.symm (Code.function_ne hcontext _ _)
  · rcases h' with ⟨_, _, hcode⟩ | ⟨hnone', body', hbody', hcode⟩
    · exact absurd hcode (Code.function_ne hcontext _ _)
    · obtain rfl := Code.eq_of_function_eq hcode
      exact Compiler.asExpression_eq hcontext (hne hnone) (hne hnone')
        (Item.legible_of_wellFormed hwell.1 hprinted)
        (Item.legible_of_wellFormed hwell'.1 hprinted') (hbody.trans hbody'.symm)

/-- Items that no helper writes are the same up to quotes if their code is, and so are the
templates of sources. -/
theorem code_unambiguous (hcontext : isName engine.compiler.context.toList = true) :
    (∀ xs ys : List Item, xs ≠ [] → ys ≠ [] → (∀ item ∈ xs, item.Legible) →
      (∀ item ∈ ys, item.Legible) →
      engine.compiler.codeOfItems xs = engine.compiler.codeOfItems ys →
      xs.map Item.asExpression = ys.map Item.asExpression) ∧
    (engine.compiler.constant = Code.constant →
      ∀ (s t : String) (template more : Template) (code : String),
      engine.parse s = .ok template → engine.parse t = .ok more →
      (∀ item ∈ template.items, item.isPrinted = true) →
      (∀ item ∈ more.items, item.isPrinted = true) →
      engine.process s = .ok code → engine.process t = .ok code →
      template.items.map Item.asExpression = more.items.map Item.asExpression) := by
  constructor
  · intro xs ys hxs hys hlegible hlegible' h
    exact Compiler.asExpression_eq hcontext hxs hys hlegible hlegible' h
  · intro hconstant s t template more code hparse hparse' hprinted hprinted' h h'
    exact asExpression_eq_of_compile hcontext hconstant (wellFormed_of_parse hparse)
      (wellFormed_of_parse hparse') hprinted hprinted' (compile_of_process hparse h)
      (compile_of_process hparse' h')

/-- Text and the same text in quotes: the code is the same, and so are the items up to that. -/
theorem code_unambiguous_quoted :
    (Engine.ofContext "c").compiler.codeOfItems
        [.text "+", .expression (.comparison .gtEq (.variable "c")
          (.comparison .gt (.number "1") (.string ")")))] =
      .ok "\"+\"+(c.c>=(1>\")\"))" ∧
    [Item.text "+", .expression (.comparison .gtEq (.variable "c")
        (.comparison .gt (.number "1") (.string ")")))].map Item.asExpression =
      [Item.expression (.string "+"), .expression (.comparison .gtEq (.variable "c")
        (.comparison .gt (.number "1") (.string ")")))].map Item.asExpression ∧
    (Engine.ofContext "c").process "a{{b}}" =
      (Engine.ofContext "c").process r#"{{"a"}}{{b}}"# ∧
    [Item.text "a", .expression (.variable "b")].map Item.asExpression =
      [Item.expression (.string "a"), .expression (.variable "b")].map Item.asExpression := by
  have hcontext : isName (Engine.ofContext "c").compiler.context.toList = true := by decide
  have hparse : (Engine.ofContext "c").parse "a{{b}}" =
      .ok ⟨[.text "a", .expression (.variable "b")]⟩ := by
    cbv
  have hparse' : (Engine.ofContext "c").parse r#"{{"a"}}{{b}}"# =
      .ok ⟨[.expression (.string "a"), .expression (.variable "b")]⟩ := by
    cbv
  have hprocess : (Engine.ofContext "c").process "a{{b}}" =
      .ok r#"function(c){return "a"+c.b;}"# := by
    cbv
  have hprocess' : (Engine.ofContext "c").process r#"{{"a"}}{{b}}"# =
      .ok r#"function(c){return "a"+c.b;}"# := by
    cbv
  have hlegible : (Value.comparison .gtEq (.variable "c")
      (.comparison .gt (.number "1") (.string ")"))).Legible := by
    have hname : isName "c".toList = true := by decide
    have hnumber : isNumber "1".toList = true := by decide
    exact ⟨hname, hnumber, trivial⟩
  obtain ⟨hitems, htemplates⟩ := code_unambiguous hcontext
  refine ⟨by cbv, ?_, hprocess.trans hprocess'.symm, ?_⟩
  · refine hitems _ _ (List.cons_ne_nil _ _) (List.cons_ne_nil _ _) ?_ ?_ (by cbv)
    · exact List.forall_mem_cons.mpr ⟨trivial, List.forall_mem_singleton.mpr hlegible⟩
    · exact List.forall_mem_cons.mpr ⟨trivial, List.forall_mem_singleton.mpr hlegible⟩
  · exact htemplates rfl _ _ _ _ _ hparse hparse' (by decide) (by decide) hprocess hprocess'

end Engine

end Stencil
