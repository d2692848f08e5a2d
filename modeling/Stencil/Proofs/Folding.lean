/-
Sources without tags.

A source without `{{` is a single text, or empty, and so is its template.  A source with a `{{`
has a tag there, and its template, if it has one, is more than a text.

* `Template.ofSource_of_plain` — a source without `{{` has a template, in every dialect;
* `Template.plain_of_constant?` — and only such a source has a constant one;
* `Engine.process_plain` — so only such a source is written as a constant.
-/
import Mathlib
import Stencil.Engine
import Stencil.Proofs.Grammar.Derived
import Stencil.Proofs.Splice

namespace Stencil

/-! ### The template of a text -/

/-- The template that is nothing but a text. -/
def Template.ofText (text : String) : Template :=
  if text = "" then {} else ⟨[.text text]⟩

theorem Template.constant?_ofText (text : String) :
    (Template.ofText text).constant? = some text := by
  by_cases h : text = ""
  · rw [ofText, if_pos h, h]
    rfl
  · rw [ofText, if_neg h]
    rfl

/-- The code of a text is the same whether it is written as an item or as a constant. -/
theorem Compiler.codeOfItems_ofText (compiler : Compiler) (text : String) :
    compiler.codeOfItems (Template.ofText text).items = .ok (Text.jsonString text) := by
  by_cases h : text = ""
  · rw [Template.ofText, if_pos h, h]
    rfl
  · rw [Template.ofText, if_neg h]
    rfl

/-! ### Sources -/

/-- A source without `{{` is one piece. -/
theorem cut_of_plain {cs : List Char} (hne : cs ≠ []) (h : ¬openBraces <:+: cs) :
    Cut .text 0 cs [⟨[], cs, ⟨.text (String.ofList cs), 0⟩⟩] [] := by
  have hspelled : (Lexeme.text (String.ofList cs)).Spelled cs [] :=
    ⟨String.toList_ofList.symm, hne, h, .inl rfl⟩
  have hcut := @Cut.cons .text 0 [] cs [] [] _ [] nofun (fun _ => rfl) rfl hspelled
    (.nil nofun fun _ => rfl)
  rwa [List.append_nil] at hcut

namespace Grammar

variable {keyword : String → String → Bool} {block? : Option String} {ls : List Lexeme}

/-- Only no lexemes at all derive no items. -/
theorem Items.lexemes_eq_nil (h : Items keyword block? ls []) : ls = [] := by
  cases h
  rfl

/-- A text is derived by its own lexeme only. -/
theorem OneItem.lexemes_eq_text {c : String} (h : OneItem keyword block? ls (.text c)) :
    ls = [.text c] := by
  cases h with
  | text => rfl
  | tag htag _ => cases htag

theorem Items.lexemes_eq_text {c : String} (h : Items keyword block? ls [.text c]) :
    ls = [.text c] := by
  cases h with
  | cons hitem hrest => rw [hitem.lexemes_eq_text, hrest.lexemes_eq_nil, List.append_nil]

end Grammar

namespace Template

variable {dialect : Dialect} {source : String} {template : Template}

/-- A source without `{{` is its own template. -/
theorem ofSource_of_plain (dialect : Dialect) (h : ¬openBraces <:+: source.toList) :
    ofSource dialect source = .ok (ofText source) := by
  refine Grammar.ofSource_eq_ok_iff_ofTokens.mpr ?_
  by_cases hempty : source = ""
  · have htokens : (Scanner.ofSource source).tokens = [] := by
      have hcut : Cut .text 0 [] [] [] := .nil nofun fun _ => rfl
      rw [hempty]
      exact hcut.tokens_eq
    rw [htokens, ofText, if_pos hempty]
    rfl
  · have hne : source.toList ≠ [] := fun hnil => hempty (String.toList_eq_nil_iff.mp hnil)
    have htokens : (Scanner.ofSource source).tokens = [⟨.text source, 0⟩] := by
      have htokens := (cut_of_plain hne h).tokens_eq
      rwa [String.ofList_toList] at htokens
    rw [htokens, ofText, if_neg hempty]
    rfl

/-- A source with a constant template has no `{{`, and the template is the source itself. -/
theorem plain_of_constant? {text : String} (h : ofSource dialect source = .ok template)
    (hconstant : template.constant? = some text) :
    ¬openBraces <:+: source.toList ∧ text = source := by
  obtain ⟨pieces, trail, hcut, htokens⟩ := (Scanner.ofSource source).cut_tokens
  obtain ⟨hderives, -⟩ := Grammar.ofTokens_eq_ok_iff.mp (Grammar.ofSource_eq_ok_iff_ofTokens.mp h)
  have hsource : source.toList = Piece.join pieces ++ trail := hcut.eq_join
  rw [← htokens, List.map_map, Grammar.Derives] at hderives
  rcases constant?_eq_some_iff.mp hconstant with ⟨hitems, rfl⟩ | hitems
  · rw [hitems] at hderives
    obtain rfl := List.map_eq_nil_iff.mp hderives.lexemes_eq_nil
    obtain rfl : trail = [] := hcut.trail.2 rfl
    obtain rfl := String.toList_eq_nil_iff.mp hsource
    exact ⟨by decide, rfl⟩
  · rw [hitems] at hderives
    obtain ⟨p, rfl, hp⟩ := List.map_eq_singleton_iff.mp hderives.lexemes_eq_text
    obtain ⟨-, hgap, -, hspelled, -⟩ := hcut.head
    have htext : p.lexeme = .text text := hp
    -- Outside of tags nothing is skipped, so the text is all there is.
    obtain rfl : trail = [] := by
      refine hcut.trail.2 ?_
      rw [List.map_singleton, htext]
      rfl
    rw [htext] at hspelled
    obtain ⟨hspelling, -, hclear, -⟩ := hspelled
    have hall : source.toList = text.toList := by
      rw [hsource, Piece.join_cons, hgap rfl, hspelling]
      simp [Piece.join]
    rw [hall, ← hspelling]
    exact ⟨hclear, String.toList_injective hall.symm⟩

end Template

/-! ### Code -/

namespace Engine

/-- A template with tags is written as a function of the context. -/
theorem compile_of_constant?_eq_none (engine : Engine) {template : Template}
    (h : template.constant? = none) :
    engine.compile template =
      ((engine.compiler.codeOfItems template.items).map
        (Code.function engine.compiler.context)).mapError .uncompilable := by
  rw [compile, Compiler.compile, h]
  cases engine.compiler.codeOfItems template.items with
  | error e => rfl
  | ok body => rfl

/-- A source is written as a constant exactly if it has no `{{`, and then by the engine's own way to
write constants, which by default returns the code of the items too.  Any other source that has a
template is a function that returns the code of its items, whatever way that is. -/
theorem process_plain (engine : Engine) (source : String) :
    (¬openBraces <:+: source.toList →
      ∃ template, engine.parse source = .ok template ∧ template.constant? = some source ∧
        engine.process source = .ok (engine.compiler.constant source) ∧
        (engine.compiler.constant = Code.constant →
          ∃ body, engine.compiler.codeOfItems template.items = .ok body ∧
            engine.process source = .ok (Code.function "" body))) ∧
    (openBraces <:+: source.toList → ∀ template, engine.parse source = .ok template →
      template.constant? = none ∧
        engine.process source =
          ((engine.compiler.codeOfItems template.items).map
            (Code.function engine.compiler.context)).mapError .uncompilable) := by
  constructor
  · intro hplain
    have hparse : engine.parse source = .ok (.ofText source) :=
      parse_eq_ok_iff.mpr (Template.ofSource_of_plain engine.dialect hplain)
    have hconstant := Template.constant?_ofText source
    have hprocess : engine.process source = .ok (engine.compiler.constant source) := by
      rw [process_of_parse hparse, compile, Compiler.compile, hconstant]
      rfl
    refine ⟨.ofText source, hparse, hconstant, hprocess, fun hdefault => ?_⟩
    refine ⟨_, engine.compiler.codeOfItems_ofText source, ?_⟩
    rw [hprocess, hdefault]
    rfl
  · intro hbraces template hparse
    have hnone : template.constant? = none := by
      refine Option.eq_none_iff_forall_not_mem.mpr fun text htext => ?_
      exact (Template.plain_of_constant? (parse_eq_ok_iff.mp hparse) htext).1 hbraces
    exact ⟨hnone, (process_of_parse hparse).trans (engine.compile_of_constant?_eq_none hnone)⟩

/-- Braces alone make no tag. -/
example : ((Engine.ofContext "c").apply (.setMaxDepth 0)).process r"a }} b {" =
    .ok r#"function(){return "a }} b {";}"# := by
  cbv

end Engine

end Stencil
