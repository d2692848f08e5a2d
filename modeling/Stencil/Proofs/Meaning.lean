/-
What code means.

`Code.Means context code text` says that the characters of `code` can be read by the grammar as
an expression whose value in every world is the text that `text` gives there.  Each way to put
code together goes with one to put texts together: a `+` (`means_append`), a choice by a
condition (`means_choice`) and a choice by an equality (`means_equals`).  The code of a value is
an atom with that value (`Value.atomMeans_code`).
-/
import Stencil.Code
import Stencil.Proofs.Rendering
import Stencil.Proofs.WellFormed

namespace Stencil

namespace Code

/-! ### Meaning of code -/

/-- The expression of the atoms of both. -/
def Expr.append : Expr → Expr → Expr
  | .single atom, f => .plus atom f
  | .plus atom rest, f => .plus atom (rest.append f)

variable {context : String}

theorem Expr.Spelled.append {f : Expr} {ds : List Char} (hf : f.Spelled context ds) :
    ∀ {e : Expr} {cs : List Char}, e.Spelled context cs →
      (e.append f).Spelled context (cs ++ '+' :: ds)
  | .single _, _, he => by
    cases he with
    | single h => exact .plus h hf
  | .plus _ _, _, he => by
    cases he with
    | plus h hrest =>
      rw [List.append_assoc]
      exact .plus h (Expr.Spelled.append hf hrest)

theorem Expr.eval_append (w : World) (f : Expr) : ∀ e : Expr,
    (e.append f).eval w = w.ofText (w.toText (e.eval w) ++ w.toText (f.eval w))
  | .single _ => rfl
  | .plus atom rest => by
    rw [Expr.append, Expr.eval, Expr.eval_append w f rest, Expr.eval, w.toText_ofText,
      w.toText_ofText, String.append_assoc]

/-- Whether the code is an atom with that value in every world. -/
def AtomMeans (context code : String) (value : (w : World) → w.Datum) : Prop :=
  ∃ a : Atom, a.Spelled context code.toList ∧ ∀ w, a.eval w = value w

/-- Whether the code is an expression that stands for that text in every world. -/
def Means (context code : String) (text : World → String) : Prop :=
  ∃ e : Expr, e.Spelled context code.toList ∧ ∀ w, e.eval w = w.ofText (text w)

theorem AtomMeans.means {code : String} {value : (w : World) → w.Datum} {text : World → String}
    (h : AtomMeans context code value) (hvalue : ∀ w, value w = w.ofText (text w)) :
    Means context code text := by
  obtain ⟨a, hspelled, heval⟩ := h
  exact ⟨.single a, .single hspelled, fun w => (heval w).trans (hvalue w)⟩

theorem atomMeans_jsonString (text : String) :
    AtomMeans context (Text.jsonString text) fun w => w.ofText text :=
  ⟨.literal text, .literal (Text.jsonLiteral_jsonString text), fun _ => rfl⟩

theorem atomMeans_field {name : String} (hname : isName name.toList = true) :
    AtomMeans context (field context name) fun w => w.ofText (w.lookup name) := by
  refine ⟨.field name, ?_, fun _ => rfl⟩
  have hcode : (field context name).toList = context.toList ++ '.' :: name.toList := by
    simp [field]
  exact hcode ▸ .field hname

theorem means_append {code code' : String} {text text' : World → String}
    (h : Means context code text) (h' : Means context code' text') :
    Means context (code ++ "+" ++ code') fun w => text w ++ text' w := by
  obtain ⟨e, he, heval⟩ := h
  obtain ⟨f, hf, heval'⟩ := h'
  refine ⟨e.append f, ?_, fun w => ?_⟩
  · have hcode : (code ++ "+" ++ code').toList = code.toList ++ '+' :: code'.toList := by simp
    exact hcode ▸ hf.append he
  · rw [Expr.eval_append, heval, heval', w.toText_ofText, w.toText_ofText]

theorem means_choice {condition yes no : String} {value : (w : World) → w.Datum}
    {text text' : World → String} (hcondition : AtomMeans context condition value)
    (hyes : Means context yes text) (hno : Means context no text') :
    Means context ("(" ++ condition ++ "?" ++ yes ++ ":" ++ no ++ ")")
      fun w => if w.truthy (value w) then text w else text' w := by
  obtain ⟨a, ha, hvalue⟩ := hcondition
  obtain ⟨e, he, htext⟩ := hyes
  obtain ⟨f, hf, htext'⟩ := hno
  refine ⟨.single (.choice a e f), ?_, fun w => ?_⟩
  · have hcode : ("(" ++ condition ++ "?" ++ yes ++ ":" ++ no ++ ")").toList =
        '(' :: (condition.toList ++ '?' :: (yes.toList ++ ':' :: (no.toList ++ [')']))) := by
      simp
    exact hcode ▸ .single (.choice ha he hf)
  · rw [Expr.eval, Atom.eval, hvalue, htext, htext', apply_ite w.ofText]

theorem means_equals {left right yes no : String} {value value' : (w : World) → w.Datum}
    {text text' : World → String} (hleft : AtomMeans context left value)
    (hright : AtomMeans context right value') (hyes : Means context yes text)
    (hno : Means context no text') :
    Means context ("(" ++ left ++ "==" ++ right ++ "?" ++ yes ++ ":" ++ no ++ ")")
      fun w => if w.truthy (w.compare .eq (value w) (value' w)) then text w else text' w := by
  obtain ⟨a, ha, hvalue⟩ := hleft
  obtain ⟨b, hb, hvalue'⟩ := hright
  obtain ⟨e, he, htext⟩ := hyes
  obtain ⟨f, hf, htext'⟩ := hno
  refine ⟨.single (.equals a b e f), ?_, fun w => ?_⟩
  · have hcode : ("(" ++ left ++ "==" ++ right ++ "?" ++ yes ++ ":" ++ no ++ ")").toList =
        '(' :: (left.toList ++ '=' :: '=' :: (right.toList ++ '?' :: (yes.toList ++ ':' ::
          (no.toList ++ [')'])))) := by
      simp
    exact hcode ▸ .single (.equals ha hb he hf)
  · rw [Expr.eval, Atom.eval, hvalue, hvalue', htext, htext', apply_ite w.ofText]

end Code

open Code

variable {context : String}

/-- The code of a value is an atom with the value of that value. -/
theorem Value.StandsLeft.atomMeans : ∀ {v : Value}, v.StandsLeft →
    AtomMeans context (v.code context) fun w => v.eval w
  | .variable _, h => atomMeans_field h
  | .string text, _ => atomMeans_jsonString text
  | .number digits, h => ⟨.number digits, .number h, fun _ => rfl⟩

theorem Value.StandsRight.atomMeans : ∀ {v : Value}, v.StandsRight →
    AtomMeans context (v.code context) fun w => v.eval w
  | .variable _, h => atomMeans_field h
  | .string text, _ => atomMeans_jsonString text

theorem Value.atomMeans_code {v : Value} (h : v.WellFormed) :
    AtomMeans context (v.code context) fun w => v.eval w := by
  cases v with
  | comparison op left right =>
    obtain ⟨a, ha, hleft⟩ : AtomMeans context (left.code context) _ := h.1.atomMeans
    obtain ⟨b, hb, hright⟩ : AtomMeans context (right.code context) _ := h.2.atomMeans
    refine ⟨.comparison op a b, ?_, fun w => ?_⟩
    · have hcode : ((Value.comparison op left right).code context).toList =
          '(' :: ((left.code context).toList ++
            (op.symbol.toList ++ ((right.code context).toList ++ [')']))) := by
        simp [Value.code]
      exact hcode ▸ .comparison op ha hb
    · rw [Atom.eval, hleft, hright]
      rfl
  | _ => exact Value.StandsLeft.atomMeans h

end Stencil
