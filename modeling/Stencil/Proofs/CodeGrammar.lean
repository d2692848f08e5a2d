/-
The grammar of the code for texts, values and choices.

  E = A ('+' A)*
  A = JSON string literal | c.name | digits
    | (A op A) | (A?E:E) | (A==A?E:E)

`Atom.Spelled` and `Expr.Spelled` say which characters stand for such code.  Parentheses and the
maximal runs of names and numbers leave one reading only: where an atom starts it ends in one
place, if no character follows on it that could belong to a name.  Each production has a lemma
that says so of what it spells (`Atom.Unambiguous`, `Expr.Unambiguous`), and together they show
that characters stand for one expression at most (`Expr.Spelled.eq_of_spelled`).
-/
import Stencil.Comparison
import Stencil.Proofs.JsonLiteral
import Stencil.Proofs.Partition

namespace Stencil.Code

mutual

/-- Code that no `+` outside of parentheses takes apart. -/
inductive Atom
  | literal (text : String)
  /-- A field of the context. -/
  | field (name : String)
  | number (digits : String)
  | comparison (op : Comparison) (left right : Atom)
  /-- One of two expressions, by a condition. -/
  | choice (condition : Atom) (yes no : Expr)
  /-- One of two expressions, by the equality of two atoms. -/
  | equals (left right : Atom) (yes no : Expr)

/-- Atoms joined by `+`. -/
inductive Expr
  | single (atom : Atom)
  | plus (atom : Atom) (rest : Expr)

end

mutual

/-- Whether the characters stand for the atom, where `context` is the name of the context. -/
inductive Atom.Spelled (context : String) : Atom → List Char → Prop
  | literal {text : String} {cs : List Char} :
      Text.JsonLiteral cs text.toList → Atom.Spelled context (.literal text) cs
  | field {name : String} :
      isName name.toList = true →
      Atom.Spelled context (.field name) (context.toList ++ '.' :: name.toList)
  | number {digits : String} :
      isNumber digits.toList = true → Atom.Spelled context (.number digits) digits.toList
  | comparison {left right : Atom} {ls rs : List Char} (op : Comparison) :
      Atom.Spelled context left ls → Atom.Spelled context right rs →
      Atom.Spelled context (.comparison op left right)
        ('(' :: (ls ++ (op.symbol.toList ++ (rs ++ [')']))))
  | choice {condition : Atom} {yes no : Expr} {cs ys ns : List Char} :
      Atom.Spelled context condition cs → Expr.Spelled context yes ys →
      Expr.Spelled context no ns →
      Atom.Spelled context (.choice condition yes no)
        ('(' :: (cs ++ '?' :: (ys ++ ':' :: (ns ++ [')']))))
  | equals {left right : Atom} {yes no : Expr} {ls rs ys ns : List Char} :
      Atom.Spelled context left ls → Atom.Spelled context right rs →
      Expr.Spelled context yes ys → Expr.Spelled context no ns →
      Atom.Spelled context (.equals left right yes no)
        ('(' :: (ls ++ '=' :: '=' :: (rs ++ '?' :: (ys ++ ':' :: (ns ++ [')'])))))

/-- Whether the characters stand for the expression. -/
inductive Expr.Spelled (context : String) : Expr → List Char → Prop
  | single {atom : Atom} {cs : List Char} :
      Atom.Spelled context atom cs → Expr.Spelled context (.single atom) cs
  | plus {atom : Atom} {rest : Expr} {cs ds : List Char} :
      Atom.Spelled context atom cs → Expr.Spelled context rest ds →
      Expr.Spelled context (.plus atom rest) (cs ++ '+' :: ds)

end

variable {context : String}

/-! ### First characters -/

/-- The first character of an atom, which tells its kind. -/
def Atom.StartsWith (c : Char) : Atom → Prop
  | .literal _ => c = '"'
  | .field _ => startsName c = true
  | .number _ => c.isDigit = true
  | .comparison .. | .choice .. | .equals .. => c = '('

theorem Atom.Spelled.head (hcontext : isName context.toList = true) {a : Atom} {cs : List Char}
    (h : a.Spelled context cs) : ∃ c ds, cs = c :: ds ∧ a.StartsWith c := by
  cases h with
  | literal h =>
    obtain ⟨body, -, rfl⟩ := h
    exact ⟨_, _, rfl, rfl⟩
  | field =>
    rcases hname : context.toList with _ | ⟨c, ds⟩
    · rw [hname] at hcontext
      cases hcontext
    · rw [hname] at hcontext
      exact ⟨c, _, rfl, (Bool.and_eq_true_iff.mp hcontext).1⟩
  | @number digits h =>
    rcases hdigits : digits.toList with _ | ⟨c, ds⟩
    · rw [hdigits] at h
      cases h
    · rw [hdigits] at h
      exact ⟨c, ds, rfl, (Bool.and_eq_true_iff.mp h).1⟩
  | _ => exact ⟨_, _, rfl, rfl⟩

theorem Atom.StartsWith.ne_equals {a : Atom} {c : Char} (h : a.StartsWith c) : c ≠ '=' := by
  rintro rfl
  cases a <;> cases h

/-! ### Ends -/

/-- Whether what follows on an atom could not belong to it. -/
def EndsAtom (rest : List Char) : Prop :=
  ∀ c, rest.head? = some c → continuesName c = false

/-- Whether what follows on an expression could not belong to it. -/
def EndsExpr (rest : List Char) : Prop :=
  EndsAtom rest ∧ rest.head? ≠ some '+'

theorem endsAtom_cons {c : Char} (hc : continuesName c = false) (rest : List Char) :
    EndsAtom (c :: rest) := by
  rintro _ ⟨⟩
  exact hc

theorem endsExpr_cons {c : Char} (hc : continuesName c = false) (hplus : c ≠ '+')
    (rest : List Char) : EndsExpr (c :: rest) :=
  ⟨endsAtom_cons hc rest, fun h => hplus (Option.some.inj h)⟩

theorem endsAtom_symbol (op : Comparison) (rest : List Char) :
    EndsAtom (op.symbol.toList ++ rest) := by
  cases op <;> exact endsAtom_cons rfl _

/-- A run of characters of a class ends where no further one of the class follows. -/
theorem run_unique {p : Char → Bool} {as bs r s : List Char} (has : as.all p = true)
    (hbs : bs.all p = true) (hr : ∀ c, r.head? = some c → p c = false)
    (hs : ∀ c, s.head? = some c → p c = false) (heq : as ++ r = bs ++ s) : as = bs ∧ r = s := by
  have h := congrArg (readWhile p) heq
  rw [readWhile_append has hr, readWhile_append hbs hs] at h
  exact ⟨congrArg Reading.value h, congrArg Reading.rest h⟩

theorem all_continuesName {cs : List Char} (h : isName cs = true) :
    cs.all continuesName = true := by
  rcases cs with _ | ⟨c, cs⟩
  · rfl
  · obtain ⟨hc, hcs⟩ := Bool.and_eq_true_iff.mp h
    rw [List.all_cons, continuesName_of_startsName hc, hcs]
    rfl

theorem all_isDigit {cs : List Char} (h : isNumber cs = true) : cs.all Char.isDigit = true :=
  List.all_eq_true.mpr fun _ hc => isDigit_of_mem h hc

theorem isDigit_eq_false_of_endsAtom {rest : List Char} (h : EndsAtom rest) :
    ∀ c, rest.head? = some c → c.isDigit = false := by
  intro c hc
  by_contra hdigit
  have hcontinues := continuesName_of_isDigit (Bool.not_eq_false _ ▸ hdigit)
  rw [h c hc] at hcontinues
  cases hcontinues

/-- An operator ends where no `=` follows on it. -/
theorem symbol_unique {op op' : Comparison} {c d : Char} {r s : List Char} (hc : c ≠ '=')
    (hd : d ≠ '=') (heq : op.symbol.toList ++ c :: r = op'.symbol.toList ++ d :: s) :
    op = op' ∧ c :: r = d :: s := by
  have hc' := hc.symm
  have hd' := hd.symm
  cases op <;> cases op' <;> simp_all [Comparison.symbol]

/-- No operator starts with a question mark. -/
theorem symbol_ne_question {op : Comparison} {r s : List Char} :
    op.symbol.toList ++ r ≠ '?' :: s := by
  cases op <;> exact fun h => by simp [Comparison.symbol] at h

theorem Atom.Spelled.same_start (hcontext : isName context.toList = true) {a b : Atom}
    {cs ds r s : List Char} (ha : a.Spelled context cs) (hb : b.Spelled context ds)
    (heq : cs ++ r = ds ++ s) : ∃ c, a.StartsWith c ∧ b.StartsWith c := by
  obtain ⟨c, cs, rfl, hc⟩ := ha.head hcontext
  obtain ⟨d, ds, rfl, hd⟩ := hb.head hcontext
  obtain rfl := (List.cons.inj heq).1
  exact ⟨c, hc, hd⟩

/-- The operator of a comparison ends where its right side starts. -/
theorem symbol_unique_of_spelled (hcontext : isName context.toList = true) {o p : Comparison}
    {a b : Atom} {as bs r s : List Char} (ha : a.Spelled context as) (hb : b.Spelled context bs)
    (heq : o.symbol.toList ++ (as ++ r) = p.symbol.toList ++ (bs ++ s)) :
    o = p ∧ as ++ r = bs ++ s := by
  obtain ⟨c, cs, rfl, hc⟩ := ha.head hcontext
  obtain ⟨d, ds, rfl, hd⟩ := hb.head hcontext
  exact symbol_unique hc.ne_equals hd.ne_equals heq

/-! ### One reading only -/

/-- Whether no other atom can be read where the characters start, and none that ends elsewhere. -/
def Atom.Unambiguous (context : String) (a : Atom) (cs : List Char) : Prop :=
  ∀ ⦃b : Atom⦄ ⦃ds r s : List Char⦄, b.Spelled context ds → EndsAtom r → EndsAtom s →
    cs ++ r = ds ++ s → a = b ∧ r = s

/-- Whether no other expression can be read where the characters start, and none that ends
elsewhere. -/
def Expr.Unambiguous (context : String) (e : Expr) (cs : List Char) : Prop :=
  ∀ ⦃f : Expr⦄ ⦃ds r s : List Char⦄, f.Spelled context ds → EndsExpr r → EndsExpr s →
    cs ++ r = ds ++ s → e = f ∧ r = s

theorem Atom.unambiguous_literal (hcontext : isName context.toList = true) {text : String}
    {cs : List Char} (h : Text.JsonLiteral cs text.toList) :
    (Atom.literal text).Unambiguous context cs := by
  intro b ds r s hb _ _ heq
  obtain ⟨c, rfl, hstart⟩ := (Atom.Spelled.literal h).same_start hcontext hb heq
  cases hb with
  | literal h' =>
    obtain ⟨htext, hrest⟩ := h.unique h' heq
    exact ⟨by rw [String.toList_inj.mp htext], hrest⟩
  | _ => cases hstart

theorem Atom.unambiguous_field (hcontext : isName context.toList = true) {name : String}
    (h : isName name.toList = true) :
    (Atom.field name).Unambiguous context (context.toList ++ '.' :: name.toList) := by
  intro b ds r s hb hr hs heq
  obtain ⟨c, hc, hstart⟩ := (Atom.Spelled.field h).same_start hcontext hb heq
  cases hb with
  | field h' =>
    -- Both start with the context and a dot, so only the names are left to compare.
    rw [List.append_assoc, List.append_assoc] at heq
    have htail := (List.cons.inj (List.append_cancel_left heq)).2
    obtain ⟨hname, hrest⟩ := run_unique (all_continuesName h) (all_continuesName h') hr hs htail
    exact ⟨by rw [String.toList_inj.mp hname], hrest⟩
  | number => exact absurd rfl (ne_of_class hc (startsName_eq_false_of_isDigit hstart))
  | _ =>
    obtain rfl := hstart
    cases hc

theorem Atom.unambiguous_number (hcontext : isName context.toList = true) {digits : String}
    (h : isNumber digits.toList = true) :
    (Atom.number digits).Unambiguous context digits.toList := by
  intro b ds r s hb hr hs heq
  obtain ⟨c, hc, hstart⟩ := (Atom.Spelled.number h).same_start hcontext hb heq
  cases hb with
  | number h' =>
    obtain ⟨hdigits, hrest⟩ := run_unique (all_isDigit h) (all_isDigit h')
      (isDigit_eq_false_of_endsAtom hr) (isDigit_eq_false_of_endsAtom hs) heq
    exact ⟨by rw [String.toList_inj.mp hdigits], hrest⟩
  | field => exact absurd rfl (ne_of_class hstart (startsName_eq_false_of_isDigit hc))
  | _ =>
    obtain rfl := hstart
    cases hc

/-- The two expressions of a choice, up to its closing parenthesis. -/
theorem arms_unique {yes no yes' no' : Expr} {ys ns ys' ns' r s : List Char}
    (hyes : yes.Unambiguous context ys) (hno : no.Unambiguous context ns)
    (hy' : yes'.Spelled context ys') (hn' : no'.Spelled context ns')
    (heq : ys ++ ':' :: (ns ++ ')' :: r) = ys' ++ ':' :: (ns' ++ ')' :: s)) :
    yes = yes' ∧ no = no' ∧ r = s := by
  obtain ⟨rfl, heq⟩ := hyes hy' (endsExpr_cons rfl (by decide) _)
    (endsExpr_cons rfl (by decide) _) heq
  obtain ⟨rfl, heq⟩ := hno hn' (endsExpr_cons rfl (by decide) _)
    (endsExpr_cons rfl (by decide) _) (List.cons.inj heq).2
  exact ⟨rfl, rfl, (List.cons.inj heq).2⟩

theorem Atom.unambiguous_comparison (hcontext : isName context.toList = true) (op : Comparison)
    {left right : Atom} {ls rs : List Char} (hl : left.Spelled context ls)
    (hr : right.Spelled context rs) (hleft : left.Unambiguous context ls)
    (hright : right.Unambiguous context rs) :
    (Atom.comparison op left right).Unambiguous context
      ('(' :: (ls ++ (op.symbol.toList ++ (rs ++ [')'])))) := by
  intro b ds r s hb _ _ heq
  obtain ⟨c, rfl, hstart⟩ := (Atom.Spelled.comparison op hl hr).same_start hcontext hb heq
  cases hb with
  | comparison op' hl' hr' =>
    simp only [List.cons_append, List.append_assoc, List.nil_append, List.cons.injEq,
      true_and] at heq
    obtain ⟨rfl, heq⟩ := hleft hl' (endsAtom_symbol _ _) (endsAtom_symbol _ _) heq
    obtain ⟨rfl, hbehind⟩ := symbol_unique_of_spelled hcontext hr hr' heq
    obtain ⟨rfl, heq⟩ := hright hr' (endsAtom_cons rfl _) (endsAtom_cons rfl _) hbehind
    exact ⟨rfl, (List.cons.inj heq).2⟩
  | choice hc' =>
    simp only [List.cons_append, List.append_assoc, List.cons.injEq, true_and] at heq
    obtain ⟨-, heq⟩ := hleft hc' (endsAtom_symbol _ _) (endsAtom_cons rfl _) heq
    exact absurd heq symbol_ne_question
  | equals hl' hr' =>
    -- Both go on with `==` and an atom, and only then with a parenthesis or a question mark.
    simp only [List.cons_append, List.append_assoc, List.cons.injEq, true_and] at heq
    obtain ⟨-, heq⟩ := hleft hl' (endsAtom_symbol _ _) (endsAtom_cons rfl _) heq
    obtain ⟨rfl, hbehind⟩ := symbol_unique_of_spelled hcontext (p := .eq) hr hr' heq
    obtain ⟨-, heq⟩ := hright hr' (endsAtom_cons rfl _) (endsAtom_cons rfl _) hbehind
    cases heq
  | _ => cases hstart

theorem Atom.unambiguous_choice (hcontext : isName context.toList = true) {condition : Atom}
    {yes no : Expr} {cs ys ns : List Char} (hc : condition.Spelled context cs)
    (hy : yes.Spelled context ys) (hn : no.Spelled context ns)
    (hcondition : condition.Unambiguous context cs) (hyes : yes.Unambiguous context ys)
    (hno : no.Unambiguous context ns) :
    (Atom.choice condition yes no).Unambiguous context
      ('(' :: (cs ++ '?' :: (ys ++ ':' :: (ns ++ [')'])))) := by
  intro b ds r s hb _ _ heq
  obtain ⟨c, rfl, hstart⟩ := (Atom.Spelled.choice hc hy hn).same_start hcontext hb heq
  cases hb with
  | comparison op' hl' =>
    simp only [List.cons_append, List.append_assoc, List.cons.injEq, true_and] at heq
    -- The condition would have to be followed by a question mark and by an operator.
    obtain ⟨-, heq⟩ := hcondition hl' (endsAtom_cons rfl _) (endsAtom_symbol _ _) heq
    exact absurd heq.symm symbol_ne_question
  | choice hc' hy' hn' =>
    simp only [List.cons_append, List.append_assoc, List.nil_append, List.cons.injEq,
      true_and] at heq
    obtain ⟨rfl, heq⟩ := hcondition hc' (endsAtom_cons rfl _) (endsAtom_cons rfl _) heq
    obtain ⟨rfl, rfl, hrest⟩ := arms_unique hyes hno hy' hn' (List.cons.inj heq).2
    exact ⟨rfl, hrest⟩
  | equals hl' =>
    simp only [List.cons_append, List.append_assoc, List.cons.injEq, true_and] at heq
    obtain ⟨-, heq⟩ := hcondition hl' (endsAtom_cons rfl _) (endsAtom_cons rfl _) heq
    cases heq
  | _ => cases hstart

theorem Atom.unambiguous_equals (hcontext : isName context.toList = true) {left right : Atom}
    {yes no : Expr} {ls rs ys ns : List Char} (hl : left.Spelled context ls)
    (hr : right.Spelled context rs) (hy : yes.Spelled context ys) (hn : no.Spelled context ns)
    (hleft : left.Unambiguous context ls) (hright : right.Unambiguous context rs)
    (hyes : yes.Unambiguous context ys) (hno : no.Unambiguous context ns) :
    (Atom.equals left right yes no).Unambiguous context
      ('(' :: (ls ++ '=' :: '=' :: (rs ++ '?' :: (ys ++ ':' :: (ns ++ [')']))))) := by
  intro b ds r s hb _ _ heq
  obtain ⟨c, rfl, hstart⟩ := (Atom.Spelled.equals hl hr hy hn).same_start hcontext hb heq
  cases hb with
  | comparison op' hl' hr' =>
    simp only [List.cons_append, List.append_assoc, List.cons.injEq, true_and] at heq
    obtain ⟨-, heq⟩ := hleft hl' (endsAtom_cons rfl _) (endsAtom_symbol _ _) heq
    obtain ⟨rfl, hbehind⟩ := symbol_unique_of_spelled hcontext (o := .eq) hr hr' heq
    obtain ⟨-, heq⟩ := hright hr' (endsAtom_cons rfl _) (endsAtom_cons rfl _) hbehind
    cases heq
  | choice hc' =>
    simp only [List.cons_append, List.append_assoc, List.cons.injEq, true_and] at heq
    obtain ⟨-, heq⟩ := hleft hc' (endsAtom_cons rfl _) (endsAtom_cons rfl _) heq
    cases heq
  | equals hl' hr' hy' hn' =>
    simp only [List.cons_append, List.append_assoc, List.nil_append, List.cons.injEq,
      true_and] at heq
    obtain ⟨rfl, heq⟩ := hleft hl' (endsAtom_cons rfl _) (endsAtom_cons rfl _) heq
    obtain ⟨-, hbehind⟩ := symbol_unique_of_spelled hcontext (o := .eq) (p := .eq) hr hr' heq
    obtain ⟨rfl, heq⟩ := hright hr' (endsAtom_cons rfl _) (endsAtom_cons rfl _) hbehind
    obtain ⟨rfl, rfl, hrest⟩ := arms_unique hyes hno hy' hn' (List.cons.inj heq).2
    exact ⟨rfl, hrest⟩
  | _ => cases hstart

theorem Expr.unambiguous_single {atom : Atom} {cs : List Char}
    (hatom : atom.Unambiguous context cs) : (Expr.single atom).Unambiguous context cs := by
  intro f ds r s hf hr hs heq
  cases hf with
  | single h' =>
    obtain ⟨rfl, hrest⟩ := hatom h' hr.1 hs.1 heq
    exact ⟨rfl, hrest⟩
  | plus h' _ =>
    -- Then a `+` follows on the atom, which does not end an expression.
    rw [List.append_assoc] at heq
    obtain ⟨-, rfl⟩ := hatom h' hr.1 (endsAtom_cons rfl _) heq
    exact absurd rfl hr.2

theorem Expr.unambiguous_plus {atom : Atom} {rest : Expr} {cs ds : List Char}
    (hatom : atom.Unambiguous context cs) (hrest : rest.Unambiguous context ds) :
    (Expr.plus atom rest).Unambiguous context (cs ++ '+' :: ds) := by
  intro f es r s hf hr hs heq
  rw [List.append_assoc] at heq
  cases hf with
  | single h' =>
    obtain ⟨-, rfl⟩ := hatom h' (endsAtom_cons rfl _) hs.1 heq
    exact absurd rfl hs.2
  | plus h' hrest' =>
    rw [List.append_assoc] at heq
    obtain ⟨rfl, heq⟩ := hatom h' (endsAtom_cons rfl _) (endsAtom_cons rfl _) heq
    obtain ⟨rfl, heq⟩ := hrest hrest' hr hs (List.cons.inj heq).2
    exact ⟨rfl, heq⟩

mutual

/-- An atom is read in one way only. -/
theorem Atom.Spelled.unambiguous (hcontext : isName context.toList = true) :
    ∀ {a : Atom} {cs : List Char}, a.Spelled context cs → a.Unambiguous context cs
  | _, _, .literal h => Atom.unambiguous_literal hcontext h
  | _, _, .field h => Atom.unambiguous_field hcontext h
  | _, _, .number h => Atom.unambiguous_number hcontext h
  | _, _, .comparison op hl hr =>
    Atom.unambiguous_comparison hcontext op hl hr (hl.unambiguous hcontext)
      (hr.unambiguous hcontext)
  | _, _, .choice hc hy hn =>
    Atom.unambiguous_choice hcontext hc hy hn (hc.unambiguous hcontext)
      (hy.unambiguous hcontext) (hn.unambiguous hcontext)
  | _, _, .equals hl hr hy hn =>
    Atom.unambiguous_equals hcontext hl hr hy hn (hl.unambiguous hcontext)
      (hr.unambiguous hcontext) (hy.unambiguous hcontext) (hn.unambiguous hcontext)

/-- An expression is read in one way only. -/
theorem Expr.Spelled.unambiguous (hcontext : isName context.toList = true) :
    ∀ {e : Expr} {cs : List Char}, e.Spelled context cs → e.Unambiguous context cs
  | _, _, .single h => Expr.unambiguous_single (h.unambiguous hcontext)
  | _, _, .plus h hrest =>
    Expr.unambiguous_plus (h.unambiguous hcontext) (hrest.unambiguous hcontext)

end

/-- Characters stand for one expression at most. -/
theorem Expr.Spelled.eq_of_spelled (hcontext : isName context.toList = true) {e f : Expr}
    {cs : List Char} (he : e.Spelled context cs) (hf : f.Spelled context cs) : e = f := by
  have hend : EndsExpr [] := ⟨nofun, nofun⟩
  exact (he.unambiguous hcontext hf hend hend rfl).1

end Stencil.Code
