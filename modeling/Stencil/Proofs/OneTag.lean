/-
Templates that differ in one tag.

`Template.DiffersAt name args args'` relates two templates that are equal but for the arguments of
one call, block or section of the name `name`, which are `args` in one and `args'` in the other.

* `DiffersOnce` — two lists that differ in one place;
* `Template.DiffersAt.reordered` — if the arguments are the same, so are the templates.
-/
import Stencil.Proofs.Sameness

namespace Stencil

/-! ### One place in a list -/

/-- Lists that are equal but for one place, where `R` holds. -/
inductive DiffersOnce {α : Type} (R : α → α → Prop) : List α → List α → Prop
  | mk (before after : List α) {x y : α} :
      R x y → DiffersOnce R (before ++ x :: after) (before ++ y :: after)

namespace DiffersOnce

variable {α : Type} {R : α → α → Prop}

theorem head {x y : α} (h : R x y) (after : List α) :
    DiffersOnce R (x :: after) (y :: after) :=
  .mk [] after h

theorem concat {x y : α} (h : R x y) (before : List α) :
    DiffersOnce R (before ++ [x]) (before ++ [y]) :=
  .mk before [] h

theorem cons {as bs : List α} (h : DiffersOnce R as bs) (a : α) :
    DiffersOnce R (a :: as) (a :: bs) := by
  obtain ⟨before, after, hxy⟩ := h
  exact .mk (a :: before) after hxy

theorem append {as bs : List α} (h : DiffersOnce R as bs) (more : List α) :
    DiffersOnce R (as ++ more) (bs ++ more) := by
  obtain ⟨before, after, hxy⟩ := h
  rw [List.append_assoc, List.append_assoc]
  exact .mk before (after ++ more) hxy

/-- The place is the first one or a later one. -/
theorem cons_cases {a b : α} {as bs : List α} (h : DiffersOnce R (a :: as) (b :: bs)) :
    R a b ∧ as = bs ∨ a = b ∧ DiffersOnce R as bs := by
  generalize hxs : a :: as = xs, hys : b :: bs = ys at h
  obtain ⟨before, after, hxy⟩ := h
  cases before with
  | nil =>
    obtain ⟨rfl, rfl⟩ := List.cons.inj hxs
    obtain ⟨rfl, rfl⟩ := List.cons.inj hys
    exact .inl ⟨hxy, rfl⟩
  | cons c before =>
    obtain ⟨rfl, rfl⟩ := List.cons.inj hxs
    obtain ⟨rfl, rfl⟩ := List.cons.inj hys
    exact .inr ⟨rfl, .mk before after hxy⟩

theorem ne_nil {as bs : List α} (h : DiffersOnce R as bs) : as ≠ [] ∧ bs ≠ [] := by
  obtain ⟨before, after, -⟩ := h
  exact ⟨List.append_ne_nil_of_right_ne_nil _ (List.cons_ne_nil _ _),
    List.append_ne_nil_of_right_ne_nil _ (List.cons_ne_nil _ _)⟩

theorem map_eq {β : Type} {f : α → β} {as bs : List α} (h : DiffersOnce R as bs)
    (hf : ∀ x y, R x y → f x = f y) : as.map f = bs.map f := by
  obtain ⟨before, after, hxy⟩ := h
  rw [List.map_append, List.map_append, List.map_cons, List.map_cons, hf _ _ hxy]

end DiffersOnce

/-! ### One tag in a template -/

section Templates

variable (name : String) (args args' : Arguments)

mutual

/-- Items that are equal but for the arguments of one tag. -/
inductive Item.DiffersAt : Item → Item → Prop
  | call : Item.DiffersAt (.call ⟨name, args⟩) (.call ⟨name, args'⟩)
  | block {b b' : Block} : Block.DiffersAt b b' → Item.DiffersAt (.block b) (.block b')

/-- Blocks that are equal but for the arguments of one tag: of the block itself or of one in it. -/
inductive Block.DiffersAt : Block → Block → Prop
  | arguments (main : Section) (sections : List Section) :
      Block.DiffersAt ⟨name, args, main, sections⟩ ⟨name, args', main, sections⟩
  | main (n : String) (as : Arguments) {main main' : Section} (sections : List Section) :
      Section.DiffersAt main main' →
      Block.DiffersAt ⟨n, as, main, sections⟩ ⟨n, as, main', sections⟩
  | sections (n : String) (as : Arguments) (main : Section) (before after : List Section)
      {s s' : Section} :
      Section.DiffersAt s s' →
      Block.DiffersAt ⟨n, as, main, before ++ s :: after⟩ ⟨n, as, main, before ++ s' :: after⟩

/-- Sections that are equal but for the arguments of one tag: their own or one in them. -/
inductive Section.DiffersAt : Section → Section → Prop
  | arguments (items : List Item) :
      Section.DiffersAt ⟨some name, args, items⟩ ⟨some name, args', items⟩
  | items (n? : Option String) (as : Arguments) (before after : List Item) {i i' : Item} :
      Item.DiffersAt i i' →
      Section.DiffersAt ⟨n?, as, before ++ i :: after⟩ ⟨n?, as, before ++ i' :: after⟩

end

/-- Templates that are equal but for the arguments of one call, block or section. -/
def Template.DiffersAt (t t' : Template) : Prop :=
  DiffersOnce (Item.DiffersAt name args args') t.items t'.items

end Templates

/-! ### Templates that are the same -/

theorem Item.ListReordered.of_differsOnce {as bs : List Item}
    (h : DiffersOnce Item.Reordered as bs) : Item.ListReordered as bs := by
  obtain ⟨before, after, hxy⟩ := h
  induction before with
  | nil => exact .cons hxy (.refl after)
  | cons i before ih => exact .cons (.refl i) ih

theorem Section.ListReordered.of_differsOnce {as bs : List Section}
    (h : DiffersOnce Section.Reordered as bs) : Section.ListReordered as bs := by
  obtain ⟨before, after, hxy⟩ := h
  induction before with
  | nil => exact .cons hxy (.refl after)
  | cons s before ih => exact .cons (.refl s) ih

section Reordered

variable {name : String} {args args' : Arguments}

mutual

theorem Item.DiffersAt.reordered (hargs : args.Reordered args') : ∀ {i i' : Item},
    i.DiffersAt name args args' i' → i.Reordered i'
  | _, _, .call => .call ⟨rfl, hargs⟩
  | _, _, .block h => .block (Block.DiffersAt.reordered hargs h)

theorem Block.DiffersAt.reordered (hargs : args.Reordered args') : ∀ {b b' : Block},
    b.DiffersAt name args args' b' → b.Reordered b'
  | _, _, .arguments main sections => .mk hargs (.refl main) (.refl sections)
  | _, _, .main _ as sections h =>
    .mk (.refl as) (Section.DiffersAt.reordered hargs h) (.refl sections)
  | _, _, .sections _ as main before after h =>
    .mk (.refl as) (.refl main)
      (.of_differsOnce (.mk before after (Section.DiffersAt.reordered hargs h)))

theorem Section.DiffersAt.reordered (hargs : args.Reordered args') : ∀ {s s' : Section},
    s.DiffersAt name args args' s' → s.Reordered s'
  | _, _, .arguments items => .mk hargs (.refl items)
  | _, _, .items _ as before after h =>
    .mk (.refl as) (.of_differsOnce (.mk before after (Item.DiffersAt.reordered hargs h)))

end

/-- Templates that differ in one tag, by the order of its named arguments only, are the same. -/
theorem Template.DiffersAt.reordered {t t' : Template} (h : t.DiffersAt name args args' t')
    (hargs : args.Reordered args') : t.Reordered t' := by
  obtain ⟨items⟩ := t
  obtain ⟨items'⟩ := t'
  obtain ⟨before, after, hxy⟩ : DiffersOnce _ items items' := h
  exact .of_differsOnce (.mk before after (hxy.reordered hargs))

end Reordered

end Stencil
