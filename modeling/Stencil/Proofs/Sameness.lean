/-
Templates that differ in the order of named arguments.

`Template.same` compares named arguments by look-ups.  `Template.Reordered` says what that is meant
to find out: the templates are built alike, and the named arguments of every call, block and
section of one are those of the other in some order.

* `NamedArguments.same_iff` — since no key appears twice, look-ups find the same values exactly if
  the entries are a permutation of one another;
* `Template.same_iff` — so templates are the same exactly if they are reordered;
* `Template.Reordered.refl`, `.symm`, `.trans` — and being the same is an equivalence.
-/
import Mathlib
import Stencil.Basic
import Stencil.Template.Same

namespace Stencil

/-! ### Named arguments -/

theorem NamedArguments.get?_eq_some_iff {named : NamedArguments} {key : String} {value : Value} :
    named.get? key = some value ↔ (key, value) ∈ named.entries :=
  lookup_eq_some_iff_mem named.nodup_keys

/-- Arguments under distinct keys have the same values under them exactly if they are the same
entries in some order. -/
theorem NamedArguments.same_iff {a b : NamedArguments} :
    a.same b = true ↔ a.entries.Perm b.entries := by
  rw [same, Bool.and_eq_true, decide_eq_true_eq, List.all_eq_true]
  simp only [decide_eq_true_eq, get?_eq_some_iff]
  constructor
  · rintro ⟨hlength, hsubset⟩
    have hnodup : a.entries.Nodup := List.Nodup.of_map Prod.fst a.nodup_keys
    exact (hnodup.subperm hsubset).perm_of_length_le (Nat.le_of_eq hlength.symm)
  · intro h
    exact ⟨h.length_eq, fun entry hentry => h.subset hentry⟩

/-! ### Reordered trees -/

/-- Whether two lists of arguments differ at most in the order of the named ones. -/
structure Arguments.Reordered (a b : Arguments) : Prop where
  positional : a.positional = b.positional
  named : a.named.entries.Perm b.named.entries

/-- Whether two calls differ at most in the order of named arguments. -/
structure Call.Reordered (a b : Call) : Prop where
  name : a.name = b.name
  arguments : a.arguments.Reordered b.arguments

mutual

/-- Whether two items differ at most in the order of named arguments. -/
inductive Item.Reordered : Item → Item → Prop
  | text (content : String) : Item.Reordered (.text content) (.text content)
  | expression (value : Value) : Item.Reordered (.expression value) (.expression value)
  | call {a b : Call} : a.Reordered b → Item.Reordered (.call a) (.call b)
  | block {a b : Block} : Block.Reordered a b → Item.Reordered (.block a) (.block b)

inductive Block.Reordered : Block → Block → Prop
  | mk {name : String} {args args' : Arguments} {main main' : Section}
      {sections sections' : List Section} :
      args.Reordered args' → Section.Reordered main main' →
      Section.ListReordered sections sections' →
      Block.Reordered ⟨name, args, main, sections⟩ ⟨name, args', main', sections'⟩

inductive Section.Reordered : Section → Section → Prop
  | mk {name? : Option String} {args args' : Arguments} {items items' : List Item} :
      args.Reordered args' → Item.ListReordered items items' →
      Section.Reordered ⟨name?, args, items⟩ ⟨name?, args', items'⟩

inductive Item.ListReordered : List Item → List Item → Prop
  | nil : Item.ListReordered [] []
  | cons {a b : Item} {as bs : List Item} :
      Item.Reordered a b → Item.ListReordered as bs → Item.ListReordered (a :: as) (b :: bs)

inductive Section.ListReordered : List Section → List Section → Prop
  | nil : Section.ListReordered [] []
  | cons {a b : Section} {as bs : List Section} :
      Section.Reordered a b → Section.ListReordered as bs →
      Section.ListReordered (a :: as) (b :: bs)

end

/-- Whether two templates differ at most in the order of named arguments. -/
def Template.Reordered (a b : Template) : Prop :=
  Item.ListReordered a.items b.items

/-! ### Sameness is reordering -/

theorem Arguments.same_iff {a b : Arguments} : a.same b = true ↔ a.Reordered b := by
  rw [same, Bool.and_eq_true, decide_eq_true_eq, NamedArguments.same_iff]
  exact ⟨fun ⟨hpositional, hnamed⟩ => ⟨hpositional, hnamed⟩, fun h => ⟨h.positional, h.named⟩⟩

theorem Call.same_iff {a b : Call} : a.same b = true ↔ a.Reordered b := by
  rw [same, Bool.and_eq_true, decide_eq_true_eq, Arguments.same_iff]
  exact ⟨fun ⟨hname, hargs⟩ => ⟨hname, hargs⟩, fun h => ⟨h.name, h.arguments⟩⟩

mutual

theorem Item.reordered_of_same : ∀ {a b : Item}, a.same b = true → a.Reordered b
  | .text _, b, h => by
    cases b <;> simp only [Item.same, decide_eq_true_eq, Bool.false_eq_true] at h
    exact h ▸ .text _
  | .expression _, b, h => by
    cases b <;> simp only [Item.same, decide_eq_true_eq, Bool.false_eq_true] at h
    exact h ▸ .expression _
  | .call _, b, h => by
    cases b <;> simp only [Item.same, Bool.false_eq_true] at h
    exact .call (Call.same_iff.mp h)
  | .block _, b, h => by
    cases b <;> simp only [Item.same, Bool.false_eq_true] at h
    exact .block (Block.reordered_of_same h)

theorem Block.reordered_of_same : ∀ {a b : Block}, a.same b = true → a.Reordered b
  | ⟨_, _, _, _⟩, ⟨_, _, _, _⟩, h => by
    rw [Block.same, Bool.and_eq_true, Bool.and_eq_true, Bool.and_eq_true] at h
    obtain ⟨⟨⟨hname, hargs⟩, hmain⟩, hsections⟩ := h
    obtain rfl := of_decide_eq_true hname
    exact .mk (Arguments.same_iff.mp hargs) (Section.reordered_of_same hmain)
      (Section.listReordered_of_same hsections)

theorem Section.reordered_of_same : ∀ {a b : Section}, a.same b = true → a.Reordered b
  | ⟨_, _, _⟩, ⟨_, _, _⟩, h => by
    rw [Section.same, Bool.and_eq_true, Bool.and_eq_true] at h
    obtain ⟨⟨hname, hargs⟩, hitems⟩ := h
    obtain rfl := of_decide_eq_true hname
    exact .mk (Arguments.same_iff.mp hargs) (Item.listReordered_of_same hitems)

theorem Item.listReordered_of_same : ∀ {as bs : List Item}, Item.sameList as bs = true →
    Item.ListReordered as bs
  | [], [], _ => .nil
  | [], _ :: _, h | _ :: _, [], h => by
    simp only [Item.sameList, Bool.false_eq_true] at h
  | _ :: _, _ :: _, h => by
    rw [Item.sameList, Bool.and_eq_true] at h
    exact .cons (Item.reordered_of_same h.1) (Item.listReordered_of_same h.2)

theorem Section.listReordered_of_same : ∀ {as bs : List Section},
    Section.sameList as bs = true → Section.ListReordered as bs
  | [], [], _ => .nil
  | [], _ :: _, h | _ :: _, [], h => by
    simp only [Section.sameList, Bool.false_eq_true] at h
  | _ :: _, _ :: _, h => by
    rw [Section.sameList, Bool.and_eq_true] at h
    exact .cons (Section.reordered_of_same h.1) (Section.listReordered_of_same h.2)

end

mutual

theorem Item.Reordered.same : ∀ {a b : Item}, a.Reordered b → a.same b = true
  | _, _, .text _ => by rw [Item.same, decide_eq_true rfl]
  | _, _, .expression _ => by rw [Item.same, decide_eq_true rfl]
  | _, _, .call h => by rw [Item.same, Call.same_iff.mpr h]
  | _, _, .block h => by rw [Item.same, Block.Reordered.same h]

theorem Block.Reordered.same : ∀ {a b : Block}, a.Reordered b → a.same b = true
  | _, _, .mk hargs hmain hsections => by
    rw [Block.same, Arguments.same_iff.mpr hargs, Section.Reordered.same hmain,
      Section.ListReordered.same hsections, decide_eq_true rfl]
    rfl

theorem Section.Reordered.same : ∀ {a b : Section}, a.Reordered b → a.same b = true
  | _, _, .mk hargs hitems => by
    rw [Section.same, Arguments.same_iff.mpr hargs, Item.ListReordered.same hitems,
      decide_eq_true rfl]
    rfl

theorem Item.ListReordered.same : ∀ {as bs : List Item}, Item.ListReordered as bs →
    Item.sameList as bs = true
  | _, _, .nil => by rw [Item.sameList]
  | _, _, .cons h hs => by
    rw [Item.sameList, Item.Reordered.same h, Item.ListReordered.same hs]
    rfl

theorem Section.ListReordered.same : ∀ {as bs : List Section}, Section.ListReordered as bs →
    Section.sameList as bs = true
  | _, _, .nil => by rw [Section.sameList]
  | _, _, .cons h hs => by
    rw [Section.sameList, Section.Reordered.same h, Section.ListReordered.same hs]
    rfl

end

/-- Templates are the same exactly if they differ at most in the order of named arguments. -/
theorem Template.same_iff {a b : Template} : a.same b = true ↔ a.Reordered b :=
  ⟨Item.listReordered_of_same, Item.ListReordered.same⟩

/-! ### An equivalence -/

theorem Arguments.Reordered.refl (a : Arguments) : a.Reordered a :=
  ⟨rfl, .refl _⟩

theorem Arguments.Reordered.symm {a b : Arguments} (h : a.Reordered b) : b.Reordered a :=
  ⟨h.positional.symm, h.named.symm⟩

theorem Arguments.Reordered.trans {a b c : Arguments} (h : a.Reordered b) (h' : b.Reordered c) :
    a.Reordered c :=
  ⟨h.positional.trans h'.positional, h.named.trans h'.named⟩

theorem Call.Reordered.refl (a : Call) : a.Reordered a :=
  ⟨rfl, .refl _⟩

theorem Call.Reordered.symm {a b : Call} (h : a.Reordered b) : b.Reordered a :=
  ⟨h.name.symm, h.arguments.symm⟩

theorem Call.Reordered.trans {a b c : Call} (h : a.Reordered b) (h' : b.Reordered c) :
    a.Reordered c :=
  ⟨h.name.trans h'.name, h.arguments.trans h'.arguments⟩

mutual

theorem Item.Reordered.refl : ∀ a : Item, a.Reordered a
  | .text content => .text content
  | .expression value => .expression value
  | .call call => .call (.refl call)
  | .block block => .block (Block.Reordered.refl block)

theorem Block.Reordered.refl : ∀ a : Block, a.Reordered a
  | ⟨_, args, main, sections⟩ =>
    .mk (.refl args) (Section.Reordered.refl main) (Section.ListReordered.refl sections)

theorem Section.Reordered.refl : ∀ a : Section, a.Reordered a
  | ⟨_, args, items⟩ => .mk (.refl args) (Item.ListReordered.refl items)

theorem Item.ListReordered.refl : ∀ as : List Item, Item.ListReordered as as
  | [] => .nil
  | a :: as => .cons (Item.Reordered.refl a) (Item.ListReordered.refl as)

theorem Section.ListReordered.refl : ∀ as : List Section, Section.ListReordered as as
  | [] => .nil
  | a :: as => .cons (Section.Reordered.refl a) (Section.ListReordered.refl as)

end

mutual

theorem Item.Reordered.symm : ∀ {a b : Item}, a.Reordered b → b.Reordered a
  | _, _, .text content => .text content
  | _, _, .expression value => .expression value
  | _, _, .call h => .call h.symm
  | _, _, .block h => .block (Block.Reordered.symm h)

theorem Block.Reordered.symm : ∀ {a b : Block}, a.Reordered b → b.Reordered a
  | _, _, .mk hargs hmain hsections =>
    .mk hargs.symm (Section.Reordered.symm hmain) (Section.ListReordered.symm hsections)

theorem Section.Reordered.symm : ∀ {a b : Section}, a.Reordered b → b.Reordered a
  | _, _, .mk hargs hitems => .mk hargs.symm (Item.ListReordered.symm hitems)

theorem Item.ListReordered.symm : ∀ {as bs : List Item}, Item.ListReordered as bs →
    Item.ListReordered bs as
  | _, _, .nil => .nil
  | _, _, .cons h hs => .cons (Item.Reordered.symm h) (Item.ListReordered.symm hs)

theorem Section.ListReordered.symm : ∀ {as bs : List Section}, Section.ListReordered as bs →
    Section.ListReordered bs as
  | _, _, .nil => .nil
  | _, _, .cons h hs => .cons (Section.Reordered.symm h) (Section.ListReordered.symm hs)

end

mutual

theorem Item.Reordered.trans : ∀ {a b c : Item}, a.Reordered b → b.Reordered c → a.Reordered c
  | _, _, _, .text content, .text _ => .text content
  | _, _, _, .expression value, .expression _ => .expression value
  | _, _, _, .call h, .call h' => .call (h.trans h')
  | _, _, _, .block h, .block h' => .block (Block.Reordered.trans h h')

theorem Block.Reordered.trans : ∀ {a b c : Block}, a.Reordered b → b.Reordered c →
    a.Reordered c
  | _, _, _, .mk hargs hmain hsections, .mk hargs' hmain' hsections' =>
    .mk (hargs.trans hargs') (Section.Reordered.trans hmain hmain')
      (Section.ListReordered.trans hsections hsections')

theorem Section.Reordered.trans : ∀ {a b c : Section}, a.Reordered b → b.Reordered c →
    a.Reordered c
  | _, _, _, .mk hargs hitems, .mk hargs' hitems' =>
    .mk (hargs.trans hargs') (Item.ListReordered.trans hitems hitems')

theorem Item.ListReordered.trans : ∀ {as bs cs : List Item}, Item.ListReordered as bs →
    Item.ListReordered bs cs → Item.ListReordered as cs
  | _, _, _, .nil, .nil => .nil
  | _, _, _, .cons h hs, .cons h' hs' =>
    .cons (Item.Reordered.trans h h') (Item.ListReordered.trans hs hs')

theorem Section.ListReordered.trans : ∀ {as bs cs : List Section},
    Section.ListReordered as bs → Section.ListReordered bs cs → Section.ListReordered as cs
  | _, _, _, .nil, .nil => .nil
  | _, _, _, .cons h hs, .cons h' hs' =>
    .cons (Section.Reordered.trans h h') (Section.ListReordered.trans hs hs')

end

/-- Being the same is an equivalence of templates. -/
theorem Template.equivalence_same : Equivalence fun a b : Template => a.same b = true where
  refl a := same_iff.mpr (Item.ListReordered.refl a.items)
  symm h := same_iff.mpr (Item.ListReordered.symm (same_iff.mp h))
  trans h h' := same_iff.mpr (Item.ListReordered.trans (same_iff.mp h) (same_iff.mp h'))

end Stencil
