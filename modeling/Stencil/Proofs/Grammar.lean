/-
The grammar of templates.

Lexemes derive a template by productions that look at no reader:

  tag      = name | name op operand | name slot+ | (string | number) [op operand]
  operand  = name | string
  expr     = (number | name | string) [op operand]
  slot     = name `=` expr | expr
  block    = `{{#` n slot* `}}` item* section* `{{/` n `}}`
  section  = `{{` k slot* `}}` item*

An item is a text, a tag between `{{` and `}}`, or a block.  The keywords `k` of a section
are those of the block's name, and a tag directly inside a block never starts with one of
them.  The keywords are a parameter of the grammar.

`Collects slots args` says which arguments slots make; `collects_iff` finds them by adding
one slot after the other.
-/
import Mathlib
import Stencil.Dialect
import Stencil.Template
import Stencil.Token

namespace Stencil

theorem NamedArguments.eq_of_lookup_eq : ∀ {as bs : List (String × Value)},
    (as.map Prod.fst).Nodup → as.map Prod.fst = bs.map Prod.fst →
    (∀ key, as.lookup key = bs.lookup key) → as = bs := by
  intro as
  induction as with
  | nil =>
    intro bs _ hkeys _
    exact (List.map_eq_nil_iff.mp hkeys.symm).symm
  | cons a as ih =>
    intro bs hnodup hkeys hlookup
    obtain ⟨k, v⟩ := a
    rcases bs with _ | ⟨⟨k', v'⟩, bs⟩
    · simp at hkeys
    · simp only [List.map_cons, List.cons.injEq] at hkeys
      obtain ⟨rfl, hkeys⟩ := hkeys
      obtain ⟨hk, hnodup⟩ := List.nodup_cons.mp hnodup
      have hv : v = v' := by simpa using hlookup k
      subst hv
      congr 1
      refine ih hnodup hkeys fun key => ?_
      by_cases hkey : key = k
      · subst hkey
        -- The first key comes back in neither of the lists, so it is found in neither.
        have hk' := hkeys ▸ hk
        have hnone : ∀ {cs : List (String × Value)}, key ∉ cs.map Prod.fst →
            cs.lookup key = none := by
          intro cs hcs
          refine List.lookup_eq_none_iff.mpr fun c hc => ?_
          simp only [bne_iff_ne, ne_eq]
          exact fun he => hcs (he ▸ List.mem_map_of_mem hc)
        rw [hnone hk, hnone hk']
      · simpa [List.lookup_cons, beq_false_of_ne hkey] using hlookup key

/-- Named arguments are determined by the order of their keys and by their look-ups. -/
theorem NamedArguments.ext_get? {a b : NamedArguments} (hkeys : a.keys = b.keys)
    (hget : ∀ key, a.get? key = b.get? key) : a = b := by
  obtain ⟨as, ha⟩ := a
  obtain ⟨bs, hb⟩ := b
  obtain rfl := NamedArguments.eq_of_lookup_eq ha hkeys hget
  rfl

namespace Grammar

/-! ### Values -/

/-- The right side of a comparison. -/
inductive Operand : Lexeme → Value → Prop
  | name (n : String) : Operand (.identifier n) (.variable n)
  | string (s : String) : Operand (.string s) (.string s)

/-- A value that no name spells. -/
inductive Literal : Lexeme → Value → Prop
  | string (s : String) : Literal (.string s) (.string s)
  | number (d : String) : Literal (.number d) (.number d)

/-- The left side of a comparison. -/
inductive Primary : Lexeme → Value → Prop
  | name (n : String) : Primary (.identifier n) (.variable n)
  | literal {l : Lexeme} {v : Value} : Literal l v → Primary l v

/-- A value in a slot: a primary, or one comparison. -/
inductive Expr : List Lexeme → Value → Prop
  | primary {l : Lexeme} {v : Value} : Primary l v → Expr [l] v
  | comparison {l r : Lexeme} {v w : Value} (op : Comparison) :
      Primary l v → Operand r w → Expr [l, .comparison op, r] (.comparison op v w)

/-! ### Arguments -/

/-- One argument, with its key if it is a named one. -/
inductive Slot : List Lexeme → Option String × Value → Prop
  | positional {ls : List Lexeme} {v : Value} : Expr ls v → Slot ls (none, v)
  | named {ls : List Lexeme} {v : Value} (k : String) :
      Expr ls v → Slot (.identifier k :: .assign :: ls) (some k, v)

/-- Arguments one after another. -/
inductive Slots : List Lexeme → List (Option String × Value) → Prop
  | nil : Slots [] []
  | cons {ls ms : List Lexeme} {s : Option String × Value} {ss : List (Option String × Value)} :
      Slot ls s → Slots ms ss → Slots (ls ++ ms) (s :: ss)

/-- The arguments that slots make: the positional values in their order, each key in the
place of its first slot, and under a key the value of its last slot. -/
structure Collects (slots : List (Option String × Value)) (args : Arguments) : Prop where
  positional : args.positional = (slots.filter fun s => s.1.isNone).map Prod.snd
  keys : args.named.keys = (slots.filterMap Prod.fst).eraseDups
  get? : ∀ key, args.named.get? key = slots.reverse.lookup (some key)

/-- The arguments after one slot after the other has been added. -/
def collect (slots : List (Option String × Value)) : Arguments :=
  slots.foldl (fun args s => args.add s.1 s.2) {}

theorem collect_concat (slots : List (Option String × Value)) (s : Option String × Value) :
    collect (slots ++ [s]) = (collect slots).add s.1 s.2 := by
  simp [collect]

theorem collects_collect (slots : List (Option String × Value)) :
    Collects slots (collect slots) := by
  induction slots using List.reverseRecOn with
  | nil => exact ⟨rfl, rfl, fun _ => rfl⟩
  | append_singleton slots s ih =>
    obtain ⟨key?, value⟩ := s
    rw [collect_concat]
    rcases key? with _ | key
    · refine ⟨?_, ?_, fun k => ?_⟩
      · simp [Arguments.add, ih.positional]
      · simpa [Arguments.add] using ih.keys
      · rw [List.reverse_concat, List.lookup_cons]
        simpa [Arguments.add] using ih.get? k
    · refine ⟨?_, ?_, fun k => ?_⟩
      · simpa [Arguments.add] using ih.positional
      · simp only [Arguments.add, NamedArguments.keys_insert, ih.keys, List.mem_eraseDups,
          List.filterMap_append, List.filterMap_cons, List.filterMap_nil, List.eraseDups_append]
        -- A known key keeps its place, and a new one goes to the end.
        by_cases hkey : key ∈ slots.filterMap Prod.fst
        · simp [List.removeAll, hkey]
        · simp [List.removeAll, hkey, List.eraseDups_cons]
      · rw [List.reverse_concat, List.lookup_cons]
        by_cases hk : k = key
        · subst hk
          simp [Arguments.add]
        · simpa [Arguments.add, NamedArguments.get?_insert_of_ne _ hk,
            beq_false_of_ne hk] using ih.get? k

/-- Slots make exactly the arguments that adding them one by one makes. -/
theorem collects_iff {slots : List (Option String × Value)} {args : Arguments} :
    Collects slots args ↔ args = collect slots := by
  constructor
  · intro h
    have h' := collects_collect slots
    have hpositional := h.positional.trans h'.positional.symm
    have hnamed : args.named = (collect slots).named :=
      NamedArguments.ext_get? (h.keys.trans h'.keys.symm)
        fun key => (h.get? key).trans (h'.get? key).symm
    obtain ⟨positional, named⟩ := args
    exact Arguments.mk.injEq .. ▸ ⟨hpositional, hnamed⟩
  · rintro rfl
    exact collects_collect slots

/-! ### Tags, items and blocks -/

/-- The inside of a tag that is no section header. -/
inductive Tag : List Lexeme → Item → Prop
  | name (n : String) : Tag [.identifier n] (.expression (.variable n))
  | comparison {r : Lexeme} {w : Value} (n : String) (op : Comparison) :
      Operand r w →
      Tag [.identifier n, .comparison op, r] (.expression (.comparison op (.variable n) w))
  | call {ls : List Lexeme} {slots : List (Option String × Value)} {args : Arguments}
      (n : String) :
      Slots ls slots → slots ≠ [] → Collects slots args →
      Tag (.identifier n :: ls) (.call ⟨n, args⟩)
  | literal {l : Lexeme} {v : Value} : Literal l v → Tag [l] (.expression v)
  | literalComparison {l r : Lexeme} {v w : Value} (op : Comparison) :
      Literal l v → Operand r w → Tag [l, .comparison op, r] (.expression (.comparison op v w))

/-- Whether the inside of a tag starts with a section keyword of the block named `block?`.
Outside of blocks there are no keywords. -/
def StartsSection (keyword : String → String → Bool) (block? : Option String)
    (ls : List Lexeme) : Prop :=
  ∃ n k, block? = some n ∧ ls.head? = some (.identifier k) ∧ keyword n k = true

variable (keyword : String → String → Bool)

mutual

/-- Items one after another, directly inside the block named by the first argument. -/
inductive Items : Option String → List Lexeme → List Item → Prop
  | nil {b : Option String} : Items b [] []
  | cons {b : Option String} {ls ms : List Lexeme} {item : Item} {items : List Item} :
      OneItem b ls item → Items b ms items → Items b (ls ++ ms) (item :: items)

/-- An item directly inside the block named by the first argument. -/
inductive OneItem : Option String → List Lexeme → Item → Prop
  | text {b : Option String} (c : String) : OneItem b [.text c] (.text c)
  | tag {b : Option String} {ls : List Lexeme} {item : Item} :
      Tag ls item → ¬StartsSection keyword b ls →
      OneItem b (.tagOpen :: (ls ++ [.tagClose])) item
  | block {b : Option String} {ls : List Lexeme} {block : Block} :
      OneBlock ls block → OneItem b ls (.block block)

/-- A block from its `{{#` to the `}}` of its close tag. -/
inductive OneBlock : List Lexeme → Block → Prop
  | mk {as ms ss : List Lexeme} {slots : List (Option String × Value)} {args : Arguments}
      {main : List Item} {sections : List Section} (n : String) :
      Slots as slots → Collects slots args → Items (some n) ms main →
      Sections n ss sections →
      OneBlock (.blockOpen :: .identifier n :: (as ++ .tagClose ::
          (ms ++ (ss ++ [.blockClose, .identifier n, .tagClose]))))
        ⟨n, args, .ofItems main, sections⟩

/-- The keyword sections of the block named by the first argument. -/
inductive Sections : String → List Lexeme → List Section → Prop
  | nil {n : String} : Sections n [] []
  | cons {n k : String} {as ms ss : List Lexeme} {slots : List (Option String × Value)}
      {args : Arguments} {items : List Item} {sections : List Section} :
      keyword n k = true → Slots as slots → Collects slots args →
      Items (some n) ms items → Sections n ss sections →
      Sections n (.tagOpen :: .identifier k :: (as ++ .tagClose :: (ms ++ ss)))
        (⟨some k, args, items⟩ :: sections)

end

/-- The lexemes of a source derive a template. -/
def Derives (ls : List Lexeme) (template : Template) : Prop :=
  Items keyword none ls template.items

/-! ### Joining -/

variable {keyword}

theorem Slots.concat {as ls : List Lexeme} {slots : List (Option String × Value)}
    {s : Option String × Value} (h : Slots as slots) (hs : Slot ls s) :
    Slots (as ++ ls) (slots ++ [s]) := by
  induction h with
  | nil => simpa using Slots.cons hs .nil
  | cons h _ ih => simpa only [List.append_assoc, List.cons_append] using Slots.cons h ih

theorem Items.append {b : Option String} {ms : List Lexeme} {more : List Item}
    (hm : Items keyword b ms more) : ∀ {ls : List Lexeme} {items : List Item},
    Items keyword b ls items → Items keyword b (ls ++ ms) (items ++ more)
  | _, _, .nil => hm
  | _, _, .cons h hs => by
    rw [List.append_assoc]
    exact .cons h (Items.append hm hs)

theorem Items.concat {b : Option String} {ls ms : List Lexeme} {items : List Item} {item : Item}
    (h : Items keyword b ls items) (hi : OneItem keyword b ms item) :
    Items keyword b (ls ++ ms) (items ++ [item]) := by
  have hone : Items keyword b (ms ++ []) [item] := .cons hi .nil
  rw [List.append_nil] at hone
  exact hone.append h

theorem Sections.append {n : String} {ms : List Lexeme} {more : List Section}
    (hm : Sections keyword n ms more) : ∀ {ls : List Lexeme} {sections : List Section},
    Sections keyword n ls sections → Sections keyword n (ls ++ ms) (sections ++ more)
  | _, _, .nil => hm
  | _, _, .cons hk has hargs hitems hrest => by
    have h := Sections.cons hk has hargs hitems (Sections.append hm hrest)
    simpa only [List.cons_append, List.append_assoc] using h

end Grammar

end Stencil
