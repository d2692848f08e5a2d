/-
Every well-formed template has a source.

A well-formed template is turned into lexemes (`Item.lexemes`), the positional arguments in front
of the named ones, and these derive the template and can be written.  With the converse,
`Template.exists_ofSource_iff` says which templates sources have.
-/
import Mathlib
import Stencil.Proofs.WellFormed

namespace Stencil

/-! ### Lexemes of a template -/

/-- The lexemes of a value. -/
def Value.lexemes : Value → List Lexeme
  | .variable name => [.identifier name]
  | .string text => [.string text]
  | .number digits => [.number digits]
  | .comparison op left right => left.lexemes ++ .comparison op :: right.lexemes

/-- The lexemes of one argument. -/
def slotLexemes : Option String × Value → List Lexeme
  | (none, value) => value.lexemes
  | (some key, value) => .identifier key :: .assign :: value.lexemes

namespace Arguments

/-- The arguments one by one. -/
def slots (args : Arguments) : List (Option String × Value) :=
  args.positional.map (fun value => (none, value)) ++
    args.named.entries.map fun entry => (some entry.1, entry.2)

/-- The lexemes of arguments. -/
def lexemes (args : Arguments) : List Lexeme :=
  args.slots.flatMap slotLexemes

end Arguments

mutual

/-- The lexemes of an item. -/
def Item.lexemes : Item → List Lexeme
  | .text content => [.text content]
  | .expression value => .tagOpen :: (value.lexemes ++ [.tagClose])
  | .call call => .tagOpen :: (.identifier call.name :: call.arguments.lexemes ++ [.tagClose])
  | .block block => block.lexemes

/-- The lexemes of a block. -/
def Block.lexemes : Block → List Lexeme
  | ⟨name, args, main, sections⟩ =>
    .blockOpen :: .identifier name :: (args.lexemes ++ .tagClose ::
      (main.bodyLexemes ++ (Section.listLexemes sections ++
        [.blockClose, .identifier name, .tagClose])))

/-- The lexemes of the items of a section. -/
def Section.bodyLexemes : Section → List Lexeme
  | ⟨_, _, items⟩ => Item.listLexemes items

/-- The lexemes of a list of items. -/
def Item.listLexemes : List Item → List Lexeme
  | [] => []
  | item :: rest => item.lexemes ++ Item.listLexemes rest

/-- The lexemes of a list of sections. -/
def Section.listLexemes : List Section → List Lexeme
  | [] => []
  | s :: rest =>
    .tagOpen :: .identifier (s.name?.getD "") :: (s.arguments.lexemes ++ .tagClose ::
      (s.bodyLexemes ++ Section.listLexemes rest))

end

namespace Grammar

/-! ### Deriving arguments -/

theorem foldl_add_positional (args : Arguments) (values : List Value) :
    (values.map fun value => ((none : Option String), value)).foldl
        (fun args s => args.add s.1 s.2) args =
      { args with positional := args.positional ++ values } := by
  induction values generalizing args with
  | nil => simp
  | cons value values ih =>
    rw [List.map_cons, List.foldl_cons, ih]
    simp [Arguments.add]

theorem assign_of_not_mem {key : String} {entries : List (String × Value)}
    (h : key ∉ entries.map Prod.fst) (value : Value) :
    NamedArguments.assign key value entries = entries ++ [(key, value)] := by
  induction entries with
  | nil => rfl
  | cons entry entries ih =>
    rw [List.map_cons, List.mem_cons, not_or] at h
    rw [NamedArguments.assign, if_neg (Ne.symm h.1), ih h.2, List.cons_append]

theorem foldl_add_named (positional : List Value) (entries : List (String × Value)) :
    ∀ (named : NamedArguments) (h : ((named.entries ++ entries).map Prod.fst).Nodup),
      (entries.map fun entry => (some entry.1, entry.2)).foldl
          (fun args s => args.add s.1 s.2) (⟨positional, named⟩ : Arguments) =
        ⟨positional, ⟨named.entries ++ entries, h⟩⟩ := by
  induction entries with
  | nil =>
    intro named h
    simp
  | cons entry entries ih =>
    intro named h
    have hkey : entry.1 ∉ named.entries.map Prod.fst := by
      rw [List.map_append, List.nodup_append] at h
      exact fun hmem => h.2.2 _ hmem _ (List.mem_cons_self ..) rfl
    -- No key comes twice, so each entry goes to the end.
    have hassign := assign_of_not_mem hkey entry.2
    have hinsert : (named.insert entry.1 entry.2).entries ++ entries =
        named.entries ++ entry :: entries := by
      simp [NamedArguments.insert, hassign]
    rw [List.map_cons, List.foldl_cons]
    have h' := ih (named.insert entry.1 entry.2) (hinsert ▸ h)
    simp only [hinsert] at h'
    exact h'

/-- The slots of arguments make these arguments. -/
theorem collects_slots (args : Arguments) : Collects args.slots args := by
  obtain ⟨positional, named, hnodup⟩ := args
  rw [collects_iff, collect, Arguments.slots, List.foldl_append, foldl_add_positional,
    foldl_add_named _ _ _ (by simpa using hnodup)]
  simp

theorem slots_wellFormed {args : Arguments} (h : args.WellFormed) :
    ∀ s ∈ args.slots, SlotWellFormed s := by
  rw [Arguments.slots, List.forall_mem_append]
  constructor
  · intro s hs
    obtain ⟨value, hvalue, rfl⟩ := List.mem_map.mp hs
    exact ⟨nofun, h.1 value hvalue⟩
  · intro s hs
    obtain ⟨entry, hentry, rfl⟩ := List.mem_map.mp hs
    refine ⟨?_, (h.2 entry hentry).2⟩
    rintro key ⟨⟩
    exact (h.2 entry hentry).1

theorem slots_ne_nil {args : Arguments} (h : args.isEmpty = false) : args.slots ≠ [] := by
  intro hslots
  obtain ⟨hpositional, hnamed⟩ := List.append_eq_nil_iff.mp hslots
  rw [Arguments.isEmpty, List.map_eq_nil_iff.mp hpositional, List.map_eq_nil_iff.mp hnamed] at h
  cases h

theorem operand_lexemes : ∀ {v : Value}, v.StandsRight → ∃ l, v.lexemes = [l] ∧ Operand l v
  | .variable name, _ => ⟨_, rfl, .name name⟩
  | .string text, _ => ⟨_, rfl, .string text⟩

theorem primary_lexemes : ∀ {v : Value}, v.StandsLeft → ∃ l, v.lexemes = [l] ∧ Primary l v
  | .variable name, _ => ⟨_, rfl, .name name⟩
  | .string text, _ => ⟨_, rfl, .literal (.string text)⟩
  | .number digits, _ => ⟨_, rfl, .literal (.number digits)⟩

theorem expr_lexemes {v : Value} (h : v.WellFormed) : Expr v.lexemes v := by
  have hprimary : v.StandsLeft → Expr v.lexemes v := by
    intro h
    obtain ⟨l, hl, hv⟩ := primary_lexemes h
    exact hl ▸ .primary hv
  cases v with
  | comparison op left right =>
    obtain ⟨l, hl, hleft⟩ := primary_lexemes h.1
    obtain ⟨r, hr, hright⟩ := operand_lexemes h.2
    rw [Value.lexemes, hl, hr]
    exact .comparison op hleft hright
  | _ => exact hprimary h

theorem slots_lexemes {slots : List (Option String × Value)}
    (h : ∀ s ∈ slots, SlotWellFormed s) : Slots (slots.flatMap slotLexemes) slots := by
  induction slots with
  | nil => exact .nil
  | cons s slots ih =>
    obtain ⟨⟨-, hs⟩, hslots⟩ := List.forall_mem_cons.mp h
    obtain ⟨key?, value⟩ := s
    rw [List.flatMap_cons]
    refine .cons ?_ (ih hslots)
    cases key? with
    | none => exact .positional (expr_lexemes hs)
    | some key => exact .named key (expr_lexemes hs)

/-! ### Deriving a template -/

variable {keyword : String → String → Bool}

/-- An expression is derived from its lexemes. -/
theorem tag_lexemes : ∀ {v : Value}, v.WellFormed → Tag v.lexemes (.expression v)
  | .variable name, _ => .name name
  | .string text, _ => .literal (.string text)
  | .number digits, _ => .literal (.number digits)
  | .comparison op (.variable name) right, h => by
    obtain ⟨r, hr, hright⟩ := operand_lexemes h.2
    rw [Value.lexemes, hr]
    exact .comparison name op hright
  | .comparison op (.string text) right, h => by
    obtain ⟨r, hr, hright⟩ := operand_lexemes h.2
    rw [Value.lexemes, hr]
    exact .literalComparison op (.string text) hright
  | .comparison op (.number digits) right, h => by
    obtain ⟨r, hr, hright⟩ := operand_lexemes h.2
    rw [Value.lexemes, hr]
    exact .literalComparison op (.number digits) hright

mutual

theorem oneItem_lexemes : ∀ {b : Option String} {item : Item}, item.WellFormed keyword →
    item.OpensNoSection keyword b → OneItem keyword b item.lexemes item
  | _, .text c, _, _ => .text c
  | _, .expression _, h, hsection =>
    .tag (tag_lexemes h) ((tag_lexemes h).opensNoSection_iff.mp hsection)
  | _, .call ⟨name, args⟩, h, hsection => by
    have htag : Tag _ (.call ⟨name, args⟩) := .call name
      (slots_lexemes (slots_wellFormed h.2.1)) (slots_ne_nil h.2.2) (collects_slots args)
    exact .tag htag (htag.opensNoSection_iff.mp hsection)
  | _, .block _, h, _ => .block (oneBlock_lexemes h)

theorem oneBlock_lexemes : ∀ {block : Block}, block.WellFormed keyword →
    OneBlock keyword block.lexemes block
  | ⟨name, args, ⟨name?, mainArgs, items⟩, sections⟩, ⟨_, hargs, hmain, hsections⟩ => by
    obtain ⟨rfl, rfl, hitems, -⟩ := hmain
    exact .mk name (slots_lexemes (slots_wellFormed hargs)) (collects_slots args)
      (items_lexemes hitems) (sections_lexemes hsections)

theorem items_lexemes : ∀ {b : Option String} {items : List Item},
    Item.ListWellFormed keyword b items → Items keyword b (Item.listLexemes items) items
  | _, [], _ => .nil
  | _, _ :: _, ⟨⟨hitem, hsection, _⟩, hrest⟩ =>
    .cons (oneItem_lexemes hitem hsection) (items_lexemes hrest)

theorem sections_lexemes : ∀ {n : String} {sections : List Section},
    Section.ListWellFormed keyword n sections →
    Sections keyword n (Section.listLexemes sections) sections
  | _, [], _ => .nil
  | _, ⟨_, args, items⟩ :: _, ⟨⟨⟨name, hname, _, hkeyword, hargs⟩, hitems, _⟩, hrest⟩ => by
    obtain rfl := hname
    exact .cons hkeyword (slots_lexemes (slots_wellFormed hargs)) (collects_slots args)
      (items_lexemes hitems) (sections_lexemes hrest)

end

end Grammar

/-! ### Writing a template -/

/-- A lexeme inside a tag that does not close it. -/
def Lexeme.StaysInside (l : Lexeme) : Prop :=
  l.Valid ∧ l.modeOf = .tag ∧ l.modeAfter .tag = .tag ∧ l.kind ≠ .text

theorem Value.staysInside_lexemes : ∀ {v : Value}, v.WellFormed →
    ∀ l ∈ v.lexemes, l.StaysInside := by
  have hleft : ∀ {v : Value}, v.StandsLeft → ∀ l ∈ v.lexemes, l.StaysInside := by
    intro v h l hl
    obtain ⟨m, hm, hv⟩ := Grammar.primary_lexemes h
    rw [hm, List.mem_singleton] at hl
    subst hl
    rcases hv with n | ⟨s | d⟩
    · exact ⟨h, rfl, rfl, nofun⟩
    · exact ⟨trivial, rfl, rfl, nofun⟩
    · exact ⟨h, rfl, rfl, nofun⟩
  have hright : ∀ {v : Value}, v.StandsRight → ∀ l ∈ v.lexemes, l.StaysInside := by
    intro v h l hl
    obtain ⟨m, hm, hv⟩ := Grammar.operand_lexemes h
    rw [hm, List.mem_singleton] at hl
    subst hl
    rcases hv with n | s
    · exact ⟨h, rfl, rfl, nofun⟩
    · exact ⟨trivial, rfl, rfl, nofun⟩
  intro v h
  cases v with
  | comparison op left right =>
    rw [Value.lexemes, List.forall_mem_append, List.forall_mem_cons]
    exact ⟨hleft h.1, ⟨trivial, rfl, rfl, nofun⟩, hright h.2⟩
  | _ => exact hleft h

theorem Arguments.staysInside_lexemes {args : Arguments} (h : args.WellFormed) :
    ∀ l ∈ args.lexemes, l.StaysInside := by
  intro l hl
  obtain ⟨s, hs, hl⟩ := List.mem_flatMap.mp hl
  obtain ⟨hkey, hvalue⟩ := Grammar.slots_wellFormed h s hs
  obtain ⟨key?, value⟩ := s
  cases key? with
  | none => exact Value.staysInside_lexemes hvalue l hl
  | some key =>
    rcases List.mem_cons.mp hl with rfl | hl
    · exact ⟨hkey key rfl, rfl, rfl, nofun⟩
    rcases List.mem_cons.mp hl with rfl | hl
    · exact ⟨trivial, rfl, rfl, nofun⟩
    · exact Value.staysInside_lexemes hvalue l hl

theorem Writable.cons_of_kind_ne_text {mode : Mode} {l : Lexeme} {ls : List Lexeme}
    (hvalid : l.Valid) (hmode : l.modeOf = mode) (hkind : l.kind ≠ .text)
    (h : Writable (l.modeAfter mode) ls) : Writable mode (l :: ls) :=
  .cons hvalid hmode (fun m _ => Lexeme.before_of_kind_ne_text hkind m) h

/-- Behind the opening of a tag, what stays inside of it and then its `}}` can be written. -/
theorem writable_inside {as rest : List Lexeme} (has : ∀ a ∈ as, a.StaysInside)
    (h : Writable .text rest) : Writable .tag (as ++ .tagClose :: rest) := by
  induction as with
  | nil => exact .cons_of_kind_ne_text trivial rfl (by decide) h
  | cons a as ih =>
    obtain ⟨⟨hvalid, hmode, hafter, hkind⟩, has⟩ := List.forall_mem_cons.mp has
    exact .cons_of_kind_ne_text hvalid hmode hkind (hafter.symm ▸ ih has)

/-- A whole tag can be written outside of tags. -/
theorem writable_tag {l : Lexeme} {as rest : List Lexeme} (hl : l.opensTag)
    (has : ∀ a ∈ as, a.StaysInside) (h : Writable .text rest) :
    Writable .text (l :: (as ++ .tagClose :: rest)) := by
  have hinside := writable_inside has h
  rcases hl with rfl | rfl | rfl
  · exact .cons_of_kind_ne_text trivial rfl (by decide) hinside
  · exact .cons_of_kind_ne_text trivial rfl (by decide) hinside
  · exact .cons_of_kind_ne_text trivial rfl (by decide) hinside

/-- Whether lexemes start with one that is no text. -/
def StartsNoText (ls : List Lexeme) : Prop :=
  ∃ l ms, ls = l :: ms ∧ l.kind ≠ .text

theorem StartsNoText.append {ls : List Lexeme} (h : StartsNoText ls) (rest : List Lexeme) :
    StartsNoText (ls ++ rest) := by
  obtain ⟨l, ms, rfl, hl⟩ := h
  exact ⟨l, ms ++ rest, rfl, hl⟩

/-- An item that is no text starts with an open tag. -/
theorem Item.startsNoText : ∀ {item : Item}, item.isText = false → StartsNoText item.lexemes
  | .expression _, _ => ⟨_, _, rfl, nofun⟩
  | .call _, _ => ⟨_, _, rfl, nofun⟩
  | .block ⟨_, _, _, _⟩, _ => ⟨_, _, rfl, nofun⟩

theorem Section.startsNoText {sections : List Section} {rest : List Lexeme}
    (h : StartsNoText rest) : StartsNoText (Section.listLexemes sections ++ rest) := by
  cases sections with
  | nil => exact h
  | cons => exact ⟨_, _, rfl, nofun⟩

/-- Whether lexemes may follow on an item. -/
def Item.BeforeLexemes (item : Item) (ls : List Lexeme) : Prop :=
  ∀ content, item = .text content → ∀ m ∈ ls.head?, (Lexeme.text content).Before m

theorem Item.beforeLexemes_of_startsNoText {item : Item} {ls : List Lexeme}
    (h : StartsNoText ls) (hbrace : item.endsWithBrace = false) : item.BeforeLexemes ls := by
  obtain ⟨l, ms, rfl, hl⟩ := h
  rintro content rfl _ ⟨⟩ _ ⟨⟩
  exact ⟨hl, of_decide_eq_false hbrace⟩

theorem Item.Before.beforeLexemes {item next : Item} {rest : List Lexeme}
    (h : item.Before next) : item.BeforeLexemes (next.lexemes ++ rest) := by
  rintro content rfl
  obtain ⟨hnext, hbrace⟩ := h rfl
  exact Item.beforeLexemes_of_startsNoText ((Item.startsNoText hnext).append rest) hbrace
    content rfl

variable {keyword : String → String → Bool}

mutual

theorem Item.writable : ∀ {item : Item} {rest : List Lexeme}, item.WellFormed keyword →
    item.BeforeLexemes rest → Writable .text rest → Writable .text (item.lexemes ++ rest)
  | .text c, _, h, hnext, hrest => by
    refine .cons ⟨fun hc => h.1 ?_, h.2⟩ rfl (hnext c rfl) hrest
    exact String.toList_eq_nil_iff.mp hc
  | .expression v, _, h, _, hrest => by
    have h := writable_tag (.inl rfl) (Value.staysInside_lexemes h) hrest
    simpa only [Item.lexemes, List.cons_append, List.append_assoc, List.nil_append] using h
  | .call ⟨name, args⟩, _, h, _, hrest => by
    have hname : (Lexeme.identifier name).StaysInside := ⟨h.1, rfl, rfl, nofun⟩
    have h := writable_tag (.inl rfl)
      (List.forall_mem_cons.mpr ⟨hname, Arguments.staysInside_lexemes h.2.1⟩) hrest
    simpa only [Item.lexemes, List.cons_append, List.append_assoc, List.nil_append] using h
  | .block _, _, h, _, hrest => Block.writable h hrest

theorem Block.writable : ∀ {block : Block} {rest : List Lexeme}, block.WellFormed keyword →
    Writable .text rest → Writable .text (block.lexemes ++ rest)
  | ⟨name, args, main, sections⟩, rest, ⟨hn, hargs, ⟨_, _, hmain⟩, hsections⟩, hrest => by
    have hname : (Lexeme.identifier name).StaysInside := ⟨hn, rfl, rfl, nofun⟩
    have hclose : Writable .text (.blockClose :: ([.identifier name] ++ .tagClose :: rest)) :=
      writable_tag (.inr (.inr rfl)) (List.forall_mem_singleton.mpr hname) hrest
    have hhead : StartsNoText (.blockClose :: ([.identifier name] ++ .tagClose :: rest)) :=
      ⟨_, _, rfl, nofun⟩
    have hbody := Section.bodyWritable hmain (Section.startsNoText hhead)
      (Section.listWritable hsections hhead hclose)
    have h := writable_tag (.inr (.inl rfl))
      (List.forall_mem_cons.mpr ⟨hname, Arguments.staysInside_lexemes hargs⟩) hbody
    simpa only [Block.lexemes, List.cons_append, List.append_assoc, List.nil_append] using h

/-- The items of a section can be written in front of what is no text. -/
theorem Section.bodyWritable : ∀ {n : String} {s : Section} {rest : List Lexeme},
    s.BodyWellFormed keyword n → StartsNoText rest → Writable .text rest →
    Writable .text (s.bodyLexemes ++ rest)
  | _, ⟨_, _, _⟩, _, ⟨hitems, hlast⟩, hhead, hrest =>
    Item.listWritable hitems
      (fun item hitem => Item.beforeLexemes_of_startsNoText hhead (hlast item hitem)) hrest

theorem Item.listWritable : ∀ {b : Option String} {items : List Item} {rest : List Lexeme},
    Item.ListWellFormed keyword b items → (∀ item ∈ items.getLast?, item.BeforeLexemes rest) →
    Writable .text rest → Writable .text (Item.listLexemes items ++ rest)
  | _, [], _, _, _, hrest => hrest
  | _, item :: items, rest, ⟨⟨hitem, _, hbefore⟩, hitems⟩, hlast, hrest => by
    rw [Item.listLexemes, List.append_assoc]
    -- What follows on the item is the next one, or the rest if it is the last.
    refine Item.writable hitem ?_ (Item.listWritable hitems (fun last hmem => ?_) hrest)
    · rcases items with _ | ⟨next, items⟩
      · exact hlast item rfl
      · rw [Item.listLexemes, List.append_assoc]
        exact (hbefore next rfl).beforeLexemes
    · rcases items with _ | ⟨next, items⟩
      · cases hmem
      · exact hlast last (by rwa [List.getLast?_cons_cons])

theorem Section.listWritable : ∀ {n : String} {sections : List Section} {rest : List Lexeme},
    Section.ListWellFormed keyword n sections → StartsNoText rest → Writable .text rest →
    Writable .text (Section.listLexemes sections ++ rest)
  | _, [], _, _, _, hrest => hrest
  | _, s :: sections, rest, ⟨⟨⟨name, hname, hn, _, hargs⟩, hitems⟩, hmore⟩, hhead, hrest => by
    have hkeyword : (Lexeme.identifier name).StaysInside := ⟨hn, rfl, rfl, nofun⟩
    have hbody := Section.bodyWritable hitems (Section.startsNoText hhead)
      (Section.listWritable hmore hhead hrest)
    have h := writable_tag (.inl rfl)
      (List.forall_mem_cons.mpr ⟨hkeyword, Arguments.staysInside_lexemes hargs⟩) hbody
    simpa only [Section.listLexemes, hname, Option.getD_some, List.cons_append,
      List.append_assoc, List.nil_append] using h

end

/-- The templates of sources are the well-formed ones. -/
theorem Template.exists_ofSource_iff (dialect : Dialect) (template : Template) :
    (∃ source, Template.ofSource dialect source = .ok template) ↔
      template.WellFormed dialect := by
  constructor
  · rintro ⟨source, h⟩
    exact Template.wellFormed_of_ofSource h
  · rintro ⟨hitems, hdepth⟩
    have hderives : Grammar.Derives dialect.isSectionKeyword (Item.listLexemes template.items)
        template := Grammar.items_lexemes hitems
    have hend : Writable .text [] := ⟨nofun, trivial, .nil⟩
    have hlast : ∀ item ∈ template.items.getLast?, item.BeforeLexemes [] := fun _ _ _ _ => nofun
    have hwritable := Item.listWritable hitems hlast hend
    rw [List.append_nil] at hwritable
    obtain ⟨source, hsource⟩ := Scanner.exists_source_iff.mpr hwritable
    refine ⟨source, Grammar.ofSource_eq_ok_iff_ofTokens.mpr ?_⟩
    exact Grammar.Derives.ofTokens (hsource.symm ▸ hderives) hdepth _

end Stencil
