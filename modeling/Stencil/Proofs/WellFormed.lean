/-
Well-formed templates.

`Template.WellFormed dialect template` says of a template, without a word about its source, what
the template of a source is like:

* names and numbers are spelled as such, and only a primary value and an operand are compared
  (`Value.WellFormed`);
* texts are not empty, hold no `{{` and do not touch one another, and only the last item of the
  template may be a text that ends with a `{` (`Item.Before`);
* a call has arguments, main sections have no heading, and the other sections are headed by a
  keyword of their block, with which no item directly inside the block starts;
* blocks nest no deeper than the dialect lets them.

`Template.wellFormed_of_ofSource` shows that the template of a source is well-formed, by
induction on the derivation from the lexemes of the source.
-/
import Mathlib
import Stencil.Proofs.Grammar.Derived
import Stencil.Proofs.Writing

namespace Stencil

/-! ### Values and arguments -/

namespace Value

/-- A value that may stand on the right of a comparison: a name or a quoted text. -/
def StandsRight : Value → Prop
  | .variable name => isName name.toList = true
  | .string _ => True
  | .number _ | .comparison .. => False

/-- A value that may stand on the left of a comparison: a name, a quoted text or a number. -/
def StandsLeft : Value → Prop
  | .variable name => isName name.toList = true
  | .string _ => True
  | .number digits => isNumber digits.toList = true
  | .comparison .. => False

/-- A value of a tag or an argument: at most one comparison. -/
def WellFormed : Value → Prop
  | .comparison _ left right => left.StandsLeft ∧ right.StandsRight
  | value => value.StandsLeft

theorem StandsLeft.wellFormed {v : Value} (h : v.StandsLeft) : v.WellFormed := by
  cases v with
  | comparison => cases h
  | _ => exact h

end Value

/-- Arguments with well-formed values, under keys that are names. -/
def Arguments.WellFormed (args : Arguments) : Prop :=
  (∀ value ∈ args.positional, value.WellFormed) ∧
    ∀ entry ∈ args.named.entries, isName entry.1.toList = true ∧ entry.2.WellFormed

/-! ### Items, blocks and sections -/

namespace Item

def isText : Item → Bool
  | .text _ => true
  | _ => false

/-- Whether the item is a text that ends with a `{`. -/
def endsWithBrace : Item → Bool
  | .text content => content.toList.getLast? = some '{'
  | _ => false

/-- Whether an item may follow on another one. -/
def Before (item next : Item) : Prop :=
  item.isText = true → next.isText = false ∧ item.endsWithBrace = false

/-- The name with which a tag starts. -/
def leadingName? : Item → Option String
  | .expression (.variable name) => some name
  | .expression (.comparison _ (.variable name) _) => some name
  | .call ⟨name, _⟩ => some name
  | _ => none

/-- Whether the item, directly inside the block named `block?`, starts with no keyword. -/
def OpensNoSection (keyword : String → String → Bool) (block? : Option String) (item : Item) :
    Prop :=
  ∀ block name, block? = some block → item.leadingName? = some name →
    keyword block name = false

end Item

/-- Whether a section is headed by a keyword of the block. -/
def Section.HeadedIn (keyword : String → String → Bool) (block : String) (s : Section) : Prop :=
  ∃ name, s.name? = some name ∧ isName name.toList = true ∧ keyword block name = true ∧
    s.arguments.WellFormed

mutual

def Item.WellFormed (keyword : String → String → Bool) : Item → Prop
  | .text content => content ≠ "" ∧ ¬openBraces <:+: content.toList
  | .expression value => value.WellFormed
  | .call call =>
    isName call.name.toList = true ∧ call.arguments.WellFormed ∧ call.arguments.isEmpty = false
  | .block block => block.WellFormed keyword

def Block.WellFormed (keyword : String → String → Bool) : Block → Prop
  | ⟨name, args, main, sections⟩ =>
    isName name.toList = true ∧ args.WellFormed ∧
      (main.name? = none ∧ main.arguments = {} ∧ main.BodyWellFormed keyword name) ∧
      Section.ListWellFormed keyword name sections

/-- Whether the items of a section are well-formed where they stand.  A tag follows on them. -/
def Section.BodyWellFormed (keyword : String → String → Bool) (block : String) : Section → Prop
  | ⟨_, _, items⟩ =>
    Item.ListWellFormed keyword (some block) items ∧
      ∀ item ∈ items.getLast?, item.endsWithBrace = false

/-- Whether items are well-formed directly inside the block named `block?`. -/
def Item.ListWellFormed (keyword : String → String → Bool) (block? : Option String) :
    List Item → Prop
  | [] => True
  | item :: rest =>
    (item.WellFormed keyword ∧ item.OpensNoSection keyword block? ∧
        ∀ next ∈ rest.head?, item.Before next) ∧
      Item.ListWellFormed keyword block? rest

/-- Whether sections are well-formed in a block. -/
def Section.ListWellFormed (keyword : String → String → Bool) (block : String) :
    List Section → Prop
  | [] => True
  | s :: rest =>
    (s.HeadedIn keyword block ∧ s.BodyWellFormed keyword block) ∧
      Section.ListWellFormed keyword block rest

end

/-- Whether the template is one that a source can have. -/
def Template.WellFormed (dialect : Dialect) (template : Template) : Prop :=
  Item.ListWellFormed dialect.isSectionKeyword none template.items ∧
    template.nesting ≤ dialect.maxDepth

namespace Grammar

/-! ### Values of a derivation -/

theorem Operand.standsRight {l : Lexeme} {v : Value} (h : Operand l v) (hl : l.Valid) :
    v.StandsRight := by
  cases h with
  | name => exact hl
  | string => trivial

theorem Literal.standsLeft {l : Lexeme} {v : Value} (h : Literal l v) (hl : l.Valid) :
    v.StandsLeft := by
  cases h with
  | string => trivial
  | number => exact hl

theorem Primary.standsLeft {l : Lexeme} {v : Value} (h : Primary l v) (hl : l.Valid) :
    v.StandsLeft := by
  cases h with
  | name => exact hl
  | literal h => exact h.standsLeft hl

theorem Expr.wellFormed {ls : List Lexeme} {v : Value} (h : Expr ls v)
    (hls : ∀ l ∈ ls, l.Valid) : v.WellFormed := by
  cases h with
  | primary h => exact (h.standsLeft (hls _ (by simp))).wellFormed
  | comparison op hl hr => exact ⟨hl.standsLeft (hls _ (by simp)), hr.standsRight (hls _ (by simp))⟩

/-- A slot with a well-formed value, under a key that is a name. -/
def SlotWellFormed (s : Option String × Value) : Prop :=
  (∀ key, s.1 = some key → isName key.toList = true) ∧ s.2.WellFormed

theorem Slots.wellFormed {ls : List Lexeme} {slots : List (Option String × Value)}
    (h : Slots ls slots) (hls : ∀ l ∈ ls, l.Valid) : ∀ s ∈ slots, SlotWellFormed s := by
  induction h with
  | nil => exact nofun
  | cons hs _ ih =>
    obtain ⟨hls, hms⟩ := List.forall_mem_append.mp hls
    refine List.forall_mem_cons.mpr ⟨?_, ih hms⟩
    cases hs with
    | positional h => exact ⟨nofun, h.wellFormed hls⟩
    | named k h =>
      refine ⟨?_, h.wellFormed fun l hl => hls l (by simp [hl])⟩
      rintro _ ⟨⟩
      exact hls _ (List.mem_cons_self ..)

theorem mem_assign {key : String} {value : Value} {entry : String × Value}
    {entries : List (String × Value)} (h : entry ∈ NamedArguments.assign key value entries) :
    entry = (key, value) ∨ entry ∈ entries := by
  induction entries with
  | nil => exact .inl (List.mem_singleton.mp h)
  | cons e entries ih =>
    rw [NamedArguments.assign] at h
    split at h
    · exact (List.mem_cons.mp h).imp id (List.mem_cons_of_mem _)
    · rcases List.mem_cons.mp h with rfl | h
      · exact .inr (List.mem_cons_self ..)
      · exact (ih h).imp id (List.mem_cons_of_mem _)

theorem wellFormed_add {args : Arguments} {s : Option String × Value} (h : args.WellFormed)
    (hs : SlotWellFormed s) : (args.add s.1 s.2).WellFormed := by
  obtain ⟨key?, value⟩ := s
  obtain ⟨hpositional, hnamed⟩ := h
  rcases key? with _ | key
  · refine ⟨fun v hv => ?_, hnamed⟩
    rcases List.mem_append.mp hv with hv | hv
    · exact hpositional v hv
    · rw [List.mem_singleton.mp hv]
      exact hs.2
  · refine ⟨hpositional, fun entry hentry => ?_⟩
    rcases mem_assign hentry with rfl | hentry
    · exact ⟨hs.1 key rfl, hs.2⟩
    · exact hnamed entry hentry

theorem wellFormed_collect {slots : List (Option String × Value)}
    (h : ∀ s ∈ slots, SlotWellFormed s) : (collect slots).WellFormed := by
  induction slots using List.reverseRecOn with
  | nil => exact ⟨nofun, nofun⟩
  | append_singleton slots s ih =>
    rw [collect_concat]
    obtain ⟨hslots, hs⟩ := List.forall_mem_append.mp h
    exact wellFormed_add (ih hslots) (hs s (List.mem_singleton_self s))

theorem isEmpty_collect {slots : List (Option String × Value)} (h : slots ≠ []) :
    (collect slots).isEmpty = false := by
  obtain ⟨slots, s, rfl⟩ := (List.eq_nil_or_concat slots).resolve_left h
  obtain ⟨key?, value⟩ := s
  rw [List.concat_eq_append, collect_concat]
  rcases key? with _ | key
  · simp [Arguments.add, Arguments.isEmpty]
  -- The key of the last slot is among the keys, wherever it stands there.
  · have hkey : key ∈ ((collect slots).named.insert key value).keys := by
      rw [NamedArguments.keys_insert]
      split
      next hkey => exact hkey
      next => simp
    cases hentries : ((collect slots).named.insert key value).entries with
    | nil => simp [NamedArguments.keys, hentries] at hkey
    | cons => simp [Arguments.add, Arguments.isEmpty, hentries]

theorem Slots.wellFormed_collects {ls : List Lexeme} {slots : List (Option String × Value)}
    {args : Arguments} (h : Slots ls slots) (hcollects : Collects slots args)
    (hls : ∀ l ∈ ls, l.Valid) : args.WellFormed := by
  rw [collects_iff.mp hcollects]
  exact wellFormed_collect (h.wellFormed hls)

/-! ### Items of a derivation -/

variable {keyword : String → String → Bool}

/-- The name with which a tag starts is that of its first lexeme. -/
theorem Tag.leadingName?_eq_some_iff {ls : List Lexeme} {item : Item} (h : Tag ls item)
    {name : String} :
    item.leadingName? = some name ↔ ls.head? = some (.identifier name) := by
  cases h with
  | name n => simp [Item.leadingName?]
  | comparison n op hr => simp [Item.leadingName?]
  | call n hslots hne hcollects => simp [Item.leadingName?]
  | literal h => cases h <;> simp [Item.leadingName?]
  | literalComparison op h hr => cases h <;> simp [Item.leadingName?]

/-- The item of a tag and its lexemes agree on whether the tag is a section header. -/
theorem Tag.opensNoSection_iff {b : Option String} {ls : List Lexeme} {item : Item}
    (h : Tag ls item) : item.OpensNoSection keyword b ↔ ¬StartsSection keyword b ls := by
  constructor
  · rintro hopens ⟨block, name, hblock, hname, hkeyword⟩
    rw [hopens block name hblock (h.leadingName?_eq_some_iff.mpr hname)] at hkeyword
    cases hkeyword
  · intro hsection block name hblock hname
    by_contra hkeyword
    rw [Bool.not_eq_false] at hkeyword
    exact hsection ⟨block, name, hblock, h.leadingName?_eq_some_iff.mp hname, hkeyword⟩

theorem Tag.wellFormed {ls : List Lexeme} {item : Item} (h : Tag ls item)
    (hls : ∀ l ∈ ls, l.Valid) : item.WellFormed keyword := by
  cases h with
  | name n =>
    have hn : (Lexeme.identifier n).Valid := hls _ (List.mem_singleton_self _)
    exact hn
  | comparison n op hr =>
    exact ⟨hls (.identifier n) (by simp), hr.standsRight (hls _ (by simp))⟩
  | @call ls slots args n hslots hne hcollects =>
    obtain ⟨hn, hls⟩ := List.forall_mem_cons.mp hls
    refine ⟨hn, hslots.wellFormed_collects hcollects hls, ?_⟩
    rw [collects_iff.mp hcollects]
    exact isEmpty_collect hne
  | literal h => exact (h.standsLeft (hls _ (by simp))).wellFormed
  | literalComparison op h hr =>
    exact ⟨h.standsLeft (hls _ (by simp)), hr.standsRight (hls _ (by simp))⟩

/-- An item that is a text starts with that text. -/
theorem Items.head_text {b : Option String} {ls : List Lexeme} {item : Item} {items : List Item}
    (h : Items keyword b ls (item :: items)) (htext : item.isText = true) :
    ∃ l, ls.head? = some l ∧ l.kind = .text := by
  cases h with
  | cons hitem _ =>
    cases hitem with
    | text c => exact ⟨_, rfl, rfl⟩
    | tag h => cases h <;> cases htext
    | block => cases htext

theorem Items.ne_nil {b : Option String} {ls : List Lexeme} {item : Item} {items : List Item}
    (h : Items keyword b ls (item :: items)) : ls ≠ [] := by
  cases h with
  | cons hitem _ =>
    cases hitem with
    | text c => exact List.cons_ne_nil _ _
    | tag h => exact List.cons_ne_nil _ _
    | block h =>
      cases h with
      | mk => exact List.cons_ne_nil _ _

/-- An item may stand in front of another one if its lexemes may. -/
theorem OneItem.before {b : Option String} {ls ms rest : List Lexeme} {item : Item}
    {items : List Item} (h : OneItem keyword b ls item) (hitems : Items keyword b ms items)
    (hchain : (ls ++ (ms ++ rest)).IsChain Lexeme.Before) :
    (∀ next ∈ items.head?, item.Before next) ∧
      (ms ++ rest ≠ [] → item.endsWithBrace = false) := by
  cases h with
  | text c =>
    have hnext := (List.isChain_cons.mp hchain).1
    -- Whatever lexeme follows on a text that ends with a `{`, the text could not precede it.
    have hbrace : ms ++ rest ≠ [] → (Item.text c).endsWithBrace = false := by
      intro hne
      obtain ⟨m, more, hm⟩ := List.exists_cons_of_ne_nil hne
      have hhead : (ms ++ rest).head? = some m := by rw [hm, List.head?_cons]
      exact decide_eq_false (hnext m hhead c rfl).2
    refine ⟨fun next hmem _ => ?_, hbrace⟩
    obtain ⟨others, rfl⟩ := List.head?_eq_some_iff.mp hmem
    refine ⟨?_, hbrace fun h => hitems.ne_nil (List.append_eq_nil_iff.mp h).1⟩
    by_contra htext
    obtain ⟨m, hm, hkind⟩ := hitems.head_text (Bool.not_eq_false _ ▸ htext)
    obtain ⟨more, rfl⟩ := List.head?_eq_some_iff.mp hm
    exact (hnext m rfl c rfl).1 hkind
  | tag h => cases h <;> exact ⟨fun _ _ => nofun, fun _ => rfl⟩
  | block => exact ⟨fun _ _ => nofun, fun _ => rfl⟩

mutual

/-- Items derived from lexemes that a source can have are well-formed where they stand, and
where something follows on their lexemes the last of them is no text that ends with a `{`. -/
theorem Items.wellFormed : ∀ {b : Option String} {ls rest : List Lexeme} {items : List Item},
    Items keyword b ls items → (∀ l ∈ ls, l.Valid) → (ls ++ rest).IsChain Lexeme.Before →
    Item.ListWellFormed keyword b items ∧
      (rest ≠ [] → ∀ item ∈ items.getLast?, item.endsWithBrace = false)
  | _, _, _, _, .nil, _, _ => ⟨trivial, fun _ => nofun⟩
  | _, _, rest, _, @Items.cons _ _ ls ms item items h hs, hvalid, hchain => by
    rw [List.append_assoc] at hchain
    obtain ⟨hls, hms⟩ := List.forall_mem_append.mp hvalid
    obtain ⟨hitems, hlast⟩ := Items.wellFormed hs hms hchain.right_of_append
    obtain ⟨hbefore, hbrace⟩ := h.before hs hchain
    obtain ⟨hitem, hsection⟩ := OneItem.wellFormed h hls hchain.left_of_append
    refine ⟨⟨⟨hitem, hsection, hbefore⟩, hitems⟩, fun hrest last hmem => ?_⟩
    -- The last item is this one if no others follow, and the last of these otherwise.
    rcases items with _ | ⟨next, items⟩
    · cases hmem
      exact hbrace fun h => hrest (List.append_eq_nil_iff.mp h).2
    · rw [List.getLast?_cons_cons] at hmem
      exact hlast hrest last hmem

theorem OneItem.wellFormed : ∀ {b : Option String} {ls : List Lexeme} {item : Item},
    OneItem keyword b ls item → (∀ l ∈ ls, l.Valid) → ls.IsChain Lexeme.Before →
    item.WellFormed keyword ∧ item.OpensNoSection keyword b
  | _, _, _, .text c, hvalid, _ => by
    have hc : (Lexeme.text c).Valid := hvalid _ (List.mem_singleton_self _)
    refine ⟨⟨?_, hc.2⟩, nofun⟩
    rintro rfl
    exact hc.1 rfl
  | _, _, _, .tag h hsection, hvalid, _ =>
    ⟨h.wellFormed fun l hl => hvalid l (by simp [hl]), h.opensNoSection_iff.mpr hsection⟩
  | _, _, _, .block h, hvalid, hchain => ⟨OneBlock.wellFormed h hvalid hchain, nofun⟩

theorem OneBlock.wellFormed : ∀ {ls : List Lexeme} {block : Block},
    OneBlock keyword ls block → (∀ l ∈ ls, l.Valid) → ls.IsChain Lexeme.Before →
    block.WellFormed keyword
  | _, _, @OneBlock.mk _ as ms ss _ _ _ _ n hslots hcollects hmain hsections, hvalid, hchain => by
    simp only [List.forall_mem_cons, List.forall_mem_append] at hvalid
    obtain ⟨-, hn, has, -, hms, hss, -⟩ := hvalid
    -- What follows on the main part is never empty: it ends with the close tag.
    have hinner : List.IsChain Lexeme.Before
        (ms ++ (ss ++ [.blockClose, .identifier n, .tagClose])) :=
      hchain.suffix ⟨.blockOpen :: .identifier n :: (as ++ [.tagClose]), by simp⟩
    obtain ⟨hitems, hlast⟩ := Items.wellFormed hmain hms hinner
    have hrest := Sections.wellFormed hsections hss hinner.right_of_append (List.cons_ne_nil _ _)
    exact ⟨hn, hslots.wellFormed_collects hcollects has,
      ⟨rfl, rfl, hitems, hlast (List.append_ne_nil_of_right_ne_nil _ (List.cons_ne_nil _ _))⟩,
      hrest⟩

theorem Sections.wellFormed : ∀ {n : String} {ls rest : List Lexeme} {sections : List Section},
    Sections keyword n ls sections → (∀ l ∈ ls, l.Valid) →
    (ls ++ rest).IsChain Lexeme.Before → rest ≠ [] →
    Section.ListWellFormed keyword n sections
  | _, _, _, _, .nil, _, _, _ => trivial
  | _, _, rest, _, @Sections.cons _ n k as ms ss _ _ _ _ hk hslots hcollects hitems hsections,
      hvalid, hchain, hrest => by
    simp only [List.forall_mem_cons, List.forall_mem_append] at hvalid
    obtain ⟨-, hname, has, -, hms, hss⟩ := hvalid
    have hinner : (ms ++ (ss ++ rest)).IsChain Lexeme.Before :=
      hchain.suffix ⟨.tagOpen :: .identifier k :: (as ++ [.tagClose]), by simp⟩
    obtain ⟨hbody, hlast⟩ := Items.wellFormed hitems hms hinner
    have hmore := Sections.wellFormed hsections hss hinner.right_of_append hrest
    exact ⟨⟨⟨k, rfl, hname, hk, hslots.wellFormed_collects hcollects has⟩,
      hbody, hlast (List.append_ne_nil_of_right_ne_nil _ hrest)⟩, hmore⟩

end

end Grammar

/-- The template of a source is well-formed. -/
theorem Template.wellFormed_of_ofSource {dialect : Dialect} {source : String}
    {template : Template} (h : Template.ofSource dialect source = .ok template) :
    template.WellFormed dialect := by
  obtain ⟨hderives, hdepth⟩ :=
    Grammar.ofTokens_eq_ok_iff.mp (Grammar.ofSource_eq_ok_iff_ofTokens.mp h)
  obtain ⟨hvalid, -, hchain⟩ := Scanner.writable_tokens source
  rw [← List.append_nil (List.map Token.lexeme _)] at hchain
  have hitems := Grammar.Items.wellFormed hderives hvalid hchain
  exact ⟨hitems.1, hdepth⟩

end Stencil
