/-
Templates under fewer keywords.

A source that has a template in one dialect has one in every dialect that lets blocks nest as
deep and knows only some of the keywords.  Where a keyword is lost, the header of its section is
read as the tag that it looks like: the section dissolves, and its header and its items go to
the end of the section before it (`Block.demote`).

* `Grammar.Items.demote` — lexemes that derive items derive the demoted ones under fewer
  keywords, by induction on the derivation;
* `nesting_demote` — no block is lost or moved into another one;
* `Draft.extend_of_keywords_eq` — reading a token asks only for the keywords of the innermost block;
* `Template.ofSource_demote` — the law for sources.
-/
import Mathlib
import Stencil.Proofs.Refusal
import Stencil.Proofs.WellFormed

namespace Stencil

/-! ### Demoted templates -/

/-- The tag that the header of a section is where its keyword opens none. -/
def Section.header (keyword : String) (args : Arguments) : Item :=
  if args.isEmpty then .expression (.variable keyword) else .call ⟨keyword, args⟩

mutual

/-- The item with all its blocks demoted. -/
def Item.demote (keyword : String → String → Bool) : Item → Item
  | .text content => .text content
  | .expression value => .expression value
  | .call call => .call call
  | .block block => .block (block.demote keyword)

/-- The block without the sections whose keyword is not one of the block's name.  What they held
is at the end of the section before them. -/
def Block.demote (keyword : String → String → Bool) : Block → Block
  | ⟨name, args, ⟨name?, mainArgs, items⟩, sections⟩ =>
    let (dissolved, kept) := Section.listDemote keyword name sections
    ⟨name, args, ⟨name?, mainArgs, Item.listDemote keyword items ++ dissolved⟩, kept⟩

/-- The items with all their blocks demoted. -/
def Item.listDemote (keyword : String → String → Bool) : List Item → List Item
  | [] => []
  | item :: rest => item.demote keyword :: Item.listDemote keyword rest

/-- What becomes of sections of the block `block`: the items of those in front that dissolve,
which belong to the section before them, and the sections that are kept. -/
def Section.listDemote (keyword : String → String → Bool) (block : String) :
    List Section → List Item × List Section
  | [] => ([], [])
  | ⟨name?, args, items⟩ :: rest =>
    let (dissolved, kept) := Section.listDemote keyword block rest
    let items := Item.listDemote keyword items ++ dissolved
    match name? with
    | none => ([], ⟨none, args, items⟩ :: kept)
    | some name =>
      if keyword block name then ([], ⟨some name, args, items⟩ :: kept)
      else (Section.header name args :: items, kept)

end

/-- The template with all its blocks demoted. -/
def Template.demote (keyword : String → String → Bool) (template : Template) : Template :=
  ⟨Item.listDemote keyword template.items⟩

variable {keyword keyword' : String → String → Bool}

namespace Section

/-- A section behind a keyword of the block is kept. -/
theorem listDemote_of_keyword {block name : String} (h : keyword block name = true)
    (args : Arguments) (items : List Item) (rest : List Section) :
    listDemote keyword block (⟨some name, args, items⟩ :: rest) =
      ([], ⟨some name, args, Item.listDemote keyword items ++
        (listDemote keyword block rest).1⟩ :: (listDemote keyword block rest).2) := by
  rw [listDemote]
  exact if_pos h

/-- A section behind any other name dissolves. -/
theorem listDemote_of_not_keyword {block name : String} (h : keyword block name = false)
    (args : Arguments) (items : List Item) (rest : List Section) :
    listDemote keyword block (⟨some name, args, items⟩ :: rest) =
      (header name args :: (Item.listDemote keyword items ++
        (listDemote keyword block rest).1), (listDemote keyword block rest).2) := by
  rw [listDemote]
  exact if_neg (Bool.eq_false_iff.mp h)

theorem nesting_header (name : String) (args : Arguments) : (header name args).nesting = 0 := by
  rw [header]
  split <;> rfl

end Section

/-! ### Derivations -/

namespace Grammar

theorem StartsSection.mono (hsub : ∀ n k, keyword' n k = true → keyword n k = true)
    {b : Option String} {ls : List Lexeme} (h : StartsSection keyword' b ls) :
    StartsSection keyword b ls := by
  obtain ⟨n, k, hn, hk, hkeyword⟩ := h
  exact ⟨n, k, hn, hk, hsub n k hkeyword⟩

theorem Tag.demote {ls : List Lexeme} {item : Item} (h : Tag ls item) :
    item.demote keyword = item := by
  cases h with
  | name n => rfl
  | comparison n op hr => rfl
  | call n has hne hargs => rfl
  | literal hl => rfl
  | literalComparison op hl hr => rfl

/-- The header of a section is a tag. -/
theorem Slots.tag_header {as : List Lexeme} {slots : List (Option String × Value)}
    {args : Arguments} (has : Slots as slots) (hargs : Collects slots args) (k : String) :
    Tag (.identifier k :: as) (Section.header k args) := by
  rw [Section.header]
  cases has with
  | nil =>
    rw [collects_iff.mp hargs]
    exact .name k
  | cons hs hrest =>
    have hempty : args.isEmpty = false :=
      collects_iff.mp hargs ▸ isEmpty_collect (List.cons_ne_nil _ _)
    rw [hempty]
    exact .call k (.cons hs hrest) (List.cons_ne_nil _ _) hargs

mutual

theorem Items.demote (hsub : ∀ n k, keyword' n k = true → keyword n k = true) :
    ∀ {b : Option String} {ls : List Lexeme} {items : List Item}, Items keyword b ls items →
    Items keyword' b ls (Item.listDemote keyword' items)
  | _, _, _, .nil => .nil
  | _, _, _, .cons hitem hitems => .cons (hitem.demote hsub) (hitems.demote hsub)

theorem OneItem.demote (hsub : ∀ n k, keyword' n k = true → keyword n k = true) :
    ∀ {b : Option String} {ls : List Lexeme} {item : Item}, OneItem keyword b ls item →
    OneItem keyword' b ls (item.demote keyword')
  | _, _, _, .text c => .text c
  | _, _, _, .tag htag hstart => by
    rw [htag.demote]
    exact .tag htag fun h => hstart (h.mono hsub)
  | _, _, _, .block hblock => .block (hblock.demote hsub)

theorem OneBlock.demote (hsub : ∀ n k, keyword' n k = true → keyword n k = true) :
    ∀ {ls : List Lexeme} {block : Block}, OneBlock keyword ls block →
    OneBlock keyword' ls (block.demote keyword')
  | _, _, .mk n has hargs hmain hsections => by
    -- The sections that dissolve in front of all others are part of the main section.
    obtain ⟨ds, ss, rfl, hdissolved, hkept⟩ := hsections.demote hsub
    have h := OneBlock.mk n has hargs (hdissolved.append (hmain.demote hsub)) hkept
    rw [List.append_assoc] at h ⊢
    exact h

/-- Under fewer keywords the lexemes of sections are those of items, and then of sections. -/
theorem Sections.demote (hsub : ∀ n k, keyword' n k = true → keyword n k = true) :
    ∀ {n : String} {ls : List Lexeme} {sections : List Section}, Sections keyword n ls sections →
    ∃ ds ss, ls = ds ++ ss ∧
      Items keyword' (some n) ds (Section.listDemote keyword' n sections).1 ∧
      Sections keyword' n ss (Section.listDemote keyword' n sections).2
  | _, _, _, .nil => ⟨[], [], rfl, .nil, .nil⟩
  | n, _, _, @Sections.cons _ _ k as ms _ _ args items sections hk has hargs hitems hrest => by
    obtain ⟨ds, ss, rfl, hdissolved, hkept⟩ := hrest.demote hsub
    have hbody := hdissolved.append (hitems.demote hsub)
    cases hkeyword : keyword' n k with
    | true =>
      have h := Sections.cons hkeyword has hargs hbody hkept
      refine ⟨[], _, rfl, ?_, ?_⟩
      · rw [Section.listDemote_of_keyword hkeyword]
        exact .nil
      · rw [Section.listDemote_of_keyword hkeyword]
        simpa only [List.append_assoc] using h
    | false =>
      have hstart : ¬StartsSection keyword' (some n) (.identifier k :: as) := by
        rintro ⟨n', k', hn, hk', hkeyword'⟩
        cases hn
        cases hk'
        rw [hkeyword] at hkeyword'
        cases hkeyword'
      have h := Items.cons (.tag (has.tag_header hargs k) hstart) hbody
      rw [Section.listDemote_of_not_keyword hkeyword]
      refine ⟨_, ss, ?_, h, hkept⟩
      simp

end

end Grammar

/-! ### Nesting -/

mutual

theorem Item.nesting_demote (keyword : String → String → Bool) :
    ∀ item : Item, (item.demote keyword).nesting = item.nesting
  | .text _ => rfl
  | .expression _ => rfl
  | .call _ => rfl
  | .block block => block.nesting_demote keyword

theorem Block.nesting_demote (keyword : String → String → Bool) :
    ∀ block : Block, (block.demote keyword).nesting = block.nesting
  | ⟨name, _, ⟨_, _, items⟩, sections⟩ => by
    have hitems := Item.listNesting_demote keyword items
    have hsections := Section.listNesting_demote keyword name sections
    simp only [Block.demote, Block.nesting, Section.nesting, Item.listNesting_append]
    omega

theorem Item.listNesting_demote (keyword : String → String → Bool) : ∀ items : List Item,
    Item.listNesting (Item.listDemote keyword items) = Item.listNesting items
  | [] => rfl
  | item :: rest => by
    rw [Item.listDemote, Item.listNesting, Item.listNesting, item.nesting_demote keyword,
      Item.listNesting_demote keyword rest]

theorem Section.listNesting_demote (keyword : String → String → Bool) (block : String) :
    ∀ sections : List Section,
    max (Item.listNesting (Section.listDemote keyword block sections).1)
        (Section.listNesting (Section.listDemote keyword block sections).2) =
      Section.listNesting sections
  | [] => rfl
  | ⟨name?, args, items⟩ :: rest => by
    have hitems := Item.listNesting_demote keyword items
    have hrest := Section.listNesting_demote keyword block rest
    have hheader := fun name => Section.nesting_header name args
    rw [Section.listDemote.eq_def]
    simp only
    split
    next =>
      simp only [Item.listNesting, Section.listNesting, Section.nesting,
        Item.listNesting_append]
      omega
    next name =>
      split
      · simp only [Item.listNesting, Section.listNesting, Section.nesting,
          Item.listNesting_append]
        omega
      · simp only [Item.listNesting, Section.listNesting, Section.nesting,
          Item.listNesting_append, hheader]
        omega

end

/-! ### Keywords that open no section -/

mutual

/-- Whether a block `block` in the item has a section behind `keyword`. -/
def Item.OpensSection (block keyword : String) : Item → Prop
  | .text _ => False
  | .expression _ => False
  | .call _ => False
  | .block b => b.OpensSection block keyword

/-- Whether the block, or one inside of it, is a block `block` with a section behind
`keyword`. -/
def Block.OpensSection (block keyword : String) : Block → Prop
  | ⟨name, _, ⟨_, _, items⟩, sections⟩ =>
    (name = block ∧ ∃ s ∈ sections, s.name? = some keyword) ∨
      Item.ListOpensSection block keyword items ∨
      Section.ListOpensSection block keyword sections

/-- Whether a block `block` in the items has a section behind `keyword`. -/
def Item.ListOpensSection (block keyword : String) : List Item → Prop
  | [] => False
  | item :: rest =>
    item.OpensSection block keyword ∨ Item.ListOpensSection block keyword rest

/-- Whether a block `block` in the sections has a section behind `keyword`. -/
def Section.ListOpensSection (block keyword : String) : List Section → Prop
  | [] => False
  | ⟨_, _, items⟩ :: rest =>
    Item.ListOpensSection block keyword items ∨ Section.ListOpensSection block keyword rest

end

/-- Whether a block `block` of the template has a section behind `keyword`. -/
def Template.OpensSection (block keyword : String) (template : Template) : Prop :=
  Item.ListOpensSection block keyword template.items

mutual

theorem Item.demote_eq_self : ∀ {item : Item},
    (∀ n k, item.OpensSection n k → keyword n k = true) → item.demote keyword = item
  | .text _, _ => rfl
  | .expression _, _ => rfl
  | .call _, _ => rfl
  | .block _, h => congrArg Item.block (Block.demote_eq_self h)

theorem Block.demote_eq_self : ∀ {block : Block},
    (∀ n k, block.OpensSection n k → keyword n k = true) → block.demote keyword = block
  | ⟨name, args, ⟨name?, mainArgs, items⟩, sections⟩, h => by
    have hitems := Item.listDemote_eq_self fun n k hopens => h n k (.inr (.inl hopens))
    have hsections := Section.listDemote_eq_self
      (fun s hs k hk => h name k (.inl ⟨rfl, s, hs, hk⟩))
      fun n k hopens => h n k (.inr (.inr hopens))
    simp only [Block.demote, hitems, hsections, List.append_nil]

theorem Item.listDemote_eq_self : ∀ {items : List Item},
    (∀ n k, Item.ListOpensSection n k items → keyword n k = true) →
    Item.listDemote keyword items = items
  | [], _ => rfl
  | item :: rest, h => by
    rw [Item.listDemote, Item.demote_eq_self fun n k hopens => h n k (.inl hopens),
      Item.listDemote_eq_self fun n k hopens => h n k (.inr hopens)]

/-- Where every section is behind a keyword of the block, none dissolves. -/
theorem Section.listDemote_eq_self {block : String} : ∀ {sections : List Section},
    (∀ s ∈ sections, ∀ k, s.name? = some k → keyword block k = true) →
    (∀ n k, Section.ListOpensSection n k sections → keyword n k = true) →
    Section.listDemote keyword block sections = ([], sections)
  | [], _, _ => rfl
  | ⟨name?, args, items⟩ :: rest, hnames, h => by
    obtain ⟨hname, hnames⟩ := List.forall_mem_cons.mp hnames
    have hitems := Item.listDemote_eq_self fun n k hopens => h n k (.inl hopens)
    have hrest := Section.listDemote_eq_self hnames fun n k hopens => h n k (.inr hopens)
    cases name? with
    | none =>
      rw [Section.listDemote, hrest, hitems]
      simp
    | some name =>
      rw [Section.listDemote_of_keyword (hname name rfl), hrest, hitems]
      simp

end

/-! ### Sources -/

/-- Reading a token asks only for the keywords of the innermost open block. -/
theorem Draft.extend_of_keywords_eq {dialect dialect' : Dialect} {draft : Draft}
    (hdepth : dialect'.maxDepth = dialect.maxDepth)
    (hkeywords : ∀ block ∈ draft.blocks.head?, ∀ k,
      dialect'.isSectionKeyword block.name k = dialect.isSectionKeyword block.name k)
    (token : Token) : draft.extend dialect' token = draft.extend dialect token := by
  refine extend_congr (fun _ => ?_) fun name => ?_
  · simp only [extendOutside, hdepth]
  · rw [opensSection, opensSection]
    cases hhead : draft.blocks.head? with
    | none => rfl
    | some block => exact hkeywords block hhead name

/-- With fewer keywords, a source that had a template still has one: the same, but for the
sections of the keywords that are gone.  Their headers are tags now, and these tags and the
items behind them belong to the section before.  A keyword that opens no section makes no
difference, and a keyword of one block name is never asked for where the innermost open block
has another name. -/
theorem Template.ofSource_demote {dialect dialect' : Dialect}
    (hdepth : dialect'.maxDepth = dialect.maxDepth)
    (hkeywords : ∀ n k, dialect'.isSectionKeyword n k = true →
      dialect.isSectionKeyword n k = true)
    {source : String} {template : Template} (h : ofSource dialect source = .ok template) :
    ofSource dialect' source = .ok (template.demote dialect'.isSectionKeyword) ∧
    ((∀ n k, template.OpensSection n k → dialect'.isSectionKeyword n k = true) →
      ofSource dialect' source = .ok template) ∧
    ∀ (draft : Draft) (token : Token), (∀ block ∈ draft.blocks.head?, ∀ k,
        dialect'.isSectionKeyword block.name k = dialect.isSectionKeyword block.name k) →
      draft.extend dialect' token = draft.extend dialect token := by
  obtain ⟨hderives, hnesting⟩ :=
    Grammar.ofTokens_eq_ok_iff.mp (Grammar.ofSource_eq_ok_iff_ofTokens.mp h)
  have hdemote : ofSource dialect' source =
      .ok (template.demote dialect'.isSectionKeyword) := by
    refine Grammar.ofSource_eq_ok_iff_ofTokens.mpr (Grammar.ofTokens_eq_ok_iff.mpr ⟨?_, ?_⟩)
    · exact Grammar.Items.demote hkeywords hderives
    · rw [Template.nesting, Template.demote, Item.listNesting_demote, hdepth]
      exact hnesting
  refine ⟨hdemote, fun hopens => ?_, fun draft token hhead => ?_⟩
  · have hself : template.demote dialect'.isSectionKeyword = template :=
      congrArg Template.mk (Item.listDemote_eq_self hopens)
    rwa [hself] at hdemote
  · exact Draft.extend_of_keywords_eq hdepth hhead token

/-- A `case` whose keyword is gone stands in front of a `default` that is kept. -/
theorem Template.ofSource_demote_case :
    ofSource ((Dialect.addSection {} "switch" "default").addSection "switch" "case")
        r"{{#switch v}}{{case 1}}a{{default}}b{{/switch}}" =
      .ok ⟨[.block ⟨"switch", ⟨[.variable "v"], {}⟩, .ofItems [],
        [⟨some "case", ⟨[.number "1"], {}⟩, [.text "a"]⟩, ⟨some "default", {}, [.text "b"]⟩]⟩]⟩ ∧
    ofSource (Dialect.addSection {} "switch" "default")
        r"{{#switch v}}{{case 1}}a{{default}}b{{/switch}}" =
      .ok ⟨[.block ⟨"switch", ⟨[.variable "v"], {}⟩,
        .ofItems [.call ⟨"case", ⟨[.number "1"], {}⟩⟩, .text "a"],
        [⟨some "default", {}, [.text "b"]⟩]⟩]⟩ := by
  have hsource : ofSource
      ((Dialect.addSection {} "switch" "default").addSection "switch" "case")
      r"{{#switch v}}{{case 1}}a{{default}}b{{/switch}}" =
      .ok ⟨[.block ⟨"switch", ⟨[.variable "v"], {}⟩, .ofItems [],
        [⟨some "case", ⟨[.number "1"], {}⟩, [.text "a"]⟩,
          ⟨some "default", {}, [.text "b"]⟩]⟩]⟩ := by
    cbv
  have hkeywords : ∀ n k,
      (Dialect.addSection {} "switch" "default").isSectionKeyword n k = true →
      ((Dialect.addSection {} "switch" "default").addSection "switch" "case").isSectionKeyword
        n k = true := by
    intro n k h
    rw [Dialect.isSectionKeyword_addSection, h, Bool.or_true]
  have hdepth : (Dialect.addSection {} "switch" "default").maxDepth =
      ((Dialect.addSection {} "switch" "default").addSection "switch" "case").maxDepth := rfl
  obtain ⟨hdemote, -, -⟩ := ofSource_demote hdepth hkeywords hsource
  exact ⟨hsource, hdemote⟩

end Stencil
