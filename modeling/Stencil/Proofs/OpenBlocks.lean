/-
Which blocks are open, and how many.

A `{{#` opens a block and the `{{/` of its close tag ends it, so the blocks that are open behind
lexemes can be told without reading them: `openBlocks ls` is the number of `{{#` less the number
of `{{/`, and `openNames ls` has the name behind each `{{#` until a `{{/` takes it away.

* `Grammar.Items.balanced` — lexemes that derive items open no block that they do not close;
* `Draft.Spells.count` — so the count is right wherever a draft stands, and blocks that have been
  closed leave no trace in it;
* `Draft.Spells.openNames_eq` — outside of tags the names are right as well;
* `Draft.Spells.depth_le` — no draft has more blocks open than its dialect allows.
-/
import Mathlib
import Stencil.Proofs.Grammar.Derived
import Stencil.Proofs.Writing

namespace Stencil

/-- The number of blocks that are open behind lexemes. -/
def openBlocks (ls : List Lexeme) : Nat :=
  ls.count .blockOpen - ls.count .blockClose

/-- The names of the blocks that are open behind lexemes in front of which blocks named `names`
are open, the innermost first. -/
def openNamesFrom (names : List String) : List Lexeme → List String
  | [] => names
  | .blockOpen :: .identifier n :: ls => openNamesFrom (n :: names) ls
  | .blockClose :: ls => openNamesFrom names.tail ls
  | _ :: ls => openNamesFrom names ls

/-- The names of the blocks that are open behind lexemes, the innermost first. -/
def openNames (ls : List Lexeme) : List String :=
  openNamesFrom [] ls

/-! ### Counting in a derivation -/

/-- A lexeme inside a tag that does not close it. -/
def Lexeme.StandsInside (l : Lexeme) : Prop :=
  l.standsOutside = false ∧ l ≠ .tagClose

theorem Lexeme.standsInside_identifier (n : String) : (Lexeme.identifier n).StandsInside :=
  ⟨rfl, nofun⟩

theorem Lexeme.standsInside_comparison (op : Comparison) : (Lexeme.comparison op).StandsInside :=
  ⟨rfl, nofun⟩

theorem Lexeme.standsInside_assign : Lexeme.assign.StandsInside :=
  ⟨rfl, nofun⟩

theorem Lexeme.StandsInside.ne_blockOpen {l : Lexeme} (h : l.StandsInside) : l ≠ .blockOpen := by
  rintro rfl
  cases h.1

theorem Lexeme.StandsInside.ne_blockClose {l : Lexeme} (h : l.StandsInside) :
    l ≠ .blockClose := by
  rintro rfl
  cases h.1

theorem Lexeme.StandsInside.modeOf {l : Lexeme} (h : l.StandsInside) : l.modeOf = .tag := by
  rw [Lexeme.modeOf, h.1]
  rfl

theorem Lexeme.StandsInside.modeAfter {l : Lexeme} (h : l.StandsInside) (mode : Mode) :
    l.modeAfter mode = mode := by
  cases l with
  | tagClose => exact absurd rfl h.2
  | tagOpen => cases h.1
  | blockOpen => cases h.1
  | blockClose => cases h.1
  | _ => rfl

theorem Lexeme.StandsInside.names {l : Lexeme} (h : l.StandsInside)
    (names : List String) (ls : List Lexeme) :
    openNamesFrom names (l :: ls) = openNamesFrom names ls := by
  cases l with
  | blockOpen => cases h.1
  | blockClose => cases h.1
  | _ => rfl

/-- A lexeme is read in the mode behind those in front of it. -/
theorem Mode.Runs.modeOf_eq {mode : Mode} {l : Lexeme} {ls ms : List Lexeme}
    (h : mode.Runs (ls ++ l :: ms)) : l.modeOf = mode.behind ls := by
  induction ls generalizing mode with
  | nil => exact h.1
  | cons m ls ih => exact ih h.2

/-- Lexemes that are each read in the mode where they belong, and lead from one mode to another. -/
structure Mode.Leads (mode : Mode) (ls : List Lexeme) (mode' : Mode) : Prop where
  runs : mode.Runs ls
  behind : mode.behind ls = mode'

namespace Mode.Leads

variable {mode mode' mode'' : Mode} {l : Lexeme} {ls ms : List Lexeme}

theorem nil (mode : Mode) : mode.Leads [] mode :=
  ⟨trivial, rfl⟩

theorem cons (hl : l.modeOf = mode) (h : (l.modeAfter mode).Leads ls mode') :
    mode.Leads (l :: ls) mode' :=
  ⟨⟨hl, h.runs⟩, h.behind⟩

theorem append (h : mode.Leads ls mode') (h' : mode'.Leads ms mode'') :
    mode.Leads (ls ++ ms) mode'' := by
  obtain ⟨hruns, rfl⟩ := h
  induction ls generalizing mode with
  | nil => exact h'
  | cons l ls ih => exact .cons hruns.1 (ih hruns.2 h')

end Mode.Leads

/-- The lexemes of a part of a tag: they open and close neither a block nor a tag. -/
structure Inside (ls : List Lexeme) : Prop where
  forall_mem : ∀ l ∈ ls, l.StandsInside

namespace Inside

variable {l : Lexeme} {ls ms : List Lexeme}

theorem nil : Inside [] := ⟨nofun⟩

theorem cons (h : Inside ls) (hl : l.StandsInside) : Inside (l :: ls) :=
  ⟨List.forall_mem_cons.mpr ⟨hl, h.forall_mem⟩⟩

theorem append (h : Inside ls) (h' : Inside ms) : Inside (ls ++ ms) :=
  ⟨List.forall_mem_append.mpr ⟨h.forall_mem, h'.forall_mem⟩⟩

/-- A name in front of a part of a tag. -/
theorem name (h : Inside ls) (n : String) : Inside (.identifier n :: ls) :=
  h.cons (Lexeme.standsInside_identifier n)

theorem count_blockOpen (h : Inside ls) : ls.count .blockOpen = 0 :=
  List.count_eq_zero.mpr fun hl => (h.forall_mem _ hl).ne_blockOpen rfl

theorem count_blockClose (h : Inside ls) : ls.count .blockClose = 0 :=
  List.count_eq_zero.mpr fun hl => (h.forall_mem _ hl).ne_blockClose rfl

theorem names (h : Inside ls) (names : List String) (rest : List Lexeme) :
    openNamesFrom names (ls ++ rest) = openNamesFrom names rest := by
  obtain ⟨h⟩ := h
  induction ls with
  | nil => rfl
  | cons l ls ih =>
    obtain ⟨hl, hls⟩ := List.forall_mem_cons.mp h
    exact (hl.names _ _).trans (ih hls)

theorem leads (h : Inside ls) : Mode.tag.Leads ls .tag := by
  obtain ⟨h⟩ := h
  induction ls with
  | nil => exact .nil _
  | cons l ls ih =>
    obtain ⟨hl, hls⟩ := List.forall_mem_cons.mp h
    refine .cons hl.modeOf ?_
    rw [hl.modeAfter]
    exact ih hls

end Inside

/-- Lexemes that lead from outside of tags to outside of tags, open as many blocks as they close,
and leave the names of the open blocks as they are. -/
structure Balanced (ls : List Lexeme) : Prop where
  leads : Mode.text.Leads ls .text
  count : ls.count .blockOpen = ls.count .blockClose
  names : ∀ names rest, openNamesFrom names (ls ++ rest) = openNamesFrom names rest

namespace Balanced

theorem nil : Balanced [] := ⟨.nil _, rfl, fun _ _ => rfl⟩

theorem append {ls ms : List Lexeme} (h : Balanced ls) (h' : Balanced ms) :
    Balanced (ls ++ ms) where
  leads := h.leads.append h'.leads
  count := by rw [List.count_append, List.count_append, h.count, h'.count]
  names names rest := by rw [List.append_assoc, h.names, h'.names]

/-- A tag that opens and closes no block. -/
theorem tag {ls : List Lexeme} (h : Inside ls) :
    Balanced (.tagOpen :: (ls ++ [.tagClose])) where
  leads := .cons rfl (h.leads.append (.cons rfl (.nil _)))
  count := by simp [h.count_blockOpen, h.count_blockClose]
  names names rest :=
    calc openNamesFrom names (ls ++ [.tagClose] ++ rest)
        = openNamesFrom names (.tagClose :: rest) := by rw [List.append_assoc, h.names]; rfl
      _ = openNamesFrom names rest := rfl

/-- A balanced list between the tags of a block. -/
theorem block {as ms : List Lexeme} (has : Inside as) (hms : Balanced ms) (n : String) :
    Balanced (.blockOpen :: .identifier n :: (as ++ .tagClose ::
      (ms ++ .blockClose :: .identifier n :: [.tagClose]))) where
  leads := .cons rfl <| (has.name n).leads.append <| .cons rfl <| hms.leads.append <|
    .cons rfl (.cons rfl (.cons rfl (.nil _)))
  count := by simp [has.count_blockOpen, has.count_blockClose, hms.count]
  names names rest :=
    calc openNamesFrom names (.blockOpen :: .identifier n :: (as ++ .tagClose ::
          (ms ++ .blockClose :: .identifier n :: [.tagClose])) ++ rest)
        = openNamesFrom (n :: names) (as ++ .tagClose ::
            (ms ++ .blockClose :: .identifier n :: .tagClose :: rest)) := by simp [openNamesFrom]
      _ = openNamesFrom (n :: names)
            (.tagClose :: (ms ++ .blockClose :: .identifier n :: .tagClose :: rest)) :=
          has.names _ _
      _ = openNamesFrom (n :: names) (.blockClose :: .identifier n :: .tagClose :: rest) :=
          hms.names _ _
      _ = openNamesFrom names rest := rfl

end Balanced

namespace Grammar

variable {keyword : String → String → Bool}

theorem Operand.standsInside {l : Lexeme} {v : Value} (h : Operand l v) : l.StandsInside := by
  cases h with
  | name => exact ⟨rfl, nofun⟩
  | string => exact ⟨rfl, nofun⟩

theorem Primary.standsInside {l : Lexeme} {v : Value} (h : Primary l v) : l.StandsInside := by
  rcases h with n | ⟨s | d⟩
  · exact ⟨rfl, nofun⟩
  · exact ⟨rfl, nofun⟩
  · exact ⟨rfl, nofun⟩

theorem Expr.inside {ls : List Lexeme} {v : Value} (h : Expr ls v) : Inside ls := by
  cases h with
  | primary hl => exact Inside.nil.cons hl.standsInside
  | comparison op hl hr =>
    exact ((Inside.nil.cons hr.standsInside).cons (Lexeme.standsInside_comparison op)).cons
      hl.standsInside

theorem Slot.inside {ls : List Lexeme} {s : Option String × Value} (h : Slot ls s) :
    Inside ls := by
  cases h with
  | positional h => exact h.inside
  | named k h => exact (h.inside.cons Lexeme.standsInside_assign).name k

theorem Slots.inside {ls : List Lexeme} {slots : List (Option String × Value)}
    (h : Slots ls slots) : Inside ls := by
  induction h with
  | nil => exact .nil
  | cons hs _ ih => exact hs.inside.append ih

theorem Tag.inside {ls : List Lexeme} {item : Item} (h : Tag ls item) : Inside ls := by
  cases h with
  | name n => exact (Expr.primary (.name n)).inside
  | comparison n op hr => exact (Expr.comparison op (.name n) hr).inside
  | call n has hne hargs => exact has.inside.name n
  | literal hl => exact (Expr.primary (.literal hl)).inside
  | literalComparison op hl hr => exact (Expr.comparison op (.literal hl) hr).inside

mutual

theorem Items.balanced : ∀ {b : Option String} {ls : List Lexeme} {items : List Item},
    Items keyword b ls items → Balanced ls
  | _, _, _, .nil => .nil
  | _, _, _, .cons hitem hitems => hitem.balanced.append hitems.balanced

theorem OneItem.balanced : ∀ {b : Option String} {ls : List Lexeme} {item : Item},
    OneItem keyword b ls item → Balanced ls
  | _, _, _, .text _ => ⟨.cons rfl (.nil _), rfl, fun _ _ => rfl⟩
  | _, _, _, .tag htag _ => .tag htag.inside
  | _, _, _, .block hblock => hblock.balanced

theorem OneBlock.balanced : ∀ {ls : List Lexeme} {block : Block},
    OneBlock keyword ls block → Balanced ls
  | _, _, .mk n has _ hmain hsections => by
    have h := Balanced.block has.inside (hmain.balanced.append hsections.balanced) n
    simpa only [List.cons_append, List.append_assoc] using h

theorem Sections.balanced : ∀ {n : String} {ls : List Lexeme} {sections : List Section},
    Sections keyword n ls sections → Balanced ls
  | _, _, _, .nil => .nil
  | _, _, _, @Sections.cons _ _ k _ _ _ _ _ _ _ _ has _ hitems hrest => by
    have h := (Balanced.tag (has.inside.name k)).append (hitems.balanced.append hrest.balanced)
    simpa only [List.cons_append, List.append_assoc, List.nil_append] using h

end

end Grammar

/-! ### Counting behind a draft -/

/-- Whether a place is in the tag that opens a block. -/
def ArgumentOwner.opensBlock : ArgumentOwner → Bool
  | .block _ => true
  | .call _ | .keyword _ => false

/-- Whether a value belongs to the tag that opens a block. -/
def Destination.opensBlock : Destination → Bool
  | .tag => false
  | .argument owner _ _ => owner.opensBlock

namespace Spot

/-- Whether the spot is in the tag that opens a block. -/
def opensBlock : Spot → Bool
  | .blockStart => true
  | .arguments owner _ | .argumentName owner _ _ | .argumentKey owner _ _ => owner.opensBlock
  | .value destination _ | .operator destination _ _ => destination.opensBlock
  | .outside | .tagStart | .tagName _ | .tagEnd _ | .closeStart _ | .closeEnd => false

/-- Whether the spot is in a close tag. -/
def closesBlock : Spot → Bool
  | .closeStart _ | .closeEnd => true
  | _ => false

theorem closesBlock_of_opensBlock {spot : Spot} (h : spot.opensBlock = true) :
    spot.closesBlock = false := by
  cases spot with
  | closeStart _ => cases h
  | closeEnd => cases h
  | _ => rfl

/-- The opening of the tag in which the spot is. -/
def opener (spot : Spot) : Lexeme :=
  if spot.opensBlock then .blockOpen else if spot.closesBlock then .blockClose else .tagOpen

theorem count_blockOpen_opener (spot : Spot) (ls : List Lexeme) :
    (spot.opener :: ls).count .blockOpen =
      ls.count .blockOpen + if spot.opensBlock then 1 else 0 := by
  rw [opener]
  cases spot.opensBlock with
  | true => exact List.count_cons_self
  | false =>
    cases spot.closesBlock with
    | true => exact List.count_cons_of_ne (by decide)
    | false => exact List.count_cons_of_ne (by decide)

theorem count_blockClose_opener (spot : Spot) (ls : List Lexeme) :
    (spot.opener :: ls).count .blockClose =
      ls.count .blockClose + if spot.closesBlock then 1 else 0 := by
  rw [opener]
  cases hopens : spot.opensBlock with
  | true =>
    rw [closesBlock_of_opensBlock hopens]
    exact List.count_cons_of_ne (by decide)
  | false =>
    cases spot.closesBlock with
    | true => exact List.count_cons_self
    | false => exact List.count_cons_of_ne (by decide)

/-- The mode in which the next token is read. -/
def mode : Spot → Mode
  | .outside => .text
  | _ => .tag

end Spot

namespace Draft

open Grammar

/-- The number of blocks that are open, with the one whose tag is being read. -/
def depth (draft : Draft) : Nat :=
  draft.blocks.length + if draft.spot.opensBlock then 1 else 0

variable {dialect : Dialect} {keyword : String → String → Bool}

theorem Filled.balanced {n : String} {filling : Filling} {items : List Item} {ls : List Lexeme}
    (h : Filled keyword n filling items ls) : Balanced ls := by
  cases h with
  | ofMain hitems => exact hitems.balanced
  | @ofKeyword _ _ _ k _ _ _ _ _ hmain hdone hk has hitems =>
    have h := hmain.balanced.append
      (hdone.balanced.append ((Balanced.tag (has.inside.name k)).append hitems.balanced))
    simpa only [List.cons_append, List.append_assoc, List.nil_append] using h

theorem Stack.leads {blocks : List OpenBlock} {items : Array Item} {ls : List Lexeme}
    (h : Stack dialect blocks items ls) : Mode.text.Leads ls .text := by
  induction h with
  | root hitems _ => exact hitems.balanced.leads
  | @block _ _ _ n _ _ _ _ _ _ has hfilled _ ih =>
    exact ih.append <| .cons rfl <| (has.inside.name n).leads.append <|
      .cons rfl hfilled.balanced.leads

/-- Every `{{#` but those of the open blocks has its `{{/`. -/
theorem Stack.count {blocks : List OpenBlock} {items : Array Item} {ls : List Lexeme}
    (h : Stack dialect blocks items ls) :
    ls.count .blockOpen = blocks.length + ls.count .blockClose := by
  induction h with
  | root hitems _ => rw [hitems.balanced.count, List.length_nil, Nat.zero_add]
  | @block _ _ _ n _ _ _ as ms _ has hfilled _ ih =>
    have hopen : (.blockOpen :: .identifier n :: (as ++ .tagClose :: ms)).count .blockOpen =
        ms.count .blockOpen + 1 := by
      simp [has.inside.count_blockOpen]
    have hclose : (.blockOpen :: .identifier n :: (as ++ .tagClose :: ms)).count .blockClose =
        ms.count .blockClose := by
      simp [has.inside.count_blockClose]
    rw [List.count_append, List.count_append, ih, hopen, hclose, hfilled.balanced.count,
      List.length_cons]
    omega

/-- The names of the open blocks are those behind the `{{#` without their `{{/`. -/
theorem Stack.names {blocks : List OpenBlock} {items : Array Item} {ls : List Lexeme}
    (h : Stack dialect blocks items ls) (rest : List Lexeme) :
    openNamesFrom [] (ls ++ rest) = openNamesFrom (blocks.map OpenBlock.name) rest := by
  induction h generalizing rest with
  | root hitems _ => exact hitems.balanced.names [] rest
  | @block blocks _ _ n _ _ ls as ms _ has hfilled _ ih =>
    calc openNamesFrom [] (ls ++ .blockOpen :: .identifier n :: (as ++ .tagClose :: ms) ++ rest)
        = openNamesFrom []
            (ls ++ .blockOpen :: .identifier n :: (as ++ .tagClose :: (ms ++ rest))) := by simp
      _ = openNamesFrom (blocks.map OpenBlock.name)
            (.blockOpen :: .identifier n :: (as ++ .tagClose :: (ms ++ rest))) := ih _
      _ = openNamesFrom (n :: blocks.map OpenBlock.name) (.tagClose :: (ms ++ rest)) :=
          has.inside.names _ _
      _ = openNamesFrom (n :: blocks.map OpenBlock.name) rest := hfilled.balanced.names _ _

variable {blocks : List OpenBlock} {spot : Spot} {bs : List Lexeme}

/-- A tag that is being read starts with the opening of its spot. -/
theorem SpotSpells.opener (h : SpotSpells dialect blocks spot bs) :
    spot = .outside ∧ bs = [] ∨
      spot.mode = .tag ∧ ∃ ls, bs = spot.opener :: ls ∧ Inside ls := by
  have howner : ∀ {owner : ArgumentOwner} {as : List Lexeme}, Inside as →
      ∃ ls, ownerLexemes owner ++ as = (if owner.opensBlock then .blockOpen else .tagOpen) :: ls ∧
        Inside ls := by
    intro owner as has
    cases owner with
    | call n => exact ⟨_, rfl, has.name n⟩
    | block n => exact ⟨_, rfl, has.name n⟩
    | keyword k => exact ⟨_, rfl, has.name k⟩
  have hkey : ∀ {key? : Option String} {as : List Lexeme}, Inside as →
      Inside (keyLexemes key? ++ as) := by
    intro key? as has
    cases key? with
    | none => exact has
    | some k => exact (has.cons Lexeme.standsInside_assign).name k
  cases h with
  | outside => exact .inl ⟨rfl, rfl⟩
  | tagStart => exact .inr ⟨rfl, _, rfl, .nil⟩
  | tagName _ => exact .inr ⟨rfl, _, rfl, Inside.nil.name _⟩
  | tagValue hl => exact .inr ⟨rfl, _, rfl, (Expr.primary (.literal hl)).inside⟩
  | tagOperator hl _ =>
    exact .inr ⟨rfl, _, rfl, (Inside.nil.cons (Lexeme.standsInside_comparison _)).cons
      hl.standsInside⟩
  | tagEnd htag _ => exact .inr ⟨rfl, _, rfl, htag.inside⟩
  | arguments _ has _ => exact .inr ⟨rfl, howner has.inside⟩
  | argumentName _ has => exact .inr ⟨rfl, howner (has.inside.append (Inside.nil.name _))⟩
  | argumentKey _ has =>
    exact .inr ⟨rfl, howner
      (has.inside.append ((Inside.nil.cons Lexeme.standsInside_assign).name _))⟩
  | value key? _ has hl =>
    exact .inr ⟨rfl, howner (has.inside.append (hkey (Inside.nil.cons hl.standsInside)))⟩
  | operator _ has hl =>
    exact .inr ⟨rfl, howner (has.inside.append (hkey
      ((Inside.nil.cons (Lexeme.standsInside_comparison _)).cons hl.standsInside)))⟩
  | blockStart _ => exact .inr ⟨rfl, _, rfl, .nil⟩
  | closeStart => exact .inr ⟨rfl, _, rfl, .nil⟩
  | closeEnd _ => exact .inr ⟨rfl, _, rfl, Inside.nil.name _⟩

theorem SpotSpells.depth_le (h : SpotSpells dialect blocks spot bs)
    (hblocks : blocks.length ≤ dialect.maxDepth) :
    (blocks.length + if spot.opensBlock then 1 else 0) ≤ dialect.maxDepth := by
  have howner : ∀ {owner : ArgumentOwner}, OwnerAllowed dialect blocks owner →
      (blocks.length + if owner.opensBlock then 1 else 0) ≤ dialect.maxDepth := by
    intro owner howner
    cases owner with
    | block n => exact howner
    | _ => exact hblocks
  cases h with
  | arguments ho _ _ => exact howner ho
  | argumentName ho _ => exact howner ho
  | argumentKey ho _ => exact howner ho
  | value _ ho _ _ => exact howner ho
  | operator ho _ _ => exact howner ho
  | blockStart hroom => exact hroom
  | _ => exact hblocks

variable {draft : Draft} {ls : List Lexeme}

/-- The lexemes of a draft lead to the mode of its spot. -/
theorem Spells.leads (h : draft.Spells dialect ls) : Mode.text.Leads ls draft.spot.mode := by
  obtain ⟨as, bs, rfl, hstack, hspot⟩ := h
  refine hstack.leads.append ?_
  rcases hspot.opener with ⟨houtside, rfl⟩ | ⟨hmode, ls, rfl, hls⟩
  · rw [houtside]
    exact .nil _
  · rw [hmode, Spot.opener]
    repeat' split
    all_goals exact .cons rfl hls.leads

/-- A lexeme that stands outside of tags is taken there only. -/
theorem Spells.spot_eq_outside {draft' : Draft} {token : Token} (h : draft.Spells dialect ls)
    (hextend : draft.extend dialect token = .ok draft') (htext : token.lexeme.modeOf = .text) :
    draft.spot = .outside := by
  have hmode := (spells_extend h hextend).leads.runs.modeOf_eq
  rw [h.leads.behind, htext] at hmode
  generalize draft.spot = spot at hmode
  cases spot with
  | outside => rfl
  | _ => cases hmode

/-- The blocks that are open are those that have been opened and not closed.  A block is closed
behind its close tag. -/
theorem Spells.count (h : draft.Spells dialect ls) :
    (ls.count .blockOpen + if draft.spot.closesBlock then 1 else 0) =
      draft.depth + ls.count .blockClose := by
  obtain ⟨as, bs, rfl, hstack, hspot⟩ := h
  have hcount := hstack.count
  rcases hspot.opener with ⟨houtside, rfl⟩ | ⟨-, ls, rfl, hls⟩
  · rw [depth, houtside, List.append_nil, hcount]
    rfl
  · rw [depth, List.count_append, List.count_append, Spot.count_blockOpen_opener,
      Spot.count_blockClose_opener, hls.count_blockOpen, hls.count_blockClose, hcount]
    omega

/-- Outside of tags the open blocks are those that have been counted. -/
theorem Spells.openBlocks_eq (h : draft.Spells dialect ls)
    (hspot : draft.spot = .outside) : openBlocks ls = draft.blocks.length := by
  have hcount := h.count
  rw [depth, hspot] at hcount
  simp only [Spot.opensBlock, Spot.closesBlock, Bool.false_eq_true, ↓reduceIte,
    Nat.add_zero] at hcount
  rw [openBlocks, hcount, Nat.add_sub_cancel]

/-- No draft has more blocks open than its dialect allows. -/
theorem Spells.depth_le (h : draft.Spells dialect ls) : draft.depth ≤ dialect.maxDepth := by
  obtain ⟨as, bs, -, hstack, hspot⟩ := h
  exact hspot.depth_le hstack.length_le

end Draft

end Stencil
