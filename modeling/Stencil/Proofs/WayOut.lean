/-
Ways out of what is open.

From every spot in a tag some lexemes lead out of it (`Draft.leadsOut`), and from there close tags
lead out of all open blocks (`Draft.reads_closeTags`), so a draft can be completed
(`Draft.exists_completion`).  The one spot without a way out is behind a `{{/` where no block is
open (`Draft.Stray`): there every name is a fault, and so is anything else.
-/
import Mathlib
import Stencil.Proofs.FaultPlace
import Stencil.Proofs.Image
import Stencil.Proofs.Sealing

namespace Stencil

/-! ### The spot without a way out -/

/-- Whether tokens end with a `{{/` in front of which no block is open. -/
def EndsStray (tokens : List Token) : Prop :=
  tokens.getLast?.map Token.lexeme = some .blockClose ∧
    openBlocks (tokens.dropLast.map Token.lexeme) = 0

namespace Draft

variable {dialect : Dialect} {draft draft' : Draft} {tokens : List Token}

/-- Behind a `{{/` with no block open. -/
structure Stray (draft : Draft) : Prop where
  exists_spot : ∃ position, draft.spot = .closeStart position
  blocks : draft.blocks = []

/-- Whether a draft is stray shows in its tokens. -/
theorem stray_iff_endsStray (h : Draft.extendAll dialect {} tokens = .ok draft) :
    draft.Stray ↔ EndsStray tokens := by
  constructor
  · rintro ⟨⟨position, hspot⟩, hblocks⟩
    obtain ⟨before, mid, rfl, hbefore, houtside, hmid⟩ := exists_of_closeStart h hspot
    have hspells := spells_of_extendAll hbefore
    have hopen : openBlocks (before.map Token.lexeme) = mid.blocks.length :=
      hspells.openBlocks_eq houtside
    refine ⟨?_, ?_⟩
    · rw [List.getLast?_concat]
      rfl
    · rw [List.dropLast_concat, hopen, hmid, hblocks]
      rfl
  · rintro ⟨hlast, hopen⟩
    obtain ⟨⟨lexeme, position⟩, hlast, rfl : lexeme = _⟩ := Option.map_eq_some_iff.mp hlast
    obtain ⟨before, rfl⟩ := List.getLast?_eq_some_iff.mp hlast
    rw [List.dropLast_concat] at hopen
    obtain ⟨mid, hbefore, hclose⟩ := extendAll_concat_eq_ok_iff.mp h
    have hspells := spells_of_extendAll hbefore
    obtain ⟨houtside, rfl⟩ := hspells.eq_moveTo_of_blockClose hclose rfl
    have hlength : mid.blocks.length = 0 := (hspells.openBlocks_eq houtside).symm.trans hopen
    exact ⟨⟨position, rfl⟩, List.length_eq_zero_iff.mp hlength⟩

/-- A stray draft takes no token. -/
theorem Stray.extend_ne_ok (h : draft.Stray) (token : Token) :
    draft.extend dialect token ≠ .ok draft' := by
  obtain ⟨⟨position, hspot⟩, hblocks⟩ := h
  intro hextend
  rw [extend, hspot] at hextend
  simp only [extendClose, hblocks] at hextend
  split at hextend
  · cases hextend
  · contradiction
  · cases hextend

/-- No template starts with tokens that lead to a stray draft. -/
theorem Stray.ofTokens_ne_ok (h : draft.Stray)
    (htokens : Draft.extendAll dialect {} tokens = .ok draft) (more : List Token)
    (position : Nat) (template : Template) :
    Template.ofTokens dialect (tokens ++ more) position ≠ .ok template := by
  intro hok
  rw [Template.ofTokens, extendAll_append, htokens] at hok
  rcases more with _ | ⟨token, more⟩
  · obtain ⟨houtside, -, -⟩ := finish_eq_ok_iff.mp hok
    obtain ⟨⟨position, hspot⟩, -⟩ := h
    rw [houtside] at hspot
    cases hspot
  · replace hok : (draft.extendAll dialect (token :: more) >>= fun draft =>
        draft.finish position) = .ok template := hok
    rw [extendAll_cons] at hok
    cases hnext : draft.extend dialect token with
    | error fault =>
      rw [hnext] at hok
      cases hok
    | ok next => exact h.extend_ne_ok token hnext

/-! ### Ways out of blocks -/

/-- The lexemes that close open blocks, the innermost first. -/
def closeTags (blocks : List OpenBlock) : List Lexeme :=
  blocks.flatMap fun block => [.blockClose, .identifier block.name, .tagClose]

/-- Close tags lead out of all open blocks. -/
theorem reads_closeTags (dialect : Dialect) (hspot : draft.spot = .outside) :
    ∃ final, draft.Reads dialect (closeTags draft.blocks) final ∧ final.spot = .outside ∧
      final.blocks = [] := by
  generalize hblocks : draft.blocks = blocks
  induction blocks generalizing draft with
  | nil => exact ⟨draft, .nil draft, hspot, hblocks⟩
  | cons block outer ih =>
    have hclose : draft.Reads dialect _ _ := Grammar.reads_blockClose hspot hblocks
    obtain ⟨final, hfinal, houtside, hclosed⟩ := @ih ⟨_, outer, .outside⟩ rfl rfl
    exact ⟨final, hclose.append hfinal, houtside, hclosed⟩

theorem writable_closeTags {blocks : List OpenBlock}
    (h : ∀ block ∈ blocks, isName block.name.toList = true) :
    Writable .text (closeTags blocks) := by
  induction blocks with
  | nil => exact ⟨nofun, trivial, .nil⟩
  | cons block outer ih =>
    obtain ⟨hname, houter⟩ := List.forall_mem_cons.mp h
    have hstays : (Lexeme.identifier block.name).StaysInside := ⟨hname, rfl, rfl, nofun⟩
    exact writable_tag (.inr (.inr rfl)) (List.forall_mem_singleton.mpr hstays) (ih houter)

/-- The names of open blocks are among the lexemes. -/
theorem Stack.isName {blocks : List OpenBlock} {items : Array Item} {ls : List Lexeme}
    (h : Stack dialect blocks items ls) (hvalid : ∀ l ∈ ls, l.Valid) :
    ∀ block ∈ blocks, isName block.name.toList = true := by
  induction h with
  | root _ _ => exact nofun
  | @block _ _ _ n _ _ _ as ms _ _ _ _ ih =>
    obtain ⟨houter, hheader⟩ := List.forall_mem_append.mp hvalid
    have hname : (Lexeme.identifier n).Valid := hheader _ (.tail _ (.head _))
    exact List.forall_mem_cons.mpr ⟨hname, ih houter⟩

theorem Spells.isName {ls : List Lexeme} (h : draft.Spells dialect ls)
    (hvalid : ∀ l ∈ ls, l.Valid) : ∀ block ∈ draft.blocks, isName block.name.toList = true := by
  obtain ⟨as, bs, rfl, hstack, -⟩ := h
  exact hstack.isName (List.forall_mem_append.mp hvalid).1

/-! ### Ways out of tags -/

theorem spot_closeArguments (draft : Draft) (owner : ArgumentOwner) (args : Arguments) :
    (draft.closeArguments owner args).spot = .outside := by
  cases owner with
  | call name => rfl
  | block name => rfl
  | keyword name =>
    rw [closeArguments]
    cases draft.blocks <;> rfl

theorem spot_closeBlock (draft : Draft) : draft.closeBlock.spot = .outside := by
  rw [closeBlock]
  cases draft.blocks <;> rfl

/-- Whether lexemes of the inside of a tag and its `}}` lead out of it. -/
def LeadsOut (dialect : Dialect) (draft : Draft) : Prop :=
  ∃ inside final, (∀ l ∈ inside, l.StaysInside) ∧
    draft.Reads dialect (inside ++ [.tagClose]) final ∧ final.spot = .outside

/-- A token more, behind which there is a way out. -/
theorem LeadsOut.cons {next : Draft} {l : Lexeme} (hl : l.StaysInside)
    (hnext : ∀ position, draft.extend dialect ⟨l, position⟩ = .ok next)
    (h : next.LeadsOut dialect) : draft.LeadsOut dialect := by
  obtain ⟨inside, final, hinside, hreads, houtside⟩ := h
  exact ⟨l :: inside, final, List.forall_mem_cons.mpr ⟨hl, hinside⟩, .cons hnext hreads, houtside⟩

/-- The `}}` itself. -/
theorem LeadsOut.close {final : Draft}
    (h : ∀ position, draft.extend dialect ⟨.tagClose, position⟩ = .ok final)
    (houtside : final.spot = .outside) : draft.LeadsOut dialect :=
  ⟨[], final, nofun, .cons h (.nil final), houtside⟩

/-- A quoted text, which may stand wherever a value may. -/
theorem staysInside_string (content : String) : (Lexeme.string content).StaysInside :=
  ⟨trivial, rfl, rfl, nofun⟩

theorem leadsOut_arguments (draft : Draft) (owner : ArgumentOwner) (args : Arguments) :
    (draft.moveTo (.arguments owner args)).LeadsOut dialect :=
  .close (fun _ => rfl) (spot_closeArguments _ _ _)

theorem leadsOut_value (draft : Draft) (destination : Destination) (value : Value) :
    (draft.moveTo (.value destination value)).LeadsOut dialect := by
  cases destination with
  | tag => exact .close (fun _ => rfl) rfl
  | argument owner args key? => exact .close (fun _ => rfl) (spot_closeArguments _ _ _)

/-- From every spot in a tag there is a way out, but for that of a stray draft. -/
theorem leadsOut (hspot : draft.spot ≠ .outside) (hstray : ¬draft.Stray)
    (hnames : ∀ block ∈ draft.blocks, isName block.name.toList = true) :
    draft.LeadsOut dialect := by
  rw [show draft = draft.moveTo draft.spot from rfl] at hstray ⊢
  generalize draft.spot = spot at hspot hstray
  cases spot with
  | outside => exact absurd rfl hspot
  | tagStart =>
    exact .cons (staysInside_string "") (fun _ => rfl) (leadsOut_value draft .tag (.string ""))
  | tagName name => exact .close (fun _ => rfl) rfl
  | value destination value => exact leadsOut_value draft destination value
  | operator destination op left =>
    refine .cons (staysInside_string "") (fun _ => rfl) ?_
    cases destination with
    | tag => exact .close (fun _ => rfl) rfl
    | argument owner args key? => exact leadsOut_arguments draft owner _
  | tagEnd value => exact .close (fun _ => rfl) rfl
  | arguments owner args => exact leadsOut_arguments draft owner args
  | argumentName owner args name => exact .close (fun _ => rfl) (spot_closeArguments _ _ _)
  | argumentKey owner args key =>
    exact .cons (staysInside_string "") (fun _ => rfl)
      (leadsOut_value draft (.argument owner args (some key)) (.string ""))
  | blockStart =>
    have hname : (Lexeme.identifier "a").StaysInside := ⟨rfl, rfl, rfl, nofun⟩
    exact .cons hname (fun _ => rfl) (leadsOut_arguments draft (.block "a") {})
  | closeStart position =>
    rcases hblocks : draft.blocks with _ | ⟨block, outer⟩
    · exact absurd ⟨⟨position, rfl⟩, hblocks⟩ hstray
    · have hname : (Lexeme.identifier block.name).StaysInside :=
        ⟨hnames block (hblocks ▸ .head outer), rfl, rfl, nofun⟩
      have hextend : ∀ position', (draft.moveTo (.closeStart position)).extend dialect
          ⟨.identifier block.name, position'⟩ = .ok (draft.moveTo .closeEnd) := by
        intro position'
        show (draft.moveTo (.closeStart position)).extendClose position _ = _
        simp [extendClose, moveTo, hblocks]
      exact .cons hname hextend (.close (fun _ => rfl) (spot_closeBlock _))
  | closeEnd => exact .close (fun _ => rfl) (spot_closeBlock _)

/-- From every draft that is not stray, lexemes lead out of its tag and of all its blocks. -/
theorem exists_completion {ls : List Lexeme} (h : draft.Spells dialect ls)
    (hvalid : ∀ l ∈ ls, l.Valid) (hstray : ¬draft.Stray) :
    ∃ ms final, Writable draft.spot.mode ms ∧ (∀ m ∈ ms.head?, m.kind ≠ .text) ∧
      draft.Reads dialect ms final ∧ final.spot = .outside ∧ final.blocks = [] := by
  have hclose : ∀ blocks, ∀ m ∈ (closeTags blocks).head?, m.kind ≠ .text := by
    rintro (_ | ⟨block, outer⟩) m hm
    · cases hm
    · cases hm
      decide
  by_cases hspot : draft.spot = .outside
  · obtain ⟨final, hreads, houtside, hclosed⟩ := reads_closeTags dialect hspot
    refine ⟨closeTags draft.blocks, final, ?_, hclose _, hreads, houtside, hclosed⟩
    rw [hspot]
    exact writable_closeTags (h.isName hvalid)
  · have hleads : draft.LeadsOut dialect := leadsOut hspot hstray (h.isName hvalid)
    obtain ⟨inside, mid, hinside, hreads, hmid⟩ := hleads
    obtain ⟨final, hreads', houtside, hclosed⟩ := reads_closeTags dialect hmid
    -- The blocks behind the tag have names that have been read, or stand in the way out.
    have hvalid' : ∀ l ∈ ls ++ (inside ++ [.tagClose]), l.Valid :=
      List.forall_mem_append.mpr ⟨hvalid, List.forall_mem_append.mpr
        ⟨fun l hl => (hinside l hl).1, List.forall_mem_singleton.mpr trivial⟩⟩
    let tokens := (inside ++ [Lexeme.tagClose]).map fun l => (⟨l, 0⟩ : Token)
    have htokens : tokens.map Token.lexeme = inside ++ [.tagClose] := by
      simp [tokens, Function.comp_def]
    have hspells := spells_extendAll h (hreads tokens htokens)
    rw [htokens] at hspells
    have hmode : draft.spot.mode = .tag := by
      generalize draft.spot = spot at hspot
      cases spot with
      | outside => exact absurd rfl hspot
      | _ => rfl
    refine ⟨inside ++ .tagClose :: closeTags mid.blocks, final, ?_, ?_, ?_, houtside, hclosed⟩
    · rw [hmode]
      exact writable_inside hinside (writable_closeTags (hspells.isName hvalid'))
    · rcases inside with _ | ⟨l, inside⟩
      · rintro m ⟨⟩
        decide
      · rintro m ⟨⟩
        exact (hinside l (.head _)).2.2.2
    · rw [List.append_cons]
      exact hreads.append hreads'

/-- A draft takes a text or a quoted text whatever it says. -/
theorem exists_extend_of_sameShape {next : Draft} {ls : List Lexeme} {l l' : Lexeme}
    {position : Nat} (hspells : draft.Spells dialect ls) (hshape : l.SameShape l')
    (h : draft.extend dialect ⟨l, position⟩ = .ok next) :
    ∃ next', draft.extend dialect ⟨l', position⟩ = .ok next' ∧ (next'.Stray → next.Stray) := by
  have hmove : ∀ {spot : Spot}, draft.extend dialect ⟨l', position⟩ = .ok (draft.moveTo spot) →
      (∀ q, spot ≠ .closeStart q) →
      ∃ next', draft.extend dialect ⟨l', position⟩ = .ok next' ∧ (next'.Stray → next.Stray) := by
    intro spot hextend hspot
    refine ⟨_, hextend, ?_⟩
    rintro ⟨⟨q, hq⟩, -⟩
    exact absurd hq (hspot q)
  cases hshape with
  | refl => exact ⟨next, h, id⟩
  | text content content' =>
    have hspot := hspells.spot_eq_outside h rfl
    refine ⟨draft.push (.text content'), ?_, ?_⟩
    · rw [extend_outside hspot]
      rfl
    · rintro ⟨⟨q, hq⟩, -⟩
      cases hq
  | string content content' =>
    rw [show draft = draft.moveTo draft.spot from rfl] at h hmove ⊢
    generalize draft.spot = spot at h hmove
    cases spot with
    | tagStart => exact hmove rfl nofun
    | tagName name => exact hmove rfl nofun
    | value destination value =>
      cases destination with
      | tag => cases h
      | argument owner args key? => exact hmove rfl nofun
    | operator destination op left =>
      cases destination with
      | tag => exact hmove rfl nofun
      | argument owner args key? => exact hmove rfl nofun
    | arguments owner args => exact hmove rfl nofun
    | argumentName owner args name => exact hmove rfl nofun
    | argumentKey owner args key => exact hmove rfl nofun
    | closeStart q =>
      rw [extend] at h
      cases hblocks : draft.blocks with
      | nil => simp [moveTo, extendClose, hblocks, refuse] at h
      | cons block outer => simp [moveTo, extendClose, hblocks, refuse] at h
    | _ => cases h

end Draft

end Stencil
