/-
Sources one after another.

Where one source has a template, the next one is read as if it stood alone.  Its tokens stand
further back, and only where a text meets a text the two make one token (`Joined`).

* `Scanner.joined_tokens` — the tokens of two sources, one after another;
* `Template.ofTokens_joined` — what such tokens make: the items of both (`Template.join`), or the
  fault of the second, further back;
* `Template.ofSource_join` — the same for sources.
-/
import Mathlib
import Stencil.Proofs.Finality
import Stencil.Proofs.Relocation
import Stencil.Proofs.Sealing
import Stencil.Proofs.WellFormed

namespace Stencil

open Text (byteLength)

/-! ### Items of two sources -/

/-- The items of both lists.  A text that ends the first one and a text that starts the second
are one. -/
def Item.join (as bs : List Item) : List Item :=
  match as.getLast?, bs with
  | some (.text a), .text b :: rest => as.dropLast ++ .text (a ++ b) :: rest
  | _, _ => as ++ bs

/-- The template of the items of both. -/
def Template.join (template more : Template) : Template :=
  ⟨Item.join template.items more.items⟩

namespace Item

theorem join_texts (as : List Item) (a b : String) (rest : List Item) :
    join (as ++ [.text a]) (.text b :: rest) = as ++ .text (a ++ b) :: rest := by
  rw [join.eq_def, List.getLast?_concat]
  exact congrArg (· ++ _) List.dropLast_concat

theorem join_of_apart {as bs : List Item}
    (h : ∀ a ∈ as.getLast?, ∀ b ∈ bs.head?, a.isText = true → b.isText = false) :
    join as bs = as ++ bs := by
  rw [join.eq_def]
  split
  next a b rest hlast => exact absurd (h _ hlast _ rfl rfl) (by simp [isText])
  next => rfl

end Item

/-! ### Tokens of two sources -/

/-- The tokens of a source and of one that follows on it `n` bytes further back, as the tokens of
both together: a text that meets a text is one token with it. -/
inductive Joined (n : Nat) : List Token → List Token → List Token → Prop
  | apart {as bs : List Token} :
      (∀ a ∈ as.getLast?, ∀ b ∈ bs.head?, a.lexeme.kind = .text → b.lexeme.kind ≠ .text) →
      Joined n as bs (as ++ bs.map (Token.move (n + ·)))
  | texts {as bs : List Token} {a b : String} {i j : Nat} :
      Joined n (as ++ [⟨.text a, i⟩]) (⟨.text b, j⟩ :: bs)
        (as ++ ⟨.text (a ++ b), i⟩ :: bs.map (Token.move (n + ·)))

/-- The piece with its offset moved. -/
def Piece.move (f : Nat → Nat) (p : Piece) : Piece :=
  { p with token := p.token.move f }

/-- What is cut at one offset is cut in the same way at a later one. -/
theorem Cut.move {mode : Mode} {offset : Nat} {cs trail : List Char} {pieces : List Piece}
    (h : Cut mode offset cs pieces trail) (n : Nat) :
    Cut mode (n + offset) cs (pieces.map (Piece.move (n + ·))) trail := by
  induction h with
  | nil hblank htext => exact .nil hblank htext
  | cons hblank htext hmode hspelled _ ih =>
    simp only [← Nat.add_assoc] at ih
    have h := Cut.cons hblank htext hmode hspelled ih
    simpa only [List.map_cons, Piece.move, Token.move, Nat.add_assoc] using h

/-- Braces that stand in neither of two texts stand in both together only where they meet. -/
theorem not_openBraces_append {as bs : List Char} (has : ¬openBraces <:+: as)
    (hbs : ¬openBraces <:+: bs)
    (hseam : ¬(as.getLast? = some '{' ∧ bs.head? = some '{')) : ¬openBraces <:+: as ++ bs := by
  induction as with
  | nil => exact hbs
  | cons a as ih =>
    rw [List.cons_append, List.infix_cons_iff]
    rintro (hhere | hlater)
    · obtain ⟨rfl, hnext⟩ := List.cons_prefix_cons.mp hhere
      rcases as with _ | ⟨c, cs⟩
      · obtain ⟨rest, rfl⟩ := hnext
        exact hseam ⟨rfl, rfl⟩
      · obtain ⟨rfl, -⟩ := List.cons_prefix_cons.mp hnext
        exact has ⟨[], cs, rfl⟩
    · refine ih (fun h => has (List.infix_cons_iff.mpr (.inr h))) (fun ⟨hlast, hhead⟩ => ?_) hlater
      rcases as with _ | ⟨c, cs⟩
      · cases hlast
      · exact hseam ⟨List.getLast?_cons_cons.trans hlast, hhead⟩

/-- Two texts are one text if no braces open where they meet. -/
theorem Lexeme.Spelled.text_append {a b : String} {as bs rest : List Char}
    (h : (Lexeme.text a).Spelled as []) (h' : (Lexeme.text b).Spelled bs rest)
    (hseam : ¬(as.getLast? = some '{' ∧ bs.head? = some '{')) :
    (Lexeme.text (a ++ b)).Spelled (as ++ bs) rest := by
  obtain ⟨rfl, hne, hclear, -⟩ := h
  obtain ⟨rfl, hne', hclear', hend⟩ := h'
  refine ⟨String.toList_append.symm, List.append_ne_nil_of_left_ne_nil hne _,
    not_openBraces_append hclear hclear' hseam, hend.imp id fun ⟨hopen, hlast⟩ => ⟨hopen, ?_⟩⟩
  rwa [List.getLast?_append_of_ne_nil _ hne']

namespace Cut

variable {cs ds trail : List Char} {before pieces more : List Piece} {p : Piece}

/-- Where pieces lead outside of tags, the last of them is a text or the close of a tag. -/
theorem last_cases (h : Cut .text 0 cs (before ++ [p]) [])
    (hbehind : Mode.text.behind ((before ++ [p]).map Piece.lexeme) = .text) :
    (∃ content, p.lexeme = .text content) ∨ p.lexeme = .tagClose := by
  rw [h.behind_eq] at hbehind
  generalize p.lexeme = l at *
  cases l with
  | text content => exact .inl ⟨content, rfl⟩
  | tagClose => exact .inr rfl
  | _ => cases hbehind

/-- Pieces on which characters may follow are followed by the pieces of these. -/
theorem append (h : Cut .text 0 cs pieces [])
    (hbehind : Mode.text.behind (pieces.map Piece.lexeme) = .text)
    (hmore : Cut .text 0 ds more trail)
    (hlast : ∀ p ∈ pieces.getLast?, p.lexeme.Spelled p.spelling ds) :
    Cut .text 0 (cs ++ ds) (pieces ++ more.map (Piece.move (byteLength cs + ·))) trail := by
  have hcs : cs = Piece.join pieces := by
    rw [h.eq_join, List.append_nil]
  rw [← List.append_nil pieces] at h
  have hfollowing := hmore.move (0 + byteLength (Piece.join pieces))
  rw [Nat.add_zero] at hfollowing
  have hwhole := h.splice (hbehind.symm ▸ hfollowing) hlast
  rwa [Nat.zero_add, ← hcs] at hwhole

/-- A text at the end and a text that follows on it are one piece. -/
theorem append_texts {gap gap' spelling spelling' : List Char} {a b : String} {i j : Nat}
    (h : Cut .text 0 cs (before ++ [⟨gap, spelling, ⟨.text a, i⟩⟩]) [])
    (hmore : Cut .text 0 ds (⟨gap', spelling', ⟨.text b, j⟩⟩ :: more) trail)
    (hseam : ¬(cs.getLast? = some '{' ∧ ds.head? = some '{')) :
    Cut .text 0 (cs ++ ds) (before ++ ⟨[], spelling ++ spelling', ⟨.text (a ++ b), i⟩⟩ ::
      more.map (Piece.move (byteLength cs + ·))) trail := by
  obtain ⟨-, hgap, hmode, hspelled, hposition⟩ := h.drop.head
  obtain ⟨-, hgap', -, hspelled', -⟩ := hmore.head
  -- Outside of tags nothing is skipped.
  obtain rfl : gap = [] := hgap hmode.symm
  obtain rfl : gap' = [] := hgap' rfl
  have hcs : cs = Piece.join before ++ spelling := by
    rw [h.eq_join, Piece.join_concat, List.append_nil, List.nil_append]
  have hds : ds = spelling' ++ (Piece.join more ++ trail) := by
    rw [hmore.eq_join, Piece.join_cons, List.nil_append, List.append_assoc]
  have hone : (Lexeme.text (a ++ b)).Spelled (spelling ++ spelling')
      (Piece.join more ++ trail) := by
    refine Lexeme.Spelled.text_append hspelled hspelled' fun ⟨hlast, hhead⟩ => hseam ⟨?_, ?_⟩
    · rwa [hcs, List.getLast?_append_of_ne_nil _ hspelled.ne_nil]
    · rwa [hds, List.head?_append_of_ne_nil _ hspelled'.ne_nil]
  have hrest : Cut .text (byteLength cs + byteLength spelling') (Piece.join more ++ trail)
      (more.map (Piece.move (byteLength cs + ·))) trail := by
    have hdrop : Cut .text 0 ds ([⟨[], spelling', ⟨.text b, j⟩⟩] ++ more) trail := hmore
    have hmoved := hdrop.drop.move (byteLength cs)
    rwa [Piece.join_cons, List.nil_append, Nat.zero_add, Text.byteLength_append,
      show byteLength (Piece.join []) = 0 from rfl, Nat.add_zero] at hmoved
  have hnew : Cut (Mode.text.behind (before.map Piece.lexeme)) (0 + byteLength (Piece.join before))
      (spelling ++ spelling' ++ (Piece.join more ++ trail))
      (⟨[], spelling ++ spelling', ⟨.text (a ++ b), i⟩⟩ ::
        more.map (Piece.move (byteLength cs + ·))) trail := by
    have hlength : byteLength cs + byteLength spelling' = 0 + byteLength (Piece.join before) +
        byteLength ([] : List Char) + byteLength (spelling ++ spelling') := by
      rw [hcs, Text.byteLength_append, Text.byteLength_append, Text.byteLength_nil]
      omega
    rw [hlength] at hrest
    rw [show i = 0 + byteLength (Piece.join before) + byteLength ([] : List Char) from hposition]
    have hblank : ∀ c ∈ ([] : List Char), isBlank c = true := nofun
    exact .cons hblank (fun _ => rfl) hmode hone (hmode ▸ hrest)
  have hwhole := h.splice hnew fun r hr => by
    obtain ⟨others, rfl⟩ := List.getLast?_eq_some_iff.mp hr
    rw [List.append_assoc, List.singleton_append] at h
    rw [List.append_assoc]
    exact h.drop.spelled_of_next _
  have hchars : cs ++ ds =
      Piece.join before ++ (spelling ++ spelling' ++ (Piece.join more ++ trail)) := by
    rw [hcs, hds, List.append_assoc, List.append_assoc]
  rwa [hchars]

/-- Pieces on which no text follows, or which end with none, may be followed by any source. -/
theorem spelled_last_of_apart (h : Cut .text 0 cs pieces [])
    (hbehind : Mode.text.behind (pieces.map Piece.lexeme) = .text)
    (hmore : Cut .text 0 ds more trail)
    (hapart : ∀ p ∈ pieces.getLast?, ∀ q ∈ more.head?,
      p.lexeme.kind = .text → q.lexeme.kind ≠ .text)
    (hseam : ¬(cs.getLast? = some '{' ∧ ds.head? = some '{')) :
    ∀ p ∈ pieces.getLast?, p.lexeme.Spelled p.spelling ds := by
  intro p hp
  obtain ⟨before, rfl⟩ := List.getLast?_eq_some_iff.mp hp
  obtain ⟨-, -, -, hspelled, -⟩ := h.drop.head
  rcases h.last_cases hbehind with ⟨content, htext⟩ | hclose
  · rw [htext] at hspelled ⊢
    obtain ⟨hcontent, hne, hclear, -⟩ := hspelled
    refine ⟨hcontent, hne, hclear, ?_⟩
    rcases more with _ | ⟨q, more⟩
    · left
      rw [hmore.eq_join, hmore.trail.2 rfl]
      rfl
    · -- What follows on the text is no text, so it starts with braces.
      right
      obtain ⟨-, hgap, hmode, hspelled', -⟩ := hmore.head
      have hkind : q.lexeme.kind ≠ .text := hapart p hp q rfl (by rw [htext]; rfl)
      have hopen : openBraces <+: ds := by
        rw [hmore.eq_join, Piece.join_cons, hgap rfl, List.nil_append, List.append_assoc]
        exact (hspelled'.openBraces_prefix hmode hkind).trans (List.prefix_append _ _)
      obtain ⟨rest, rfl⟩ := hopen
      refine ⟨List.prefix_append _ _, fun hlast => hseam ⟨?_, rfl⟩⟩
      rw [h.eq_join, List.append_nil, Piece.join_concat, ← List.append_assoc,
        List.getLast?_append_of_ne_nil _ hne]
      exact hlast
  · rw [hclose] at hspelled ⊢
    exact hspelled

end Cut

theorem Piece.map_token_move (f : Nat → Nat) (pieces : List Piece) :
    (pieces.map (Piece.move f)).map Piece.token = (pieces.map Piece.token).map (Token.move f) := by
  rw [List.map_map, List.map_map]
  rfl

/-- The tokens of two sources, the first of which ends outside of tags. -/
theorem Scanner.joined_tokens {s t : String}
    (hbehind : Mode.text.behind ((ofSource s).tokens.map Token.lexeme) = .text)
    (hseam : ¬(s.toList.getLast? = some '{' ∧ t.toList.head? = some '{')) :
    Joined (byteLength s.toList) (ofSource s).tokens (ofSource t).tokens
      (ofSource (s ++ t)).tokens := by
  obtain ⟨pieces, trail, hcut, htokens⟩ := (ofSource s).cut_tokens
  obtain ⟨more, trail', hmore, htokens'⟩ := (ofSource t).cut_tokens
  change Cut .text 0 s.toList pieces trail at hcut
  change Cut .text 0 t.toList more trail' at hmore
  rw [← htokens, List.map_map] at hbehind
  obtain rfl : trail = [] := hcut.trail.2 hbehind
  have hsource : ofSource (s ++ t) = ⟨s.toList ++ t.toList, 0, .text⟩ := by
    rw [ofSource, String.toList_append]
  rw [← htokens, ← htokens', hsource]
  by_cases hapart : ∀ p ∈ pieces.getLast?, ∀ q ∈ more.head?,
      p.lexeme.kind = .text → q.lexeme.kind ≠ .text
  · have hwhole := hcut.append hbehind hmore
      (hcut.spelled_last_of_apart hbehind hmore hapart hseam)
    rw [hwhole.tokens_eq, List.map_append, Piece.map_token_move]
    refine .apart fun a ha b hb => ?_
    rw [List.getLast?_map] at ha
    rw [List.head?_map] at hb
    obtain ⟨p, hp, rfl⟩ := Option.map_eq_some_iff.mp ha
    obtain ⟨q, hq, rfl⟩ := Option.map_eq_some_iff.mp hb
    exact hapart p hp q hq
  · push Not at hapart
    obtain ⟨p, hp, q, hq, hkind, hkind'⟩ := hapart
    obtain ⟨before, rfl⟩ := List.getLast?_eq_some_iff.mp hp
    obtain ⟨after, rfl⟩ := List.head?_eq_some_iff.mp hq
    obtain ⟨gap, spelling, ⟨l, i⟩⟩ := p
    obtain ⟨gap', spelling', ⟨l', j⟩⟩ := q
    cases l <;> cases hkind
    cases l' <;> cases hkind'
    have hwhole := Cut.append_texts hcut hmore hseam
    rw [hwhole.tokens_eq]
    simp only [List.map_append, List.map_cons, Piece.map_token_move]
    exact .texts

/-! ### Templates of two sources -/

namespace Grammar

variable {keyword : String → String → Bool}

/-- An item that is a text ends with that text. -/
theorem Items.last_text {b : Option String} {ls : List Lexeme} {items : List Item}
    (h : Items keyword b ls items) : ∀ item ∈ items.getLast?, item.isText = true →
    ∃ l, ls.getLast? = some l ∧ l.kind = .text := by
  induction items generalizing ls with
  | nil =>
    rintro item ⟨⟩
  | cons first items ih =>
    intro item hitem htext
    cases h with
    | cons h hs =>
      rcases items with _ | ⟨next, items⟩
      · cases hs
        cases hitem
        rw [List.append_nil]
        cases h with
        | text c => exact ⟨_, rfl, rfl⟩
        | tag h => cases h <;> cases htext
        | block => cases htext
      · rw [List.getLast?_cons_cons] at hitem
        rw [List.getLast?_append_of_ne_nil _ hs.ne_nil]
        exact ih hs item hitem htext

end Grammar

namespace Template

variable {dialect : Dialect} {template : Template}

/-- Tokens that make a template lead outside of tags. -/
theorem behind_of_ofTokens {tokens : List Token} {position : Nat}
    (h : ofTokens dialect tokens position = .ok template) :
    Mode.text.behind (tokens.map Token.lexeme) = .text :=
  (Grammar.ofTokens_eq_ok_iff.mp h).1.balanced.leads.behind

/-- Templates whose tokens have no text where they meet have none there either. -/
theorem join_of_tokens_apart {more : Template} {as bs : List Token} {i j : Nat}
    (h : ofTokens dialect as i = .ok template) (h' : ofTokens dialect bs j = .ok more)
    (hapart : ∀ a ∈ as.getLast?, ∀ b ∈ bs.head?, a.lexeme.kind = .text → b.lexeme.kind ≠ .text) :
    template.join more = ⟨template.items ++ more.items⟩ := by
  obtain ⟨hderives, -⟩ := Grammar.ofTokens_eq_ok_iff.mp h
  obtain ⟨hderives', -⟩ := Grammar.ofTokens_eq_ok_iff.mp h'
  refine congrArg Template.mk (Item.join_of_apart fun item hitem next hnext htext => ?_)
  by_contra htext'
  rw [Bool.not_eq_false] at htext'
  obtain ⟨l, hl, hkind⟩ := hderives.last_text item hitem htext
  obtain ⟨rest, hrest⟩ := List.head?_eq_some_iff.mp hnext
  rw [Grammar.Derives, hrest] at hderives'
  obtain ⟨m, hm, hkind'⟩ := hderives'.head_text htext'
  rw [List.getLast?_map] at hl
  rw [List.head?_map] at hm
  obtain ⟨a, ha, rfl⟩ := Option.map_eq_some_iff.mp hl
  obtain ⟨b, hb, rfl⟩ := Option.map_eq_some_iff.mp hm
  exact hapart a ha b hb hkind hkind'

/-- Tokens that make a template lead to a draft of its items with no tag and no block open. -/
theorem extendAll_of_ofTokens {tokens : List Token} {position : Nat}
    (h : ofTokens dialect tokens position = .ok template) :
    Draft.extendAll dialect {} tokens = .ok { items := template.items.toArray } := by
  rw [ofTokens] at h
  cases hall : Draft.extendAll dialect {} tokens with
  | error fault =>
    rw [hall] at h
    cases h
  | ok draft =>
    rw [hall] at h
    obtain ⟨hspot, hblocks, hitems⟩ := Draft.finish_eq_ok_iff.mp h
    obtain ⟨items, blocks, spot⟩ := draft
    obtain rfl : spot = .outside := hspot
    obtain rfl : blocks = [] := hblocks
    rw [hitems]

/-- A text at the end of the tokens of a template is its last item. -/
theorem extendAll_of_ofTokens_concat {tokens : List Token} {a : String} {i position : Nat}
    (h : ofTokens dialect (tokens ++ [⟨.text a, i⟩]) position = .ok template) :
    ∃ items : Array Item, template.items = items.toList ++ [.text a] ∧
      Draft.extendAll dialect {} tokens = .ok { items } := by
  obtain ⟨mid, hmid, htext⟩ := Draft.extendAll_concat_eq_ok_iff.mp (extendAll_of_ofTokens h)
  have hspot := (Draft.spells_of_extendAll hmid).spot_eq_outside htext rfl
  obtain ⟨items, blocks, spot⟩ := mid
  obtain rfl : spot = .outside := hspot
  have hpush : Draft.push ⟨items, blocks, .outside⟩ (.text a) =
      ⟨template.items.toArray, [], .outside⟩ := Except.ok.inj htext
  obtain ⟨hitems, rfl, -⟩ := Draft.mk.inj hpush
  refine ⟨items, ?_, hmid⟩
  rw [← Array.toList_push, hitems]

/-- Behind the tokens of a template, tokens make what they make alone, but further back. -/
theorem ofTokens_joined {as bs cs : List Token} {n i : Nat} (h : Joined n as bs cs)
    (has : ofTokens dialect as i = .ok template) (position : Nat) :
    ofTokens dialect cs (n + position) =
      ((ofTokens dialect bs position).map template.join).mapError (Fault.move (n + ·)) := by
  cases h with
  | apart hapart =>
    have hwhole : ofTokens dialect (as ++ bs.map (Token.move (n + ·))) (n + position) =
        (({} : Draft).behind template.items.toArray (n + ·)).completed dialect
          (bs.map (Token.move (n + ·))) (n + position) := by
      rw [ofTokens, Draft.extendAll_append, extendAll_of_ofTokens has]
      rfl
    rw [hwhole, Draft.completed_behind]
    cases hbs : ofTokens dialect bs position with
    | error fault =>
      rw [show ({} : Draft).completed dialect bs position = .error fault from hbs]
      rfl
    | ok more =>
      rw [show ({} : Draft).completed dialect bs position = .ok more from hbs]
      exact congrArg Except.ok (join_of_tokens_apart has hbs hapart).symm
  | @texts as bs a b i' j =>
    obtain ⟨items, hitems, hmid⟩ := extendAll_of_ofTokens_concat has
    -- The tokens behind the two texts meet the same draft, but for the items in front.
    have hwhole : ofTokens dialect
        (as ++ ⟨.text (a ++ b), i'⟩ :: bs.map (Token.move (n + ·))) (n + position) =
        (({} : Draft).behind (items.push (.text (a ++ b))) (n + ·)).completed dialect
          (bs.map (Token.move (n + ·))) (n + position) := by
      rw [ofTokens, Draft.extendAll_append, hmid]
      rfl
    have hmore : ofTokens dialect (⟨.text b, j⟩ :: bs) position =
        (({} : Draft).behind #[.text b] id).completed dialect (bs.map (Token.move id))
          (id position) := by
      rw [show Token.move id = id from rfl, List.map_id]
      rfl
    rw [hwhole, hmore, Draft.completed_behind, Draft.completed_behind]
    cases ({} : Draft).completed dialect bs position with
    | error fault => rfl
    | ok more =>
      refine congrArg (fun items => Except.ok (Template.mk items)) ?_
      rw [Array.toList_push, hitems, List.append_assoc]
      exact (Item.join_texts _ _ _ _).symm

/-- The next source is read as if it stood alone, unless braces open where it meets the first
one: it adds its items, or its fault with the same wording further back. -/
theorem ofSource_join {s t : String} (h : ofSource dialect s = .ok template)
    (hseam : ¬(s.toList.getLast? = some '{' ∧ t.toList.head? = some '{')) :
    (∀ more, ofSource dialect t = .ok more →
      ofSource dialect (s ++ t) = .ok (template.join more)) ∧
    ∀ e, ofSource dialect t = .error e →
      ∃ e', ofSource dialect (s ++ t) = .error e' ∧ e'.cause = e.cause ∧
        e'.position = byteLength s.toList + e.position ∧
        e'.location = Text.Location.ofOffset (s ++ t).toList e'.position := by
  have htokens := Grammar.ofSource_eq_ok_iff_ofTokens.mp h
  have hjoined := Scanner.joined_tokens (behind_of_ofTokens htokens) hseam
  have hend : (Scanner.ofSource (s ++ t)).endPosition =
      byteLength s.toList + (Scanner.ofSource t).endPosition := by
    simp only [Scanner.endPosition, Scanner.ofSource, String.toList_append, Text.byteLength_append,
      Nat.zero_add]
  have hwhole := ofTokens_joined hjoined htokens (Scanner.ofSource t).endPosition
  rw [← hend] at hwhole
  constructor
  · intro more hmore
    rw [Grammar.ofSource_eq_ok_iff_ofTokens.mp hmore] at hwhole
    exact Grammar.ofSource_eq_ok_iff_ofTokens.mpr hwhole
  · intro e he
    obtain ⟨fault, hfault, rfl⟩ := ofSource_eq_error he
    rw [hfault] at hwhole
    refine ⟨Fault.locate (s ++ t) (fault.move (byteLength s.toList + ·)), ?_, rfl, ?_, rfl⟩
    · rw [ofSource]
      exact congrArg (Except.mapError _) hwhole
    · simp only [Fault.locate, Fault.move, String.toList_append, Text.byteLength_append]
      omega

/-- A text goes on into the next source, and a close tag there finds no block that is open. -/
theorem ofSource_join_text_stray :
    ofSource {} ("a{{b}}c" ++ "d{{e}}") =
      .ok ⟨[.text "a", .expression (.variable "b"), .text "cd", .expression (.variable "e")]⟩ ∧
    ∃ e', ofSource {} ("a{{b}}c" ++ "{{/b}}") = .error e' ∧
      e'.cause = .strayClose "b" ∧ e'.position = 7 := by
  have hfront : ofSource {} "a{{b}}c" =
      .ok ⟨[.text "a", .expression (.variable "b"), .text "c"]⟩ := by
    cbv
  have hmore : ofSource {} "d{{e}}" =
      .ok ⟨[.text "d", .expression (.variable "e")]⟩ := by
    cbv
  have hstray : ofSource {} "{{/b}}" = .error ⟨⟨.strayClose "b", 0⟩, ⟨1, 1⟩⟩ := by
    cbv
  constructor
  · exact (ofSource_join hfront (by decide)).1 _ hmore
  · obtain ⟨e', herror, hcause, hposition, -⟩ := (ofSource_join hfront (by decide)).2 _ hstray
    exact ⟨e', herror, hcause, hposition⟩

end Template

end Stencil
