/-
A descent beside the draft that it makes.

A descent and a draft read the same tokens, the one by calling itself and the other one token after
the other.

* `Descent.Follows` — a descent stands where a draft has come to, with the same tokens left, and
  the draft with these makes what the whole source makes;
* `Descent.Settles` — a descent has ended with the template of its source, or at its fault;
* `Follows.moved`, `Follows.congr` — a draft is followed over a token that it takes, and exchanged
  for one that does the same with what is left;
* `ends_advance`, `ends_expect`, `ends_closeTag` — the steps of a descent.

The same invariant keeps count of the visits: two visits to one kind of site are never at one place
(`Visit.Before`).  A visit may be noted where its site is fresh (`Descent.Fresh`), and behind a
token every site is (`Follows.fresh_moved`).
-/
import Mathlib
import Stencil.Proofs.Descent
import Stencil.Proofs.Progress
import Stencil.Proofs.Relocation

namespace Stencil

open Text (byteLength)

/-! ### Drafts that do the same -/

theorem Spot.wanted_ne_endOfInput (spot : Spot) : spot.wanted ≠ .endOfInput := by
  cases spot <;> nofun

namespace Draft

variable {dialect : Dialect} {draft : Draft} {left : List Token}

/-- Inside of a tag a source may not end. -/
theorem finish_of_ne_outside (h : draft.spot ≠ .outside) (position : Nat) :
    draft.finish position =
      .error (.unexpected ⟨draft.spot.wanted, none⟩ ⟨.endOfInput, position⟩) := by
  rw [finish]
  split
  next hspot _ => exact absurd hspot h
  next hspot _ => exact absurd hspot h
  next => rfl

/-- What is refused decides what becomes of the source. -/
theorem completed_of_refuse (hspot : draft.spot ≠ .outside)
    (hrefused : ∀ t ∈ left.head?, draft.extend dialect t = draft.refuse t) (position : Nat) :
    draft.completed dialect left position =
      .error (.unexpected ⟨draft.spot.wanted, none⟩
        (left.head?.getD ⟨.endOfInput, position⟩)) := by
  cases left with
  | nil => exact finish_of_ne_outside hspot position
  | cons t rest =>
    rw [completed, extendAll_cons, hrefused t rfl]
    rfl

/-- Inside of a tag it is the next token that tells two drafts apart. -/
theorem completed_congr {a b : Draft} (ha : a.spot ≠ .outside) (hb : b.spot ≠ .outside)
    (hwanted : a.spot.wanted = b.spot.wanted)
    (hextend : ∀ t ∈ left.head?, a.extend dialect t = b.extend dialect t) (position : Nat) :
    a.completed dialect left position = b.completed dialect left position := by
  cases left with
  | nil =>
    show a.finish position = b.finish position
    rw [finish_of_ne_outside ha, finish_of_ne_outside hb, hwanted]
  | cons t rest =>
    rw [completed, completed, extendAll_cons, extendAll_cons, hextend t rfl]

/-- The draft takes a `}}`, which leads to `closed`, and it refuses what comes next if that is
something else. -/
structure AwaitsClose (dialect : Dialect) (draft : Draft) (left : List Token) (closed : Draft) :
    Prop where
  spot_ne : draft.spot ≠ .outside
  wanted_eq : draft.spot.wanted = .tagClose
  close (position : Nat) : draft.extend dialect ⟨.tagClose, position⟩ = .ok closed
  refuse : ∀ t ∈ left.head?, t.lexeme ≠ .tagClose → draft.extend dialect t = draft.refuse t

end Draft

namespace Descent

/-! ### The invariant -/

/-- A later visit to the same site is further on. -/
def Visit.Before (v w : Visit) : Prop :=
  v.site = w.site → v.place < w.place

/-- The site has not been visited at this place. -/
def Fresh (descent : Descent) (site : Site) : Prop :=
  ∀ v ∈ descent.visits, v.site = site → v.place < descent.passed.length

/-- The descent stands where the draft, inside `depth` blocks, is to be extended with the tokens
that are left. -/
structure Follows (dialect : Dialect) (source : String) (depth : Nat) (draft : Draft)
    (left : List Token) (descent : Descent) : Prop where
  standsAt : descent.cursor.StandsAt ⟨source, descent.passed.length⟩
  tokens_eq : descent.passed ++ left = (Scanner.ofSource source).tokens
  completed_eq : (draft.completed dialect left (byteLength source.toList)).mapError
    (Fault.locate source) = Template.ofSource dialect source
  depth_eq : descent.depth = depth
  visits : descent.visits.Pairwise Visit.Before
  place_le : ∀ v ∈ descent.visits, v.place ≤ descent.passed.length

/-- The descent has ended, with what becomes of its source. -/
structure Settles (dialect : Dialect) (source : String) (result : Except SyntaxError Template)
    (descent : Descent) : Prop where
  result_eq : Template.ofSource dialect source = result
  standsAt : descent.cursor.StandsAt ⟨source, descent.passed.length⟩
  passed : descent.passed <+: (Scanner.ofSource source).tokens
  visits : descent.visits.Pairwise Visit.Before

/-- The descent has stopped at the fault of its source. -/
abbrev Fails (dialect : Dialect) (source : String) (e : SyntaxError) (descent : Descent) : Prop :=
  Settles dialect source (.error e) descent

/-- The descent has moved on from where `left` was left to where it follows `draft`. -/
def Reaches (dialect : Dialect) (source : String) (depth : Nat) (left : List Token)
    (draft : Draft) (descent : Descent) : Prop :=
  ∃ rest, rest.length < left.length ∧ Follows dialect source depth draft rest descent ∧
    ∀ site, descent.Fresh site

variable {dialect : Dialect} {source : String} {depth : Nat} {draft draft' : Draft}
  {left : List Token} {token : Token} {descent : Descent} {site : Site}

theorem Reaches.of_le {rest : List Token} (h : Reaches dialect source depth rest draft descent)
    (hle : rest.length ≤ left.length) : Reaches dialect source depth left draft descent := by
  obtain ⟨rest', hlt, h⟩ := h
  exact ⟨rest', hlt.trans_le hle, h⟩

namespace Follows

theorem start (dialect : Dialect) (source : String) :
    Follows dialect source 0 {} (Scanner.ofSource source).tokens
      { cursor := .ofSource source } where
  standsAt := .ofSource source
  tokens_eq := rfl
  completed_eq := by
    rw [Template.ofSource, Scanner.endPosition_ofSource]
    rfl
  depth_eq := rfl
  visits := .nil
  place_le := nofun

/-- The tokens ahead are those that are left, and then the end of the input. -/
theorem token_eq (h : Follows dialect source depth draft left descent) (i : Nat) :
    (Scanner.ofSource source).token (descent.passed.length + i) =
      left[i]?.getD ⟨.endOfInput, byteLength source.toList⟩ := by
  rw [Scanner.token_eq, Scanner.endPosition_ofSource, ← h.tokens_eq,
    List.getElem?_append_right (Nat.le_add_right _ _), Nat.add_sub_cancel_left]

theorem current_eq (h : Follows dialect source depth draft left descent) :
    descent.cursor.current = left.head?.getD ⟨.endOfInput, byteLength source.toList⟩ := by
  rw [h.standsAt.current_eq, List.head?_eq_getElem?]
  exact h.token_eq 0

theorem upcoming_eq (h : Follows dialect source depth draft left descent) :
    descent.cursor.upcoming = left.tail.head?.getD ⟨.endOfInput, byteLength source.toList⟩ := by
  rw [h.standsAt.upcoming_eq, List.head?_eq_getElem?, List.getElem?_tail]
  exact h.token_eq 1

theorem current_of_head? (h : Follows dialect source depth draft left descent)
    (htoken : token ∈ left.head?) : descent.cursor.current = token := by
  rw [h.current_eq, show left.head? = some token from htoken, Option.getD_some]

/-- What is not true of the end of the input is true of a token that is left. -/
theorem exists_token {P : Lexeme → Prop} (h : Follows dialect source depth draft left descent)
    (hP : P descent.cursor.current.lexeme) (hend : ¬P .endOfInput) :
    ∃ t rest, left = t :: rest ∧ P t.lexeme := by
  rw [h.current_eq] at hP
  cases left with
  | nil => exact absurd hP hend
  | cons t rest => exact ⟨t, rest, rfl, hP⟩

/-- The draft may be exchanged for one that does the same with what is left. -/
theorem congr (h : Follows dialect source depth draft left descent)
    (hcompleted : draft.completed dialect left (byteLength source.toList) =
      draft'.completed dialect left (byteLength source.toList)) :
    Follows dialect source depth draft' left descent :=
  { h with completed_eq := hcompleted ▸ h.completed_eq }

theorem moved (h : Follows dialect source depth draft (token :: left) descent)
    (htoken : draft.extend dialect token = .ok draft') :
    Follows dialect source depth draft' left descent.moved where
  standsAt := by
    rw [Descent.moved, List.length_append]
    exact h.standsAt.advance
  tokens_eq := by
    rw [Descent.moved, h.current_eq, List.append_assoc]
    exact h.tokens_eq
  completed_eq := by
    rw [← h.completed_eq, Draft.completed, Draft.completed, Draft.extendAll_cons, htoken]
    rfl
  depth_eq := h.depth_eq
  visits := h.visits
  place_le v hv := by
    rw [Descent.moved, List.length_append]
    exact Nat.le_add_right_of_le (h.place_le v hv)

/-- Behind a token every site is fresh. -/
theorem fresh_moved (h : Follows dialect source depth draft left descent) (site : Site) :
    descent.moved.Fresh site := by
  intro v hv _
  rw [Descent.moved, List.length_append]
  exact Nat.lt_succ_of_le (h.place_le v hv)

theorem lookAhead (h : Follows dialect source depth draft left descent) :
    Follows dialect source depth draft left { descent with cursor := descent.cursor.lookAhead } :=
  { h with standsAt := h.standsAt.lookAhead }

theorem noted (h : Follows dialect source depth draft left descent) (hsite : descent.Fresh site) :
    Follows dialect source depth draft left (descent.noted site) :=
  { h with
    visits := by
      refine List.pairwise_append.mpr ⟨h.visits, List.pairwise_singleton _ _, ?_⟩
      intro v hv w hw hsame
      obtain rfl := List.mem_singleton.mp hw
      exact hsite v hv hsame
    place_le := by
      intro v hv
      rcases List.mem_append.mp hv with hv | hv
      · exact h.place_le v hv
      · obtain rfl := List.mem_singleton.mp hv
        exact Nat.le_refl _ }

/-- What the draft makes of what is left is what becomes of the source. -/
theorem settles (h : Follows dialect source depth draft left descent)
    {result : Except Fault Template}
    (hresult : draft.completed dialect left (byteLength source.toList) = result) :
    Settles dialect source (result.mapError (Fault.locate source)) descent where
  result_eq := by rw [← h.completed_eq, hresult]
  standsAt := h.standsAt
  passed := ⟨left, h.tokens_eq⟩
  visits := h.visits

theorem fails (h : Follows dialect source depth draft left descent) {fault : Fault}
    (hfault : draft.completed dialect left (byteLength source.toList) = .error fault) :
    Fails dialect source (Fault.locate source fault) descent :=
  h.settles hfault

theorem ne_endOfInput (h : Follows dialect source depth draft left descent)
    (htoken : token ∈ left) : token.lexeme ≠ .endOfInput := by
  refine Scanner.lexeme_ne_endOfInput (s := .ofSource source) ?_
  rw [← h.tokens_eq]
  exact List.mem_append_right _ htoken

/-- A block more is being read. -/
theorem enter (h : Follows dialect source depth draft left descent) :
    Follows dialect source (depth + 1) draft left { descent with depth := descent.depth + 1 } :=
  { h with depth_eq := congrArg (· + 1) h.depth_eq }

/-- A block less is being read. -/
theorem leave (h : Follows dialect source (depth + 1) draft left descent) :
    Follows dialect source depth draft left { descent with depth := descent.depth - 1 } :=
  { h with depth_eq := congrArg (· - 1) h.depth_eq }

end Follows

/-! ### Steps -/

variable {α : Type} {fail : SyntaxError → Descent → Prop} {kind : Kind}

theorem ends_visit (h : Follows dialect source depth draft left descent)
    (hsite : descent.Fresh site) :
    Ends (visit site) descent (fun _ next => Follows dialect source depth draft left next ∧
      ∀ other ≠ site, descent.Fresh other → next.Fresh other) fail := by
  refine .value rfl ⟨h.noted hsite, fun other hother hfresh v hv hsame => ?_⟩
  rcases List.mem_append.mp hv with hv | hv
  · exact hfresh v hv hsame
  · obtain rfl := List.mem_singleton.mp hv
    exact absurd hsame.symm hother

theorem ends_advance (h : Follows dialect source depth draft (token :: left) descent)
    (htoken : draft.extend dialect token = .ok draft') :
    Ends advance descent (fun t next => t = token ∧
      Follows dialect source depth draft' left next ∧ ∀ site, next.Fresh site) fail :=
  .value rfl ⟨h.current_eq, h.moved htoken, h.fresh_moved⟩

/-- Where the draft refuses what comes next, the descent stops too. -/
theorem ends_unexpected {post : α → Descent → Prop}
    (h : Follows dialect source depth draft left descent) (hspot : draft.spot ≠ .outside)
    (hwanted : draft.spot.wanted = kind)
    (hrefused : ∀ t ∈ left.head?, draft.extend dialect t = draft.refuse t) :
    Ends (unexpected ⟨kind, none⟩) descent post (Fails dialect source) := by
  refine .unexpected ?_
  rw [Cursor.unexpected, h.standsAt.source_eq, h.current_eq, ← hwanted]
  exact h.fails (Draft.completed_of_refuse hspot hrefused _)

theorem accepts_kind {lexeme : Lexeme} :
    Pattern.accepts ⟨kind, none⟩ lexeme = true ↔ lexeme.kind = kind := by
  simp [Pattern.accepts]

theorem ends_expect (h : Follows dialect source depth draft left descent)
    (hspot : draft.spot ≠ .outside) (hwanted : draft.spot.wanted = kind)
    (hrefused : ∀ t ∈ left.head?, t.lexeme.kind ≠ kind →
      draft.extend dialect t = draft.refuse t) :
    Ends (expect ⟨kind, none⟩) descent
      (fun _ next => next = descent ∧ ∃ t rest, left = t :: rest ∧ t.lexeme.kind = kind)
      (Fails dialect source) := by
  refine .currentIs_bind ?_
  by_cases hkind : descent.cursor.current.lexeme.kind = kind
  · rw [if_pos (accepts_kind.mpr hkind)]
    refine .pure ⟨rfl, h.exists_token (P := fun l => l.kind = kind) hkind fun hend => ?_⟩
    exact Spot.wanted_ne_endOfInput _ (hwanted.trans hend.symm)
  · rw [if_neg (mt accepts_kind.mp hkind)]
    refine ends_unexpected h hspot hwanted fun t ht => hrefused t ht ?_
    rwa [h.current_of_head? ht] at hkind

theorem ends_closeTag (h : Follows dialect source depth draft left descent)
    (hclose : draft.AwaitsClose dialect left draft') :
    Ends closeTag descent (fun _ next => Reaches dialect source depth left draft' next)
      (Fails dialect source) := by
  have hexpect := ends_expect h hclose.spot_ne hclose.wanted_eq fun t ht hkind =>
    hclose.refuse t ht fun hlexeme => hkind (hlexeme ▸ rfl)
  refine hexpect.bind ?_
  rintro _ _ ⟨rfl, ⟨lexeme, p⟩, rest, rfl, hlexeme⟩
  cases lexeme <;> cases hlexeme
  refine (ends_advance h (hclose.close p)).bind ?_
  rintro _ next ⟨-, hnext, hfresh⟩
  exact .pure ⟨rest, Nat.lt_succ_self _, hnext, hfresh⟩

end Descent

end Stencil
