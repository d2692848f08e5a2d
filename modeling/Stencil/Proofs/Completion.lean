/-
No fault is found later than it must be.

What stands in front of a syntax error can be completed to a source that has a template
(`Template.exists_append_of_error`).  The draft that has been read so far has a way out, and the
lexemes of the way out can be written behind it, once the last token is sealed.

The only fault that comes late is that of what stands behind a `{{/` with no block open: no name
could stand there (`SyntaxError.FollowsStrayClose`).
-/
import Mathlib
import Stencil.Proofs.WayOut

namespace Stencil

open Text (byteLength)

/-- Whether a syntax error is that something else was expected behind a `{{/` that stands outside
of all blocks. -/
def SyntaxError.FollowsStrayClose (e : SyntaxError) (source : String) : Prop :=
  e.cause.isUnexpected = true ∧ EndsStray ((Scanner.ofSource source).tokensBefore e.position)

/-- A message names the end of the input only where it is the end of the input. -/
theorem Lexeme.describe_ne_endOfInput {l : Lexeme} (h : l ≠ .endOfInput) :
    l.describe ≠ "end of input" := by
  intro heq
  have hhead := congrArg (fun s => s.toList.head?) heq
  cases l with
  | endOfInput => exact h rfl
  | tagOpen => exact absurd hhead (by decide)
  | blockOpen => exact absurd hhead (by decide)
  | blockClose => exact absurd hhead (by decide)
  | tagClose => exact absurd hhead (by decide)
  | _ =>
    simp [describe, Kind.describe, kind, value?, Kind.label] at hhead

namespace Template

variable {dialect : Dialect} {source : String} {e : SyntaxError} {cs : List Char}
  {front back : List Piece} {trail gap post : List Char} {place : Draft}

/-! ### Completing what has been read -/

/-- What is written behind pieces separates from them. -/
theorem separates_write {mode : Mode} {ms : List Lexeme} (h : Writable mode ms)
    (hhead : ∀ m ∈ ms.head?, m.kind ≠ .text) (hblank : ∀ c ∈ gap, isBlank c = true)
    (htext : mode = .text → gap = []) : mode.Separates (gap ++ write ms) := by
  constructor
  · rintro rfl c hc
    rcases gap with _ | ⟨d, gap⟩
    · obtain rfl := head_write h.runs hc
      rfl
    · obtain rfl : d = c := Option.some.inj hc
      exact hblank d (.head _)
  · rintro rfl
    rw [htext rfl, List.nil_append]
    rcases ms with _ | ⟨m, ms⟩
    · exact .inl rfl
    · have hopen := Lexeme.openBraces_prefix_write h.runs.1 (hhead m rfl)
      exact .inr (hopen.trans (List.prefix_append _ _))

/-- Extensible pieces that lead to a draft with a way out can be completed. -/
theorem exists_completion_of_extensible (hfront : Extensible front)
    (hplace : Draft.extendAll dialect {} (front.map Piece.token) = .ok place)
    (hstray : ¬place.Stray) (hblank : ∀ c ∈ gap, isBlank c = true)
    (htext : Mode.text.behind (front.map Piece.lexeme) = .text → gap = []) :
    ∃ more template, ofSource dialect (String.ofList (Piece.join front ++ gap ++ more)) =
      .ok template := by
  have hspells := Draft.spells_of_extendAll hplace
  rw [List.map_map] at hspells
  have hmode : Mode.text.behind (front.map Piece.lexeme) = place.spot.mode := hspells.leads.behind
  obtain ⟨ms, final, hwritable, hhead, hreads, houtside, hclosed⟩ :=
    Draft.exists_completion hspells hfront.cut.valid hstray
  rw [← hmode] at hwritable
  obtain ⟨pieces, hcut, hpieces⟩ := exists_cut_write
    (byteLength (Piece.join front) + byteLength gap) hwritable
  obtain ⟨more, trail, hmore, hlexemes⟩ := hcut.exists_prepend hblank htext
  have hwhole := hfront _ more trail (separates_write hwritable hhead hblank htext) hmore
  refine ⟨write ms, ⟨final.items.toList⟩, Grammar.ofSource_eq_ok_iff_ofTokens.mpr ?_⟩
  have htokens : (Scanner.ofSource (String.ofList (Piece.join front ++ gap ++ write ms))).tokens =
      front.map Piece.token ++ more.map Piece.token := by
    rw [Scanner.ofSource, String.toList_ofList, List.append_assoc, hwhole.tokens_eq,
      List.map_append]
  have hrest : place.extendAll dialect (more.map Piece.token) = .ok final := by
    refine hreads _ ?_
    rw [← hpieces, ← hlexemes, List.map_map]
    rfl
  have hall : Draft.extendAll dialect {} (front.map Piece.token ++ more.map Piece.token) =
      .ok final := Draft.extendAll_append_eq_ok_iff.mpr ⟨place, hplace, hrest⟩
  rw [htokens, ofTokens, hall]
  exact Draft.finish_eq_ok_iff.mpr ⟨houtside, hclosed, rfl⟩

/-- Pieces of a source that lead to a draft with a way out can be completed, with the blanks
behind them. -/
theorem exists_completion_of_cut (hcut : Cut .text 0 cs (front ++ back) trail)
    (hplace : Draft.extendAll dialect {} (front.map Piece.token) = .ok place)
    (hstray : ¬place.Stray) (hrest : Piece.join back ++ trail = gap ++ post)
    (hblank : ∀ c ∈ gap, isBlank c = true)
    (htext : Mode.text.behind (front.map Piece.lexeme) = .text → gap = []) :
    ∃ more template, ofSource dialect (String.ofList (Piece.join front ++ gap ++ more)) =
      .ok template := by
  by_cases hend : Piece.join back ++ trail = []
  · obtain ⟨rfl, -⟩ := List.append_eq_nil_iff.mp (hrest.symm.trans hend)
    obtain ⟨hjoin, rfl⟩ := List.append_eq_nil_iff.mp hend
    obtain rfl : back = [] := hcut.eq_nil_of_join hjoin
    rw [List.append_nil] at hcut
    rcases List.eq_nil_or_concat front with rfl | ⟨others, p, rfl⟩
    · exact exists_completion_of_extensible extensible_nil hplace hstray hblank htext
    -- The source ends with the pieces, and the last of them may be unfinished.
    · rw [List.concat_eq_append] at hcut hplace ⊢
      obtain ⟨extra, l', hshape, hsealed⟩ := exists_extensible hcut
      rw [List.map_append, List.map_singleton] at hplace
      obtain ⟨mid, hmid, hlast⟩ := Draft.extendAll_concat_eq_ok_iff.mp hplace
      have hspells := Draft.spells_of_extendAll hmid
      obtain ⟨place', hplace', hstray'⟩ := Draft.exists_extend_of_sameShape hspells hshape hlast
      have hall : Draft.extendAll dialect {}
          ((others ++ [p.lengthen extra l']).map Piece.token) = .ok place' := by
        rw [List.map_append, List.map_singleton]
        exact Draft.extendAll_concat_eq_ok_iff.mpr ⟨mid, hmid, hplace'⟩
      have hnone : ∀ c ∈ ([] : List Char), isBlank c = true := nofun
      obtain ⟨more, template, hok⟩ := exists_completion_of_extensible hsealed hall
        (fun h => hstray (hstray' h)) hnone fun _ => rfl
      refine ⟨extra ++ more, template, ?_⟩
      rw [← hok, Piece.join_concat, Piece.join_concat]
      simp only [Piece.lengthen, List.append_assoc, List.nil_append]
  · exact exists_completion_of_extensible (extensible_of_ne_nil hcut hend) hplace hstray hblank
      htext

/-- Nothing completes what leads to a stray draft. -/
theorem ofSource_ne_ok_of_stray (hcut : Cut .text 0 cs (front ++ back) trail)
    (hplace : Draft.extendAll dialect {} (front.map Piece.token) = .ok place)
    (hstray : place.Stray) (more : List Char) (template : Template) :
    ofSource dialect (String.ofList (Piece.join front ++ more)) ≠ .ok template := by
  obtain ⟨⟨position, hspot⟩, -⟩ := id hstray
  obtain ⟨before, mid, htokens, -, -, -⟩ := Draft.exists_of_closeStart hplace hspot
  obtain ⟨others, rest, rfl, -, hlast⟩ := List.map_eq_append_iff.mp htokens
  obtain ⟨p, rfl, hp⟩ := List.map_eq_singleton_iff.mp hlast
  -- The last piece is a `{{/`, which ends where it ends whatever follows.
  have hclose : p.lexeme = .blockClose := congrArg Token.lexeme hp
  obtain ⟨pieces, trail', hpieces⟩ := exists_cut
    (Mode.text.behind ((others ++ [p]).map Piece.lexeme))
    (0 + byteLength (Piece.join (others ++ [p]))) more
  have hwhole := hcut.splice hpieces fun q hq => by
    obtain rfl : p = q := by simpa using hq
    rw [List.append_assoc, List.singleton_append] at hcut
    obtain ⟨-, -, -, hspelled, -⟩ := hcut.drop.head
    rw [hclose] at hspelled ⊢
    exact hspelled
  intro hok
  have hsource := Grammar.ofSource_eq_ok_iff_ofTokens.mp hok
  rw [Scanner.ofSource, String.toList_ofList, hwhole.tokens_eq, List.map_append] at hsource
  exact hstray.ofTokens_ne_ok hplace _ _ _ hsource

/-! ### What stands in front of a syntax error -/

/-- The pieces `front`, and the blanks `gap` behind them, are what stands in front of a syntax
error, and `place` is the draft that they lead to. -/
structure InFront (dialect : Dialect) (source : String) (e : SyntaxError)
    (front back : List Piece) (trail gap post : List Char) (place : Draft) : Prop where
  cut : Cut .text 0 source.toList (front ++ back) trail
  place_eq : Draft.extendAll dialect {} (front.map Piece.token) = .ok place
  rest_eq : Piece.join back ++ trail = gap ++ post
  gap_blank : ∀ c ∈ gap, isBlank c = true
  gap_text : Mode.text.behind (front.map Piece.lexeme) = .text → gap = []
  position : e.position = byteLength (Piece.join front ++ gap)
  tokensBefore : (Scanner.ofSource source).tokensBefore e.position = front.map Piece.token
  place_cases : place.spot = .outside ∨ e.cause.isUnexpected = true
  post_eq_nil : ∀ expected, e.cause = .unexpected expected "end of input" → post = []

/-- A token that is refused has something in front of it. -/
theorem exists_inFront_of_refused {before after : List Piece} {p : Piece} {draft : Draft}
    {fault : Fault} (hcut : Cut .text 0 source.toList (before ++ p :: after) trail)
    (hbefore : Draft.extendAll dialect {} (before.map Piece.token) = .ok draft)
    (hrefused : draft.extend dialect p.token = .error fault) :
    ∃ front back gap post place,
      InFront dialect source (Fault.locate source fault) front back trail gap post place := by
  obtain ⟨front, shown, rest, place, hread, hposition, -, hplace, hcases⟩ :=
    exists_shown_piece hbefore hrefused
  -- What is refused is a token in front of the end of the input.
  have hend : p.lexeme ≠ .endOfInput := by
    obtain ⟨-, -, -, hspelled, -⟩ := hcut.drop.head
    intro hend
    rw [hend] at hspelled
    cases hspelled
  have hfound : ∀ expected, fault.cause ≠ .unexpected expected "end of input" := by
    intro expected hfound
    cases Draft.refuses_of_extend hrefused with
    | unexpected =>
      have hdescribe := (Cause.unexpected.inj hfound).2
      exact absurd hdescribe (Lexeme.describe_ne_endOfInput hend)
    | nestedTooDeep _ _ _ => cases hfound
    | strayClose _ _ _ => cases hfound
    | mismatchedClose _ _ _ _ => cases hfound
  rw [← List.singleton_append, ← List.append_assoc, hread, List.append_assoc,
    List.cons_append] at hcut
  obtain ⟨hblank, htext, -, -, -⟩ := hcut.drop.head
  have hlocate := hcut.locate_eq hposition
  refine ⟨front, shown :: (rest ++ after), shown.gap,
    shown.spelling ++ Piece.join (rest ++ after) ++ trail, place, ?_⟩
  exact
    { cut := hcut
      place_eq := hplace
      rest_eq := by simp only [Piece.join_cons, List.append_assoc]
      gap_blank := hblank
      gap_text := htext
      position := by rw [hlocate, ← hposition, hcut.position_eq, Nat.zero_add]
      tokensBefore := hcut.tokensBefore_locate hposition
      place_cases := by
        rw [hlocate]
        exact hcases
      post_eq_nil := by
        rw [hlocate]
        exact fun expected h => absurd h (hfound expected) }

/-- A source that ends too early is in front of its end. -/
theorem inFront_of_atEnd {pieces : List Piece} {wanted : Pattern}
    (hcut : Cut .text 0 source.toList pieces trail)
    (hall : Draft.extendAll dialect {} (pieces.map Piece.token) = .ok place) :
    InFront dialect source
      (Fault.locate source (.unexpected wanted ⟨.endOfInput, byteLength source.toList⟩))
      pieces [] trail trail [] place := by
  have hsource := hcut.eq_join
  have hlocate : Fault.locate source (.unexpected wanted
      ⟨.endOfInput, byteLength source.toList⟩) = ⟨_, Text.Location.after source.toList⟩ :=
    Fault.locate_eq (List.append_nil source.toList).symm rfl
  have hlength : byteLength (Piece.join pieces) ≤ byteLength source.toList := by
    rw [hsource, Text.byteLength_append]
    exact Nat.le_add_right _ _
  obtain ⟨hblank, htext⟩ := hcut.trail
  rw [← List.append_nil pieces] at hcut
  exact
    { cut := hcut
      place_eq := hall
      rest_eq := (List.append_nil _).symm
      gap_blank := hblank
      gap_text := htext
      position := by
        rw [hlocate, ← hsource]
        rfl
      tokensBefore := by
        rw [hlocate]
        exact hcut.tokensBefore hlength nofun
      place_cases := by
        rw [hlocate]
        exact .inr rfl
      post_eq_nil := fun _ _ => rfl }

/-- Every syntax error has something in front of it. -/
theorem exists_inFront (h : ofSource dialect source = .error e) :
    ∃ front back trail gap post place,
      InFront dialect source e front back trail gap post place := by
  obtain ⟨pieces, trail, fault, hcut, hstop, rfl⟩ := exists_stop h
  cases hstop with
  | refused hpieces hbefore hrefused =>
    subst hpieces
    obtain ⟨front, back, gap, post, place, hfront⟩ :=
      exists_inFront_of_refused hcut hbefore hrefused
    exact ⟨front, back, trail, gap, post, place, hfront⟩
  | atEnd hall => exact ⟨pieces, [], trail, trail, [], _, inFront_of_atEnd hcut hall⟩

/-- The draft in front of a syntax error is stray exactly if a `{{/` outside of all blocks is. -/
theorem InFront.stray_iff (h : InFront dialect source e front back trail gap post place) :
    place.Stray ↔ e.FollowsStrayClose source := by
  rw [SyntaxError.FollowsStrayClose, h.tokensBefore, ← Draft.stray_iff_endsStray h.place_eq]
  constructor
  · intro hstray
    refine ⟨?_, hstray⟩
    rcases h.place_cases with houtside | hunexpected
    · obtain ⟨⟨position, hspot⟩, -⟩ := hstray
      rw [houtside] at hspot
      cases hspot
    · exact hunexpected
  · exact And.right

/-- A fault is found as early as it can be: what stands in front of it can be completed to a
source that has a template.  The only fault that is found too late is that of what follows on a
`{{/` outside of all blocks.  In particular a source that ends too early can be completed as a
whole, unless it ends behind such a `{{/`. -/
theorem exists_append_of_error (h : ofSource dialect source = .error e) :
    ∃ pre, Text.takeBytes? source.toList e.position = some pre ∧
      ((∃ more template, ofSource dialect (String.ofList pre ++ more) = .ok template) ↔
        ¬e.FollowsStrayClose source) ∧
      ∀ expected, e.cause = .unexpected expected "end of input" →
        ¬e.FollowsStrayClose source →
        ∃ more template, ofSource dialect (source ++ more) = .ok template := by
  obtain ⟨front, back, trail, gap, post, place, hfront⟩ := exists_inFront h
  have hsource : source.toList = Piece.join front ++ gap ++ post := by
    rw [hfront.cut.eq_join, Piece.join_append, List.append_assoc, hfront.rest_eq,
      List.append_assoc]
  have hcompletes : ¬e.FollowsStrayClose source →
      ∃ more template, ofSource dialect (String.ofList (Piece.join front ++ gap) ++ more) =
        .ok template := by
    intro hstray
    rw [← hfront.stray_iff] at hstray
    obtain ⟨more, template, hok⟩ := exists_completion_of_cut hfront.cut hfront.place_eq hstray
      hfront.rest_eq hfront.gap_blank hfront.gap_text
    exact ⟨String.ofList more, template, by rwa [← String.ofList_append]⟩
  refine ⟨Piece.join front ++ gap, ?_, ⟨?_, hcompletes⟩, ?_⟩
  · rw [hfront.position, hsource]
    exact Text.takeBytes?_append _ _
  · rintro ⟨more, template, hok⟩ hstray
    rw [← hfront.stray_iff] at hstray
    have hne := ofSource_ne_ok_of_stray hfront.cut hfront.place_eq hstray (gap ++ more.toList)
      template
    rw [← List.append_assoc, String.ofList_append, String.ofList_toList] at hne
    exact hne hok
  · intro expected hfound hstray
    have hwhole : String.ofList (Piece.join front ++ gap) = source := by
      rw [hfront.post_eq_nil expected hfound, List.append_nil] at hsource
      rw [← hsource, String.ofList_toList]
    rw [← hwhole]
    exact hcompletes hstray

/-- A quoted text without its quote can be completed, and so can the block around it. -/
theorem exists_append_of_unterminated :
    ∃ more template, ofSource {} (r"{{#a}}{{b 'c\" ++ more) = .ok template := by
  have herror : ofSource {} r"{{#a}}{{b 'c\" =
      .error ⟨⟨.unexpected r"`}}`" "end of input", 13⟩, ⟨1, 14⟩⟩ := by
    cbv
  have hstray : ¬SyntaxError.FollowsStrayClose
      ⟨⟨.unexpected r"`}}`" "end of input", 13⟩, ⟨1, 14⟩⟩
      r"{{#a}}{{b 'c\" := by
    rintro ⟨-, hlast, -⟩
    have hstring : ((Scanner.tokensBefore (.ofSource r"{{#a}}{{b 'c\")
        13).getLast?.map Token.lexeme) = some (.string "c") := by
      cbv
    rw [hstring] at hlast
    cases hlast
  obtain ⟨-, -, -, hwhole⟩ := exists_append_of_error herror
  exact hwhole _ rfl hstray

end Template

end Stencil
