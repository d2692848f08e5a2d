/-
Blanks inside of tags.

Blanks that are put in front of a token inside of a tag end the token before it where it ended
anyway, and are skipped.  So they change no token, and move those that follow.

* `Cut.widen` — the pieces of the source with the blanks;
* `Scanner.tokens_insert_blanks` — so the tokens are the same, those behind the blanks further back
  (`Text.shift`);
* `Template.ofTokens_move` — what tokens make does not depend on where they stand;
* `Engine.insert_blanks` — templates, syntax errors and code of the two sources.
-/
import Mathlib
import Stencil.Engine
import Stencil.Proofs.Concatenation
import Stencil.Proofs.Lookahead

namespace Stencil

open Text (byteLength)

/-! ### Offsets -/

namespace Text

/-- Where the byte at `position` stands when `length` bytes have been put in at `place`. -/
def shift (place length position : Nat) : Nat :=
  if position < place then position else length + position

variable {place length position : Nat}

theorem shift_of_lt (h : position < place) : shift place length position = position :=
  if_pos h

theorem shift_of_le (h : place ≤ position) : shift place length position = length + position :=
  if_neg (Nat.not_lt.mpr h)

theorem shift_monotone (place length : Nat) : Monotone (shift place length) := by
  intro i j hij
  simp only [shift]
  split <;> split <;> omega

theorem shift_zero (place : Nat) : shift place 0 = id := by
  funext position
  simp [shift]

/-- Where a text is split is told by the length of its first part. -/
theorem eq_of_append_eq {as bs cs ds : List Char} (h : as ++ bs = cs ++ ds)
    (hlength : byteLength as = byteLength cs) : as = cs ∧ bs = ds := by
  have has := takeBytes?_append as bs
  rw [h, hlength, takeBytes?_append] at has
  obtain rfl := Option.some.inj has
  exact ⟨rfl, List.append_cancel_left h⟩

end Text

/-! ### Pieces -/

/-- The piece with more blanks between its gap and its spelling. -/
def Piece.widen (blanks : List Char) (p : Piece) : Piece :=
  { p.move (byteLength blanks + ·) with gap := p.gap ++ blanks }

namespace Cut

variable {cs trail blanks : List Char} {before after : List Piece} {p : Piece}

/-- Blanks may be put in front of a piece that is read inside of a tag. -/
theorem widen (h : Cut .text 0 cs (before ++ p :: after) trail)
    (hinside : p.lexeme.modeOf = .tag) (hblank : ∀ c ∈ blanks, isBlank c = true)
    (hne : blanks ≠ []) :
    Cut .text 0
      (Piece.join before ++ (p.gap ++ blanks ++ (p.spelling ++ (Piece.join after ++ trail))))
      (before ++ p.widen blanks :: after.map (Piece.move (byteLength blanks + ·))) trail := by
  obtain ⟨hgap, -, hmode, hspelled, hposition⟩ := h.drop.head
  have hall : ∀ c ∈ p.gap ++ blanks, isBlank c = true := List.forall_mem_append.mpr ⟨hgap, hblank⟩
  have hbehind : Mode.text.behind (before.map Piece.lexeme) = .tag := hmode.symm.trans hinside
  -- Behind the piece all is as before, but further back.
  have hafter : Cut (p.lexeme.modeAfter .tag)
      (byteLength (Piece.join before) + byteLength (p.gap ++ blanks) + byteLength p.spelling)
      (Piece.join after ++ trail) (after.map (Piece.move (byteLength blanks + ·))) trail := by
    rw [← List.singleton_append, ← List.append_assoc] at h
    have hmoved := h.drop.move (byteLength blanks)
    rw [List.map_append, List.map_singleton, behind_concat, hbehind, Piece.join_concat] at hmoved
    simp only [Text.byteLength_append] at hmoved ⊢
    convert hmoved using 1
    omega
  have hwide : Cut .tag (byteLength (Piece.join before))
      (p.gap ++ blanks ++ (p.spelling ++ (Piece.join after ++ trail)))
      (p.widen blanks :: after.map (Piece.move (byteLength blanks + ·))) trail := by
    have htext : Mode.tag = .text → p.gap ++ blanks = [] := nofun
    have hcut := Cut.cons hall htext hinside hspelled hafter
    have htoken :
        Token.mk p.lexeme (byteLength (Piece.join before) + byteLength (p.gap ++ blanks)) =
          p.token.move (byteLength blanks + ·) := by
      rw [Token.move, hposition, Text.byteLength_append]
      congr 1
      omega
    rw [htoken] at hcut
    exact hcut
  -- In front of the blanks nothing can take them in.
  have hrest : Piece.join (p :: after) ++ trail ≠ [] := by
    rw [Piece.join_cons]
    simp [hspelled.ne_nil]
  refine extensible_of_ne_nil h hrest _ _ _ ?_ (hbehind.symm ▸ hwide)
  rw [hbehind]
  refine ⟨fun _ c hc => ?_, nofun⟩
  rw [List.head?_append_of_ne_nil _ (List.append_ne_nil_of_right_ne_nil _ hne)] at hc
  exact hall c (List.mem_of_mem_head? hc)

/-- Of the tokens of a cut those in front of a piece stay, and the others move with it. -/
theorem map_move_shift (h : Cut .text 0 cs (before ++ p :: after) trail) (n : Nat) :
    ((before ++ p :: after).map Piece.token).map (Token.move (Text.shift p.token.position n)) =
      before.map Piece.token ++ p.token.move (n + ·) ::
        (after.map Piece.token).map (Token.move (n + ·)) := by
  have hfront : (before.map Piece.token).map (Token.move (Text.shift p.token.position n)) =
      (before.map Piece.token).map id := by
    refine List.map_congr_left fun t ht => ?_
    have hlt : t.position < p.token.position := by
      have hbefore := h.position_lt t ht
      rw [h.position_eq, Text.byteLength_append]
      omega
    rw [Token.move, Text.shift_of_lt hlt]
    rfl
  have hback : (after.map Piece.token).map (Token.move (Text.shift p.token.position n)) =
      (after.map Piece.token).map (Token.move (n + ·)) := by
    refine List.map_congr_left fun t ht => ?_
    rw [Token.move, Text.shift_of_le (h.position_le t ht)]
    rfl
  have hhere : p.token.move (Text.shift p.token.position n) = p.token.move (n + ·) := by
    rw [Token.move, Text.shift_of_le (Nat.le_refl _)]
    rfl
  rw [List.map_append, List.map_cons, List.map_append, List.map_cons, hfront, hback, hhere,
    List.map_id]

end Cut

/-! ### Tokens -/

namespace Scanner

/-- Whether a token, and not the end of the input, is read at a byte offset inside of a tag. -/
def ReadsInTag (source : String) (position : Nat) : Prop :=
  ∃ n, ((ofSource source).take n).2.mode = .tag ∧
    ((ofSource source).token n).lexeme ≠ .endOfInput ∧
    ((ofSource source).token n).position = position

/-- A token inside of a tag has its piece in every cut of the source. -/
theorem ReadsInTag.exists_piece {source : String} {position : Nat}
    (h : ReadsInTag source position) :
    ∃ before p after trail, Cut .text 0 source.toList (before ++ p :: after) trail ∧
      p.lexeme.modeOf = .tag ∧ p.token.position = position := by
  obtain ⟨n, hmode, hend, hposition⟩ := h
  obtain ⟨pieces, trail, hcut, htokens⟩ := (ofSource source).cut_tokens
  change Cut .text 0 source.toList pieces trail at hcut
  rw [token_eq, ← htokens, List.getElem?_map] at hend hposition
  cases hp : pieces[n]? with
  | none => simp [hp] at hend
  | some p =>
    obtain ⟨hn, rfl⟩ := List.getElem?_eq_some_iff.mp hp
    have hsplit : pieces = pieces.take n ++ pieces[n] :: pieces.drop (n + 1) := by
      rw [List.cons_getElem_drop_succ, List.take_append_drop]
    rw [hsplit] at hcut
    refine ⟨_, _, _, trail, hcut, ?_, ?_⟩
    · have hplace := hcut.take_eq
      rw [List.length_take_of_le hn.le] at hplace
      obtain ⟨-, -, hpiece, -, -⟩ := hcut.drop.head
      rw [hpiece, ← hmode, ofSource, hplace]
    · rw [hp] at hposition
      exact hposition

/-- Such an offset is between two characters. -/
theorem ReadsInTag.exists_split {source : String} {position : Nat}
    (h : ReadsInTag source position) :
    ∃ a b, source = a ++ b ∧ byteLength a.toList = position := by
  obtain ⟨before, p, after, trail, hcut, -, hposition⟩ := h.exists_piece
  have htoken : p.token ∈ (ofSource source).tokens := by
    rw [ofSource, hcut.tokens_eq]
    exact List.mem_map_of_mem (List.mem_append_right _ List.mem_cons_self)
  obtain ⟨pre, post, hsource, hpre⟩ := Scanner.exists_split htoken
  refine ⟨String.ofList pre, String.ofList post, String.toList_inj.mp ?_, ?_⟩
  · rw [String.toList_append, String.toList_ofList, String.toList_ofList, hsource]
  · rw [String.toList_ofList, ← hpre, hposition]

variable {a b w : String}

/-- Blanks in front of a token inside of a tag move the tokens that follow, and change none. -/
theorem tokens_insert_blanks (hread : ReadsInTag (a ++ b) (byteLength a.toList))
    (hblank : ∀ c ∈ w.toList, isBlank c = true) :
    (ofSource (a ++ w ++ b)).tokens = (ofSource (a ++ b)).tokens.map
      (Token.move (Text.shift (byteLength a.toList) (byteLength w.toList))) := by
  by_cases hw : w = ""
  · subst hw
    rw [show byteLength "".toList = 0 from rfl, Text.shift_zero, show Token.move id = id from rfl,
      List.map_id, String.append_empty]
  obtain ⟨before, p, after, trail, hcut, hinside, hposition⟩ := hread.exists_piece
  have hsource := hcut.eq_join
  rw [String.toList_append, Piece.join_append, Piece.join_cons, List.append_assoc,
    List.append_assoc, List.append_assoc, ← List.append_assoc] at hsource
  have hlength : byteLength a.toList = byteLength (Piece.join before ++ p.gap) := by
    rw [← hposition, hcut.position_eq, Nat.zero_add]
  obtain ⟨ha, hb⟩ := Text.eq_of_append_eq hsource hlength
  have hwide := hcut.widen hinside hblank (fun h => hw (String.toList_eq_nil_iff.mp h))
  have hchars : (a ++ w ++ b).toList = Piece.join before ++
      (p.gap ++ w.toList ++ (p.spelling ++ (Piece.join after ++ trail))) := by
    rw [String.toList_append, String.toList_append, ha, hb]
    simp only [List.append_assoc]
  rw [← hchars] at hwide
  rw [ofSource, hwide.tokens_eq, ofSource, hcut.tokens_eq, ← hposition, hcut.map_move_shift,
    List.map_append, List.map_cons, Piece.map_token_move]
  rfl

/-- The end of the input moves with the tokens behind the blanks. -/
theorem endPosition_insert_blanks (a b w : String) :
    (ofSource (a ++ w ++ b)).endPosition =
      Text.shift (byteLength a.toList) (byteLength w.toList) (ofSource (a ++ b)).endPosition := by
  simp only [endPosition_ofSource, String.toList_append, Text.byteLength_append]
  rw [Text.shift_of_le (Nat.le_add_right _ _)]
  omega

/-- The same for numbered tokens, of which the last one is repeated forever. -/
theorem token_insert_blanks (hread : ReadsInTag (a ++ b) (byteLength a.toList))
    (hblank : ∀ c ∈ w.toList, isBlank c = true) (i : Nat) :
    (ofSource (a ++ w ++ b)).token i = ((ofSource (a ++ b)).token i).move
      (Text.shift (byteLength a.toList) (byteLength w.toList)) := by
  rw [token_eq, token_eq, tokens_insert_blanks hread hblank, endPosition_insert_blanks,
    List.getElem?_map]
  cases (ofSource (a ++ b)).tokens[i]? with
  | none => rfl
  | some token => rfl

end Scanner

/-! ### Templates and code -/

namespace Template

variable {dialect : Dialect} {a b w : String}

/-- Tokens make the same template, or have the same fault, wherever they stand. -/
theorem ofTokens_move (dialect : Dialect) (tokens : List Token) (position : Nat) (f : Nat → Nat) :
    ofTokens dialect (tokens.map (Token.move f)) (f position) =
      (ofTokens dialect tokens position).mapError (Fault.move f) := by
  -- A draft of nothing is the same everywhere.
  have hmoved : ofTokens dialect (tokens.map (Token.move f)) (f position) =
      ((ofTokens dialect tokens position).map
        fun template => ⟨[] ++ template.items⟩).mapError (Fault.move f) :=
    @Draft.completed_behind #[] f dialect {} tokens position
  rw [hmoved]
  cases ofTokens dialect tokens position with
  | error fault => rfl
  | ok template => rfl

/-- Blanks in front of a token inside of a tag do not change the template of a source. -/
theorem ofSource_eq_ok_of_blanks (hread : Scanner.ReadsInTag (a ++ b) (byteLength a.toList))
    (hblank : ∀ c ∈ w.toList, isBlank c = true) {template : Template}
    (h : ofSource dialect (a ++ b) = .ok template) :
    ofSource dialect (a ++ w ++ b) = .ok template := by
  have htokens := Grammar.ofSource_eq_ok_iff_ofTokens.mp h
  refine Grammar.ofSource_eq_ok_iff_ofTokens.mpr ?_
  rw [Scanner.tokens_insert_blanks hread hblank, Scanner.endPosition_insert_blanks, ofTokens_move,
    htokens]
  rfl

/-- They move its syntax error, if that stands behind them. -/
theorem ofSource_eq_error_of_blanks (hread : Scanner.ReadsInTag (a ++ b) (byteLength a.toList))
    (hblank : ∀ c ∈ w.toList, isBlank c = true) {e : SyntaxError}
    (h : ofSource dialect (a ++ b) = .error e) :
    ∃ e', ofSource dialect (a ++ w ++ b) = .error e' ∧
      e'.toFault = e.toFault.move (Text.shift (byteLength a.toList) (byteLength w.toList)) ∧
      e'.location = Text.Location.ofOffset (a ++ w ++ b).toList e'.position := by
  obtain ⟨fault, hfault, rfl⟩ := ofSource_eq_error h
  have hmoved := ofTokens_move dialect (Scanner.ofSource (a ++ b)).tokens
    (Scanner.ofSource (a ++ b)).endPosition
    (Text.shift (byteLength a.toList) (byteLength w.toList))
  rw [← Scanner.tokens_insert_blanks hread hblank, ← Scanner.endPosition_insert_blanks,
    hfault] at hmoved
  refine ⟨_, by rw [ofSource]; exact congrArg (Except.mapError _) hmoved, ?_, rfl⟩
  have hend := Scanner.endPosition_insert_blanks a b w
  rw [Scanner.endPosition_ofSource, Scanner.endPosition_ofSource] at hend
  simp only [Fault.locate, Fault.move, hend, (Text.shift_monotone _ _).map_min]

end Template

namespace Engine

/-- A source with a syntax error has no code. -/
theorem process_of_ofSource_eq_error {engine : Engine} {source : String} {e : SyntaxError}
    (h : Template.ofSource engine.dialect source = .error e) :
    engine.process source = .error (.malformed e) := by
  rw [process, parse, h]
  rfl

/-- Blanks in front of a token inside of a tag, whatever comes before that token, change neither the
tokens nor the template nor the code of a source.  What stands behind them is moved by their length,
and so is a syntax error. -/
theorem insert_blanks {source : String} {position : Nat}
    (hread : Scanner.ReadsInTag source position) :
    (∃ a b, source = a ++ b ∧ byteLength a.toList = position) ∧
    ∀ a b w : String, source = a ++ b → byteLength a.toList = position →
      (∀ c ∈ w.toList, isBlank c = true) →
      (∀ i, (Scanner.ofSource (a ++ w ++ b)).token i = ((Scanner.ofSource source).token i).move
        (Text.shift position (byteLength w.toList))) ∧
      (∀ dialect : Dialect,
        (∀ template, Template.ofSource dialect source = .ok template →
          Template.ofSource dialect (a ++ w ++ b) = .ok template) ∧
        ∀ e, Template.ofSource dialect source = .error e →
          ∃ e', Template.ofSource dialect (a ++ w ++ b) = .error e' ∧
            e'.toFault = e.toFault.move (Text.shift position (byteLength w.toList)) ∧
            e'.location = Text.Location.ofOffset (a ++ w ++ b).toList e'.position) ∧
      ∀ engine : Engine,
        (∀ code, engine.process (a ++ w ++ b) = .ok code ↔ engine.process source = .ok code) ∧
        ∀ e, engine.process (a ++ w ++ b) = .error (.uncompilable e) ↔
          engine.process source = .error (.uncompilable e) := by
  refine ⟨hread.exists_split, ?_⟩
  rintro a b w rfl rfl hblank
  refine ⟨Scanner.token_insert_blanks hread hblank, fun dialect => ⟨?_, ?_⟩, fun engine => ?_⟩
  · intro template h
    exact Template.ofSource_eq_ok_of_blanks hread hblank h
  · intro e h
    exact Template.ofSource_eq_error_of_blanks hread hblank h
  · cases h : Template.ofSource engine.dialect (a ++ b) with
    | ok template =>
      have h' := Template.ofSource_eq_ok_of_blanks hread hblank h
      rw [process_of_parse (parse_eq_ok_iff.mpr h), process_of_parse (parse_eq_ok_iff.mpr h')]
      exact ⟨fun code => Iff.rfl, fun e => Iff.rfl⟩
    | error e =>
      obtain ⟨e', h', -⟩ := Template.ofSource_eq_error_of_blanks hread hblank h
      rw [process_of_ofSource_eq_error h, process_of_ofSource_eq_error h']
      exact ⟨fun code => ⟨nofun, nofun⟩, fun e => ⟨nofun, nofun⟩⟩

/-- Blanks between an operator and a quoted text, and blanks with a line feed in front of a token
that is refused. -/
theorem insert_blanks_line_feed :
    (Engine.ofContext "c").process (r"{{x>" ++ " \t" ++ r"'y'}}") =
      .ok r#"function(c){return (c.x>"y");}"# ∧
    ∃ e', Template.ofSource {} (r"{{a" ++ "\x0d\n" ++ r"=1}}") = .error e' ∧
      e'.position = 5 ∧ e'.location = ⟨2, 1⟩ := by
  have htoken : (Scanner.ofSource (r"{{x>" ++ r"'y'}}")).token 3 =
      ⟨.string "y", 4⟩ := by
    cbv
  have hread : Scanner.ReadsInTag (r"{{x>" ++ r"'y'}}") 4 :=
    ⟨3, by cbv, by rw [htoken]; decide, congrArg Token.position htoken⟩
  have htoken' : (Scanner.ofSource (r"{{a" ++ r"=1}}")).token 2 = ⟨.assign, 3⟩ := by
    cbv
  have hread' : Scanner.ReadsInTag (r"{{a" ++ r"=1}}") 3 :=
    ⟨2, by cbv, by rw [htoken']; decide, congrArg Token.position htoken'⟩
  have herror : Template.ofSource {} (r"{{a" ++ r"=1}}") =
      .error ⟨⟨.unexpected r"`}}`" "operator \"=\"", 3⟩, ⟨1, 4⟩⟩ := by
    cbv
  have hblank : ∀ c ∈ " \t".toList, isBlank c = true := List.all_eq_true.mp (by cbv)
  have hblank' : ∀ c ∈ "\x0d\n".toList, isBlank c = true := List.all_eq_true.mp (by cbv)
  constructor
  · obtain ⟨-, -, hprocess⟩ := (insert_blanks hread).2 _ _ _ rfl (by cbv) hblank
    exact ((hprocess (.ofContext "c")).1 _).mpr (by cbv)
  · obtain ⟨-, htemplates, -⟩ := (insert_blanks hread').2 _ _ _ rfl (by cbv) hblank'
    obtain ⟨e', he', hfault, hlocation⟩ := (htemplates {}).2 _ herror
    have hposition : e'.position = 5 := congrArg Fault.position hfault
    refine ⟨e', he', hposition, ?_⟩
    rw [hlocation, hposition]
    cbv

end Engine

end Stencil
