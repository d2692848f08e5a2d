/-
How arguments are written.

`SlotsText text slots` says that `text` is what may stand behind the name of a tag for the slots:
blanks in front of each one, and blanks around an operator and a `=` wherever one likes.  A name and
a number are written as they are, and a quoted text has its quote at both ends.

* `lexemesFrom mode cs` — the lexemes of the characters `cs`, wherever they stand; a lexeme is taken
  off where it is spelled (`lexemesFrom_spelled`), and blanks inside a tag are skipped
  (`lexemesFrom_blanks`);
* `SlotText.lexemesFrom` — a slot is taken off as its lexemes, if no name or number would go on with
  what follows it;
* `SlotsText.lexemesFrom` — so slots in front of a `}}` have the lexemes of slots, each of its own,
  in whatever order they come.
-/
import Stencil.Proofs.Concatenation

namespace Stencil

open Text (byteLength)
open Grammar (Primary Literal Operand Expr Slot Slots)

/-! ### Lexemes from a place on -/

/-- The lexemes of characters that are read from `mode` on. -/
def lexemesFrom (mode : Mode) (cs : List Char) : List Lexeme :=
  (Scanner.mk cs 0 mode).tokens.map Token.lexeme

theorem exists_cut_of_lexemesFrom (mode : Mode) (cs : List Char) (n : Nat) :
    ∃ pieces trail, Cut mode n cs pieces trail ∧
      pieces.map Piece.lexeme = lexemesFrom mode cs := by
  obtain ⟨pieces, trail, hcut, htokens⟩ := (Scanner.mk cs 0 mode).cut_tokens
  refine ⟨pieces.map (Piece.move (n + ·)), trail, hcut.move n, ?_⟩
  rw [lexemesFrom, ← htokens, List.map_map, List.map_map]
  rfl

/-- The lexemes are those of every cut, at whatever offset. -/
theorem Cut.lexemesFrom_eq {mode : Mode} {offset : Nat} {cs trail : List Char}
    {pieces : List Piece} (h : Cut mode offset cs pieces trail) :
    lexemesFrom mode cs = pieces.map Piece.lexeme := by
  obtain ⟨pieces', trail', hcut, hlexemes⟩ := exists_cut_of_lexemesFrom mode cs offset
  have htokens := h.tokens_eq.symm.trans hcut.tokens_eq
  rw [← hlexemes, show Piece.lexeme = Token.lexeme ∘ Piece.token from rfl, ← List.map_map,
    ← List.map_map, htokens]

/-- A lexeme is taken off where it is spelled. -/
theorem lexemesFrom_spelled {mode : Mode} {spelling rest : List Char} {l : Lexeme}
    (hmode : l.modeOf = mode) (h : l.Spelled spelling rest) :
    lexemesFrom mode (spelling ++ rest) = l :: lexemesFrom (l.modeAfter mode) rest := by
  obtain ⟨pieces, trail, hcut, hlexemes⟩ := exists_cut_of_lexemesFrom (l.modeAfter mode) rest
    (0 + byteLength [] + byteLength spelling)
  have hblank : ∀ c ∈ ([] : List Char), isBlank c = true := List.forall_mem_nil _
  have hwhole := Cut.cons hblank (fun _ => rfl) hmode h hcut
  rw [List.nil_append] at hwhole
  rw [hwhole.lexemesFrom_eq, List.map_cons, hlexemes]
  rfl

theorem lexemesFrom_inside {spelling rest : List Char} {l : Lexeme} (hmode : l.modeOf = .tag)
    (hafter : l.modeAfter .tag = .tag) (h : l.Spelled spelling rest) :
    lexemesFrom .tag (spelling ++ rest) = l :: lexemesFrom .tag rest := by
  rw [lexemesFrom_spelled hmode h, hafter]

theorem lexemesFrom_blanks {gap : List Char} (hgap : ∀ c ∈ gap, isBlank c = true)
    (cs : List Char) : lexemesFrom .tag (gap ++ cs) = lexemesFrom .tag cs := by
  obtain ⟨pieces, trail, hcut, hlexemes⟩ := exists_cut_of_lexemesFrom .tag cs (0 + byteLength gap)
  have htext : Mode.tag = .text → gap = [] := nofun
  obtain ⟨pieces', trail', hcut', hlexemes'⟩ := hcut.exists_prepend hgap htext
  rw [hcut'.lexemesFrom_eq, hlexemes', hlexemes]

/-! ### What follows -/

/-- Whether no name and no number goes on with the characters. -/
def EndsWord (rest : List Char) : Prop :=
  ∀ c, rest.head? = some c → continuesName c = false

theorem isDigit_eq_false_of_continuesName {c : Char} (h : continuesName c = false) :
    c.isDigit = false := by
  by_contra hdigit
  rw [Bool.not_eq_false] at hdigit
  rw [continuesName_of_isDigit hdigit] at h
  cases h

theorem endsWord_cons {c : Char} (h : continuesName c = false) (cs : List Char) :
    EndsWord (c :: cs) := by
  rintro _ ⟨⟩
  exact h

theorem endsWord_of_ne_nil {gap : List Char} (hgap : ∀ c ∈ gap, isBlank c = true) (hne : gap ≠ [])
    (cs : List Char) : EndsWord (gap ++ cs) := by
  obtain ⟨c, gap, rfl⟩ := List.exists_cons_of_ne_nil hne
  exact endsWord_cons (eq_false_of_isBlank (hgap c List.mem_cons_self) rfl) _

/-- Blanks in front end a word as well. -/
theorem EndsWord.blanks {rest : List Char} (h : EndsWord rest) {gap : List Char}
    (hgap : ∀ c ∈ gap, isBlank c = true) : EndsWord (gap ++ rest) := by
  by_cases hne : gap = []
  · rwa [hne, List.nil_append]
  · exact endsWord_of_ne_nil hgap hne rest

/-- No blanks in front make an operator of what is none. -/
theorem head?_ne_equals {gap cs : List Char} (hgap : ∀ c ∈ gap, isBlank c = true)
    (h : cs.head? ≠ some '=') : (gap ++ cs).head? ≠ some '=' := by
  cases gap with
  | nil => exact h
  | cons c gap =>
    intro heq
    obtain rfl : c = '=' := Option.some.inj heq
    exact absurd (hgap '=' List.mem_cons_self) (by decide)

/-! ### Values and slots -/

/-- How a variable, a number and a quoted text are written. -/
inductive PrimaryText : List Char → Value → Prop
  | name {cs : List Char} : isName cs = true → PrimaryText cs (.variable (String.ofList cs))
  | number {cs : List Char} : isNumber cs = true → PrimaryText cs (.number (String.ofList cs))
  | string {q : Char} {body content : List Char} :
      q = '"' ∨ q = '\'' → QuotedBody q body content →
      PrimaryText (q :: (body ++ [q])) (.string (String.ofList content))

/-- How a value in a slot is written.  The right side of a comparison is no number. -/
inductive ExprText : List Char → Value → Prop
  | primary {cs : List Char} {v : Value} : PrimaryText cs v → ExprText cs v
  | comparison {cs ds gap gap' : List Char} {v w : Value} (op : Comparison) :
      PrimaryText cs v → PrimaryText ds w → (∀ d, w ≠ .number d) →
      (∀ c ∈ gap, isBlank c = true) → (∀ c ∈ gap', isBlank c = true) →
      ExprText (cs ++ (gap ++ (op.symbol.toList ++ (gap' ++ ds)))) (.comparison op v w)

/-- How an argument is written, with its key if it is a named one. -/
inductive SlotText : List Char → Option String × Value → Prop
  | positional {cs : List Char} {v : Value} : ExprText cs v → SlotText cs (none, v)
  | named {key cs gap gap' : List Char} {v : Value} :
      isName key = true → ExprText cs v →
      (∀ c ∈ gap, isBlank c = true) → (∀ c ∈ gap', isBlank c = true) →
      SlotText (key ++ (gap ++ ('=' :: (gap' ++ cs)))) (some (String.ofList key), v)

/-- How arguments are written: with blanks in front of each one, and perhaps at the end. -/
inductive SlotsText : List Char → List (Option String × Value) → Prop
  | nil {gap : List Char} : (∀ c ∈ gap, isBlank c = true) → SlotsText gap []
  | cons {gap cs rest : List Char} {s : Option String × Value}
      {slots : List (Option String × Value)} :
      gap ≠ [] → (∀ c ∈ gap, isBlank c = true) → SlotText cs s → SlotsText rest slots →
      SlotsText (gap ++ (cs ++ rest)) (s :: slots)

/-! ### Their lexemes -/

/-- No value starts with a `=`. -/
theorem PrimaryText.head? {cs : List Char} {v : Value} (h : PrimaryText cs v) (rest : List Char) :
    (cs ++ rest).head? ≠ some '=' := by
  cases h with
  | name hname =>
    rcases cs with _ | ⟨c, cs⟩
    · cases hname
    · intro heq
      exact ne_of_class (Bool.and_eq_true_iff.mp hname).1 rfl (Option.some.inj heq)
  | number hnumber =>
    rcases cs with _ | ⟨c, cs⟩
    · cases hnumber
    · intro heq
      exact ne_of_class (Bool.and_eq_true_iff.mp hnumber).1 rfl (Option.some.inj heq)
  | string hq hbody =>
    intro heq
    rcases hq with rfl | rfl
    · exact absurd (Option.some.inj heq) (by decide)
    · exact absurd (Option.some.inj heq) (by decide)

theorem ExprText.head? {cs : List Char} {v : Value} (h : ExprText cs v) (rest : List Char) :
    (cs ++ rest).head? ≠ some '=' := by
  cases h with
  | primary h => exact h.head? rest
  | comparison op h =>
    rw [List.append_assoc]
    exact h.head? _

/-- A value is taken off as one lexeme. -/
theorem PrimaryText.lexemesFrom {cs : List Char} {v : Value} (h : PrimaryText cs v) :
    ∃ l, Primary l v ∧ ∀ rest, EndsWord rest →
      lexemesFrom .tag (cs ++ rest) = l :: lexemesFrom .tag rest := by
  cases h with
  | name hname =>
    refine ⟨_, .name _, fun rest hrest => ?_⟩
    exact lexemesFrom_inside rfl rfl ⟨String.toList_ofList.symm, hname, hrest⟩
  | number hnumber =>
    refine ⟨_, .literal (.number _), fun rest hrest => ?_⟩
    exact lexemesFrom_inside rfl rfl ⟨String.toList_ofList.symm, hnumber, fun c hc =>
      isDigit_eq_false_of_continuesName (hrest c hc)⟩
  | @string q body content hq hbody =>
    refine ⟨_, .literal (.string _), fun rest _ => ?_⟩
    refine lexemesFrom_inside rfl rfl ⟨q, body ++ [q], hq, rfl, body, ?_, .inl rfl⟩
    rwa [String.toList_ofList]

/-- On the right of an operator, too, unless it is a number. -/
theorem Grammar.Primary.operand {l : Lexeme} {w : Value} (h : Primary l w)
    (hnumber : ∀ d, w ≠ .number d) : Operand l w := by
  rcases h with n | (s | d)
  · exact .name n
  · exact .string s
  · exact absurd rfl (hnumber d)

theorem Comparison.head?_symbol (op : Comparison) (rest : List Char) :
    EndsWord (op.symbol.toList ++ rest) := by
  cases op <;> exact endsWord_cons rfl _

theorem ExprText.lexemesFrom {cs : List Char} {v : Value} (h : ExprText cs v) :
    ∃ ls, Expr ls v ∧ ∀ rest, EndsWord rest →
      lexemesFrom .tag (cs ++ rest) = ls ++ lexemesFrom .tag rest := by
  cases h with
  | primary h =>
    obtain ⟨l, hl, hlexemes⟩ := h.lexemesFrom
    exact ⟨[l], .primary hl, hlexemes⟩
  | @comparison cs ds gap gap' v w op h h' hnumber hgap hgap' =>
    obtain ⟨l, hl, hleft⟩ := h.lexemesFrom
    obtain ⟨r, hr, hright⟩ := h'.lexemesFrom
    refine ⟨_, .comparison op hl (hr.operand hnumber), fun rest hrest => ?_⟩
    have hop : (Lexeme.comparison op).Spelled op.symbol.toList (gap' ++ (ds ++ rest)) :=
      ⟨rfl, fun _ => head?_ne_equals hgap' (h'.head? rest)⟩
    have hends : EndsWord (gap ++ (op.symbol.toList ++ (gap' ++ (ds ++ rest)))) :=
      (op.head?_symbol _).blanks hgap
    simp only [List.append_assoc]
    rw [hleft _ hends, lexemesFrom_blanks hgap, lexemesFrom_inside rfl rfl hop,
      lexemesFrom_blanks hgap', hright rest hrest]
    rfl

/-- A slot is taken off as its lexemes. -/
theorem SlotText.lexemesFrom {cs : List Char} {s : Option String × Value} (h : SlotText cs s) :
    ∃ ls, Slot ls s ∧ ∀ rest, EndsWord rest →
      lexemesFrom .tag (cs ++ rest) = ls ++ lexemesFrom .tag rest := by
  cases h with
  | positional h =>
    obtain ⟨ls, hls, hlexemes⟩ := h.lexemesFrom
    exact ⟨ls, .positional hls, hlexemes⟩
  | @named key cs gap gap' v hkey h hgap hgap' =>
    obtain ⟨ls, hls, hlexemes⟩ := h.lexemesFrom
    refine ⟨_, .named (String.ofList key) hls, fun rest hrest => ?_⟩
    have hassign : Lexeme.assign.Spelled ['='] (gap' ++ (cs ++ rest)) :=
      ⟨rfl, head?_ne_equals hgap' (h.head? rest)⟩
    have hends : EndsWord (gap ++ (['='] ++ (gap' ++ (cs ++ rest)))) :=
      (endsWord_cons rfl _).blanks hgap
    have hname : (Lexeme.identifier (String.ofList key)).Spelled key
        (gap ++ (['='] ++ (gap' ++ (cs ++ rest)))) :=
      ⟨String.toList_ofList.symm, hkey, hends⟩
    have hwhole : key ++ (gap ++ ('=' :: (gap' ++ cs))) ++ rest =
        key ++ (gap ++ (['='] ++ (gap' ++ (cs ++ rest)))) := by
      simp only [List.append_assoc, List.cons_append, List.nil_append]
    rw [hwhole, lexemesFrom_inside rfl rfl hname, lexemesFrom_blanks hgap,
      lexemesFrom_inside rfl rfl hassign, lexemesFrom_blanks hgap', hlexemes rest hrest]
    rfl

/-- What follows the name of a tag: blanks, or what comes behind the slots. -/
theorem SlotsText.endsWord {text : List Char} {slots : List (Option String × Value)}
    (h : SlotsText text slots) {rest : List Char} (hrest : EndsWord rest) :
    EndsWord (text ++ rest) := by
  cases h with
  | nil hgap => exact hrest.blanks hgap
  | cons hne hgap =>
    rw [List.append_assoc]
    exact endsWord_of_ne_nil hgap hne _

/-- Slots are taken off one by one, each with lexemes of its own. -/
theorem SlotsText.lexemesFrom {text : List Char} {slots : List (Option String × Value)}
    (h : SlotsText text slots) :
    ∃ ls, Slots ls slots ∧ ∀ rest, EndsWord rest →
      lexemesFrom .tag (text ++ rest) = ls ++ lexemesFrom .tag rest := by
  induction h with
  | nil hgap => exact ⟨[], .nil, fun rest _ => lexemesFrom_blanks hgap rest⟩
  | @cons gap cs more s slots hne hgap hslot hmore ih =>
    obtain ⟨ls, hls, hfirst⟩ := hslot.lexemesFrom
    obtain ⟨ms, hms, hothers⟩ := ih
    refine ⟨ls ++ ms, .cons hls hms, fun rest hrest => ?_⟩
    rw [List.append_assoc, lexemesFrom_blanks hgap, List.append_assoc,
      hfirst _ (hmore.endsWord hrest), hothers rest hrest, List.append_assoc]

end Stencil
