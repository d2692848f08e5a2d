/-
A cursor is a number.

Looking ahead fills a slot that the next move empties, so a cursor on a token has two shapes: its
scanner stands behind that token, or behind the one after it.  Which of the two it is never shows
in an answer.

* `Scanner.token` — token number `i`; behind the last one the end of the input stands forever
  (`token_eq`);
* `Cursor.StandsAt` — the two shapes of a cursor on the token of a number (`answer_standsAt`: one
  request keeps them, `answers_standsAt`: so do all);
* `Cursor.answers_eq` — what a cursor answers to requests is what a number among the tokens does.
-/
import Stencil.Proofs.Splice
import Stencil.Token.Cursor

namespace Stencil

open Text (byteLength)

/-! ### Numbered tokens -/

namespace Scanner

variable {s : Scanner}

/-- The token behind `i` others. -/
def token (s : Scanner) (i : Nat) : Token :=
  (s.take i).2.next.1

theorem token_succ (s : Scanner) (i : Nat) : s.token (i + 1) = s.next.2.token i := rfl

theorem take_succ (s : Scanner) (n : Nat) : (s.take (n + 1)).2 = (s.take n).2.next.2 := by
  induction n generalizing s with
  | zero => rfl
  | succ n ih => exact ih s.next.2

/-- Where nothing is left, every further token is the end of the input. -/
theorem token_of_body_nil (h : s.body = []) (i : Nat) :
    s.token i = ⟨.endOfInput, s.endPosition⟩ := by
  have hstart : s.start = s.endPosition := by
    rw [start, endPosition, ← s.gap_append_body, h, List.append_nil]
  induction i generalizing s with
  | zero =>
    rw [← hstart]
    exact congrArg Prod.fst (next_of_body_nil h)
  | succ i ih =>
    have hnext : s.next.2 = ⟨[], s.start, s.mode⟩ := congrArg Prod.snd (next_of_body_nil h)
    rw [token_succ, ← s.endPosition_next, hnext]
    refine ih ?_ ?_
    · cases s.mode <;> rfl
    · cases s.mode <;> rfl

/-- The numbered tokens are those before the end of the input, and then the end forever. -/
theorem token_eq (s : Scanner) (i : Nat) :
    s.token i = s.tokens[i]?.getD ⟨.endOfInput, s.endPosition⟩ := by
  fun_induction tokens s generalizing i with
  | case1 s step hend => exact token_of_body_nil (body_eq_nil hend) i
  | case2 s step hend ih =>
    cases i with
    | zero => rfl
    | succ i =>
      rw [token_succ, List.getElem?_cons_succ, ← s.endPosition_next]
      exact ih i

/-- No token stands behind the end of its source. -/
theorem position_token_le (source : String) (i : Nat) :
    ((ofSource source).token i).position ≤ byteLength source.toList := by
  rw [token_eq, endPosition_ofSource]
  cases hi : (ofSource source).tokens[i]? with
  | none => exact Nat.le_refl _
  | some token => exact Nat.le_of_lt (position_lt (List.mem_of_getElem? hi))

end Scanner

/-! ### Requests -/

/-- What one can ask of a cursor. -/
inductive Request
  | source
  | current
  /-- Moves on, and asks for the token that is left. -/
  | advance
  /-- Moves on, and asks for the value of the token that is left. -/
  | advanceValue
  | currentIs (wanted : Pattern)
  | upcomingIs (wanted : Pattern)
  | expect (wanted : Pattern)
  | unexpected (wanted : Pattern)
  | error (cause : Cause)
  | errorAt (cause : Cause) (position : Nat)

/-- An answer to a request. -/
inductive Answer
  | text (text : String)
  | token (token : Token)
  | truth (holds : Bool)
  | checked (result : Except SyntaxError Unit)
  | error (e : SyntaxError)

namespace Cursor

/-- The answer of a cursor, and the cursor that has given it. -/
def answer (cursor : Cursor) : Request → Answer × Cursor
  | .source => (.text cursor.source, cursor)
  | .current => (.token cursor.current, cursor)
  | .advance => (.token cursor.current, cursor.advance)
  | .advanceValue => (.text cursor.current.lexeme.value, cursor.advance)
  | .currentIs wanted => (.truth (cursor.currentIs wanted), cursor)
  | .upcomingIs wanted =>
    let (holds, cursor) := cursor.upcomingIs wanted
    (.truth holds, cursor)
  | .expect wanted => (.checked (cursor.expect wanted), cursor)
  | .unexpected wanted => (.error (cursor.unexpected wanted), cursor)
  | .error cause => (.error (cursor.error cause), cursor)
  | .errorAt cause position => (.error (cursor.errorAt cause position), cursor)

/-- The answers to one request after another, and the cursor behind them. -/
def answers (cursor : Cursor) : List Request → List Answer × Cursor
  | [] => ([], cursor)
  | request :: rest =>
    let (first, cursor) := cursor.answer request
    let (others, cursor) := cursor.answers rest
    (first :: others, cursor)

end Cursor

/-- A number among the tokens of a source. -/
structure TokenNumber where
  source : String
  number : Nat := 0

namespace TokenNumber

variable (n : TokenNumber)

/-- The token of the number. -/
def current : Token :=
  (Scanner.ofSource n.source).token n.number

/-- The token of the next number. -/
def upcoming : Token :=
  (Scanner.ofSource n.source).token (n.number + 1)

/-- A fault right where the token of the number starts. -/
def error (cause : Cause) : SyntaxError :=
  ⟨⟨cause, n.current.position⟩, Text.Location.ofOffset n.source.toList n.current.position⟩

/-- The fault that names the token of the number. -/
def unexpected (wanted : Pattern) : SyntaxError :=
  n.error (.unexpected wanted.describe n.current.lexeme.describe)

/-- The answer that the tokens give to a request. -/
def answer : Request → Answer
  | .source => .text n.source
  | .current => .token n.current
  | .advance => .token n.current
  | .advanceValue => .text n.current.lexeme.value
  | .currentIs wanted => .truth (wanted.accepts n.current.lexeme)
  | .upcomingIs wanted => .truth (wanted.accepts n.upcoming.lexeme)
  | .expect wanted =>
    .checked (if wanted.accepts n.current.lexeme then .ok () else .error (n.unexpected wanted))
  | .unexpected wanted => .error (n.unexpected wanted)
  | .error cause => .error (n.error cause)
  | .errorAt cause position => .error (Fault.locate n.source ⟨cause, position⟩)

/-- The number behind a request: only a move changes it. -/
def behind : Request → TokenNumber
  | .advance | .advanceValue => { n with number := n.number + 1 }
  | _ => n

/-- The answers to one request after another, and the number behind them. -/
def answers (n : TokenNumber) : List Request → List Answer × TokenNumber
  | [] => ([], n)
  | request :: rest =>
    let (others, behind) := (n.behind request).answers rest
    (n.answer request :: others, behind)

/-- A fault at a token is shown right there. -/
theorem locate_eq_error (cause : Cause) :
    Fault.locate n.source ⟨cause, n.current.position⟩ = n.error cause := by
  have hmin : min n.current.position (byteLength n.source.toList) = n.current.position :=
    Nat.min_eq_left (Scanner.position_token_le n.source n.number)
  simp only [Fault.locate, hmin, error]

end TokenNumber

/-! ### Cursors -/

namespace Cursor

/-- A cursor on the token of a number: the slot is empty and the scanner stands behind that token,
or the slot holds the next token and the scanner stands behind that one.  So the scanner has taken
no token off twice. -/
inductive StandsAt (n : TokenNumber) : Cursor → Prop
  | behindCurrent :
      StandsAt n ⟨n.source, n.current, none, ((Scanner.ofSource n.source).take (n.number + 1)).2⟩
  | behindUpcoming :
      StandsAt n ⟨n.source, n.current, some n.upcoming,
        ((Scanner.ofSource n.source).take (n.number + 2)).2⟩

namespace StandsAt

variable {n : TokenNumber} {cursor : Cursor}

theorem ofSource (source : String) : StandsAt ⟨source, 0⟩ (Cursor.ofSource source) :=
  .behindCurrent

theorem source_eq (h : StandsAt n cursor) : cursor.source = n.source := by
  cases h with
  | behindCurrent => rfl
  | behindUpcoming => rfl

theorem current_eq (h : StandsAt n cursor) : cursor.current = n.current := by
  cases h with
  | behindCurrent => rfl
  | behindUpcoming => rfl

theorem upcoming_eq (h : StandsAt n cursor) : cursor.upcoming = n.upcoming := by
  cases h with
  | behindCurrent => rfl
  | behindUpcoming => rfl

/-- Looking ahead fills the slot, if it is empty. -/
theorem lookAhead (h : StandsAt n cursor) : StandsAt n cursor.lookAhead := by
  cases h with
  | behindCurrent =>
    have h : StandsAt n _ := .behindUpcoming
    rw [Scanner.take_succ] at h
    exact h
  | behindUpcoming => exact .behindUpcoming

/-- A move empties the slot, if it is filled. -/
theorem advance (h : StandsAt n cursor) :
    StandsAt { n with number := n.number + 1 } cursor.advance := by
  cases h with
  | behindCurrent =>
    have h : StandsAt { n with number := n.number + 1 } _ := .behindCurrent
    rw [Scanner.take_succ] at h
    exact h
  | behindUpcoming => exact .behindCurrent

theorem error_eq (h : StandsAt n cursor) (cause : Cause) : cursor.error cause = n.error cause := by
  rw [Cursor.error, errorAt, h.source_eq, h.current_eq]
  exact n.locate_eq_error cause

theorem unexpected_eq (h : StandsAt n cursor) (wanted : Pattern) :
    cursor.unexpected wanted = n.unexpected wanted := by
  rw [Cursor.unexpected, h.source_eq, h.current_eq]
  exact n.locate_eq_error _

end StandsAt

variable {n : TokenNumber} {cursor : Cursor}

/-- To one request a cursor gives the answer of its number, and it goes where the number goes. -/
theorem answer_standsAt (h : StandsAt n cursor) (request : Request) :
    (cursor.answer request).1 = n.answer request ∧
      StandsAt (n.behind request) (cursor.answer request).2 := by
  cases request with
  | source => exact ⟨congrArg Answer.text h.source_eq, h⟩
  | current => exact ⟨congrArg Answer.token h.current_eq, h⟩
  | advance => exact ⟨congrArg Answer.token h.current_eq, h.advance⟩
  | advanceValue =>
    refine ⟨?_, h.advance⟩
    rw [answer, h.current_eq]
    rfl
  | currentIs wanted =>
    refine ⟨?_, h⟩
    rw [answer, currentIs, h.current_eq]
    rfl
  | upcomingIs wanted =>
    refine ⟨?_, h.lookAhead⟩
    rw [answer, upcomingIs, h.upcoming_eq]
    rfl
  | expect wanted =>
    refine ⟨?_, h⟩
    rw [answer, expect, currentIs, h.current_eq, h.unexpected_eq]
    rfl
  | unexpected wanted => exact ⟨congrArg Answer.error (h.unexpected_eq wanted), h⟩
  | error cause => exact ⟨congrArg Answer.error (h.error_eq cause), h⟩
  | errorAt cause position =>
    refine ⟨?_, h⟩
    rw [answer, errorAt, h.source_eq]
    rfl

/-- To requests a cursor gives the answers of its number, and it goes where the number goes. -/
theorem answers_standsAt (h : StandsAt n cursor) (requests : List Request) :
    (cursor.answers requests).1 = (n.answers requests).1 ∧
      StandsAt (n.answers requests).2 (cursor.answers requests).2 := by
  induction requests generalizing n cursor with
  | nil => exact ⟨rfl, h⟩
  | cons request rest ih =>
    obtain ⟨hfirst, hnext⟩ := answer_standsAt h request
    obtain ⟨hothers, hlast⟩ := ih hnext
    exact ⟨congr (congrArg List.cons hfirst) hothers, hlast⟩

/-- Whatever is asked of a cursor, and in whichever order, the answers are those of a number among
the tokens of the source, which are its tokens before the end of the input and then the end
forever.  The number starts at zero and only moves change it, and the scanner is never more than
one token ahead of it. -/
theorem answers_eq (source : String) (requests : List Request) :
    (∀ i, (Scanner.ofSource source).token i =
      (Scanner.ofSource source).tokens[i]?.getD ⟨.endOfInput, byteLength source.toList⟩) ∧
    ((ofSource source).answers requests).1 = (TokenNumber.answers ⟨source, 0⟩ requests).1 ∧
    StandsAt (TokenNumber.answers ⟨source, 0⟩ requests).2
      ((ofSource source).answers requests).2 := by
  refine ⟨fun i => ?_, answers_standsAt (.ofSource source) requests⟩
  rw [← Scanner.endPosition_ofSource]
  exact Scanner.token_eq _ i

/-- Looked at or not, the tokens that are met are the same. -/
example : ((ofSource r"{{a=1").answers
      [.upcomingIs ⟨.identifier, none⟩, .advance, .advanceValue, .upcomingIs ⟨.number, none⟩,
        .upcomingIs ⟨.operator, none⟩, .advance, .current]).1 =
    [.truth true, .token ⟨.tagOpen, 0⟩, .text "a", .truth true, .truth false,
      .token ⟨.assign, 3⟩, .token ⟨.number "1", 4⟩] := by
  cbv

end Cursor

end Stencil
