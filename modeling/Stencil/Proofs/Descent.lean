/-
Templates by recursive descent.

A template can be read by actions that call each other as its parts nest: a list of items holds
blocks, a block holds lists of items, a tag holds arguments.  Three of them are loops, over items,
over arguments and over the sections of a block.  Nothing in their text says that they end, and
`Descent.Action` leaves it open: `none` stands for an action that never does.

* `Arguments.readOn`, `Dialect.readItems`, `Dialect.readSections` — the three loops;
* `Dialect.readBlock` — a block, which may hold others;
* `Template.descend` — the descent through a whole source;
* `Descent.Ends` — that an action ends, and what is true then, with rules that follow the text of
  an action.

A descent keeps the tokens that its cursor has moved on from (`Descent.passed`).  It notes each
round of a loop and each start of a block, with the place where it is then (`Descent.visits`).
-/
import Mathlib
import Stencil.Template
import Stencil.Dialect
import Stencil.Token.Cursor

namespace Stencil

namespace Descent

/-- What a descent can come to again and again. -/
inductive Site
  /-- A round of the loop over items. -/
  | items
  /-- A round of the loop over arguments. -/
  | arguments
  /-- A round of the loop over the sections of a block. -/
  | sections
  /-- The start of a block, behind its `{{#`. -/
  | block
deriving DecidableEq, Repr

/-- A site and the number of tokens in front of the place where the descent comes to it. -/
structure Visit where
  site : Site
  place : Nat
deriving DecidableEq, Repr

end Descent

/-- A descent under way. -/
structure Descent where
  cursor : Cursor
  /-- How many blocks are being read. -/
  depth : Nat := 0
  /-- The tokens that the cursor has moved on from. -/
  passed : List Token := []
  visits : List Descent.Visit := []
deriving Repr

namespace Descent

/-- What can be done on a descent.  It ends with a value or with a syntax error, or never. -/
abbrev Action (α : Type) := ExceptT SyntaxError (StateT Descent Option) α

/-- Why a list of items ends. -/
inductive Stop
  | endOfInput
  /-- The cursor is on the `{{/` of the enclosing block. -/
  | blockClose
  /-- The cursor is behind a tag that opens a section of the enclosing block. -/
  | keyword (heading : Section)

/-! ### Steps -/

/-- The current token. -/
def current : Action Token := do
  return (← get).cursor.current

/-- Whether the current token matches. -/
def currentIs (wanted : Pattern) : Action Bool := do
  return (← get).cursor.currentIs wanted

/-- Whether the token behind the current one matches. -/
def upcomingIs (wanted : Pattern) : Action Bool := do
  let descent ← get
  let (holds, cursor) := descent.cursor.upcomingIs wanted
  set { descent with cursor }
  return holds

/-- The descent behind the current token. -/
def moved (descent : Descent) : Descent :=
  { descent with
    cursor := descent.cursor.advance
    passed := descent.passed ++ [descent.cursor.current] }

/-- Moves on, and hands back the token that was current. -/
def advance : Action Token := do
  let descent ← get
  set descent.moved
  return descent.cursor.current

/-- The descent with a visit noted. -/
def noted (descent : Descent) (site : Site) : Descent :=
  { descent with visits := descent.visits ++ [⟨site, descent.passed.length⟩] }

/-- Notes a visit. -/
def visit (site : Site) : Action Unit :=
  modify (noted · site)

/-- Goes one block deeper. -/
def enter : Action Unit :=
  modify fun descent => { descent with depth := descent.depth + 1 }

/-- Comes back out of a block. -/
def leave : Action Unit :=
  modify fun descent => { descent with depth := descent.depth - 1 }

/-- Stops at the current token, where something else was expected. -/
def unexpected {α : Type} (wanted : Pattern) : Action α := do
  throw ((← get).cursor.unexpected wanted)

/-- Insists that the current token matches. -/
def expect (wanted : Pattern) : Action Unit := do
  if ← currentIs wanted then return else unexpected wanted

/-! ### Tags -/

/-- A name or a quoted text. -/
def operand : Action Value := do
  match (← current).lexeme.kind with
  | .identifier => return .variable (← advance).lexeme.value
  | .string => return .string (← advance).lexeme.value
  | _ => unexpected ⟨.identifier, none⟩

/-- A number, a name or a quoted text. -/
def primary : Action Value := do
  if ← currentIs ⟨.number, none⟩ then return .number (← advance).lexeme.value
  else operand

/-- The comparison that the current token is. -/
def comparison? : Action (Option Comparison) := do
  let token ← current
  if token.lexeme.kind = .operator then return token.lexeme.value?.bind Comparison.ofSymbol?
  else return none

/-- A value, or a comparison of two. -/
def expression : Action Value := do
  let left ← primary
  match ← comparison? with
  | none => return left
  | some op =>
    let _ ← advance
    return .comparison op left (← operand)

/-- Adds an argument that starts with a name, which is a key if `=` follows it. -/
def nameSlot (args : Arguments) : Action Arguments := do
  if ← upcomingIs ⟨.operator, some "="⟩ then
    let key := (← advance).lexeme.value
    let _ ← advance
    return args.add (some key) (← expression)
  else return args.add none (← expression)

/-- Adds one argument. -/
def slot (args : Arguments) : Action Arguments := do
  match (← current).lexeme.kind with
  | .string | .number => return args.add none (← expression)
  | .identifier => nameSlot args
  | _ => unexpected ⟨.tagClose, none⟩

end Descent

open Descent

/-- Adds arguments up to the `}}` behind them. -/
def Arguments.readOn (args : Arguments) : Action Arguments := do
  if ← currentIs ⟨.tagClose, none⟩ then return args
  else
    visit .arguments
    (← slot args) |>.readOn
partial_fixpoint

namespace Descent

/-- The `}}` of a tag. -/
def closeTag : Action Unit := do
  expect ⟨.tagClose, none⟩
  let _ ← advance

/-- Whether an operator of a comparison stands behind the current token. -/
def upcomingIsComparison : Action Bool :=
  [Comparison.eq, .notEq, .gt, .lt, .gtEq, .ltEq].anyM fun op =>
    upcomingIs ⟨.operator, some op.symbol⟩

/-- The value that a tag prints. -/
def printed : Action Item := do
  return .expression (← expression)

/-- The call of a helper. -/
def call : Action Item := do
  let name := (← advance).lexeme.value
  return .call ⟨name, ← Arguments.readOn {}⟩

/-- What a tag stands for. -/
def tagItem : Action Item := do
  if ← currentIs ⟨.identifier, none⟩ then
    if ← upcomingIs ⟨.tagClose, none⟩ then
      return .expression (.variable (← advance).lexeme.value)
    else if ← upcomingIsComparison then printed
    else call
  else printed

/-- A tag behind its `{{`. -/
def tag : Action Item := do
  let item ← tagItem
  closeTag
  return item

/-! ### Blocks -/

/-- The heading of a section of `block?`, if the tag starts with one of its keywords. -/
def heading? (dialect : Dialect) (block? : Option String) : Action (Option Section) := do
  match block? with
  | none => return none
  | some block =>
    let token ← current
    if token.lexeme.kind = .identifier ∧
        token.lexeme.value?.any (dialect.isSectionKeyword block) = true then
      let keyword := (← advance).lexeme.value
      let args ← Arguments.readOn {}
      closeTag
      return some (.named keyword args)
    else return none

/-- Stops at a `{{/` that does not close `block?`. -/
def closeError {α : Type} (block? : Option String) : Action α := do
  let position := (← advance).position
  let token ← current
  if token.lexeme.kind = .identifier then
    let found := token.lexeme.value
    let cause := block?.elim (Cause.strayClose found) (Cause.mismatchedClose · found)
    throw ((← get).cursor.errorAt cause position)
  else unexpected ⟨.identifier, none⟩

/-- Insists that the `{{/` at hand closes `block?`. -/
def expectClose (block? : Option String) : Action Unit := do
  match block? with
  | some name => if ← upcomingIs ⟨.identifier, some name⟩ then return else closeError block?
  | none => closeError block?

/-- The close tag of the block `name`. -/
def closeBlock (name : String) : Action Unit := do
  expect ⟨.blockClose, none⟩
  let _ ← advance
  expect ⟨.identifier, some name⟩
  let _ ← advance
  closeTag

end Descent

namespace Dialect

mutual

/-- Adds items up to where the list of items directly inside `block?` ends. -/
def readItems (dialect : Dialect) (block? : Option String) (done : Array Item) :
    Action (Array Item × Stop) := do
  visit .items
  match (← current).lexeme.kind with
  | .endOfInput => return (done, .endOfInput)
  | .text =>
    let content := (← advance).lexeme.value
    dialect |>.readItems block? (done.push (.text content))
  | .tagOpen =>
    let _ ← advance
    match ← heading? dialect block? with
    | some heading => return (done, .keyword heading)
    | none => dialect |>.readItems block? (done.push (← tag))
  | .blockOpen =>
    let inner ← dialect |>.readNested
    dialect |>.readItems block? (done.push (.block inner))
  | .blockClose =>
    expectClose block?
    return (done, .blockClose)
  -- These stand in tags only.
  | _ => unexpected ⟨.text, none⟩
partial_fixpoint

/-- A block with its `{{#`, if it may be that deep. -/
def readNested (dialect : Dialect) : Action Block := do
  if dialect.maxDepth ≤ (← get).depth then
    throw ((← get).cursor.error (.nestedTooDeep dialect.maxDepth))
  else
    let _ ← advance
    enter
    let inner ← dialect |>.readBlock
    leave
    return inner
partial_fixpoint

/-- A block behind its `{{#`. -/
def readBlock (dialect : Dialect) : Action Block := do
  visit .block
  expect ⟨.identifier, none⟩
  let name := (← advance).lexeme.value
  let args ← Arguments.readOn {}
  closeTag
  let (main, stop) ← dialect |>.readItems (some name) #[]
  let others ← dialect |>.readSections name stop #[]
  closeBlock name
  return ⟨name, args, .ofItems main.toList, others.toList⟩
partial_fixpoint

/-- Adds the sections of the block `name` that follow on a list of items which stopped so. -/
def readSections (dialect : Dialect) (name : String) (stop : Stop) (done : Array Section) :
    Action (Array Section) := do
  match stop with
  | .keyword heading =>
    visit .sections
    let (body, stop) ← dialect |>.readItems (some name) #[]
    dialect |>.readSections name stop (done.push { heading with items := body.toList })
  | .endOfInput | .blockClose => return done
partial_fixpoint

end

/-- A whole template. -/
def readTemplate (dialect : Dialect) : Action Template := do
  let (all, _) ← dialect.readItems none #[]
  expect ⟨.endOfInput, none⟩
  return ⟨all.toList⟩

end Dialect

/-- The descent through a source: whether it ends, and if so, with which template or error. -/
def Template.descend (dialect : Dialect) (source : String) :
    Option (Except SyntaxError Template × Descent) :=
  dialect.readTemplate.run.run { cursor := .ofSource source }

namespace Descent

/-! ### Actions that end -/

variable {α β : Type} {descent : Descent} {m : Action α} {f : α → Action β}

/-- The action ends: with a value and `post`, or with a syntax error and `fail`. -/
inductive Ends (m : Action α) (descent : Descent) (post : α → Descent → Prop)
    (fail : SyntaxError → Descent → Prop) : Prop
  | value {a : α} {next : Descent} :
      m.run.run descent = some (.ok a, next) → post a next → Ends m descent post fail
  | error {e : SyntaxError} {next : Descent} :
      m.run.run descent = some (.error e, next) → fail e next → Ends m descent post fail

namespace Ends

variable {mid post : α → Descent → Prop} {goal : β → Descent → Prop}
  {fail : SyntaxError → Descent → Prop}

theorem pure {a : α} (h : post a descent) : Ends (pure a) descent post fail :=
  .value rfl h

theorem throw {e : SyntaxError} (h : fail e descent) :
    Ends (throw e : Action α) descent post fail :=
  .error rfl h

/-- If the first action ends, and what comes after it ends wherever that may be, so do both. -/
theorem bind (h : Ends m descent mid fail)
    (hnext : ∀ a next, mid a next → Ends (f a) next goal fail) :
    Ends (m >>= f) descent goal fail := by
  cases h with
  | @value a next hrun hmid =>
    have hboth : (m >>= f).run.run descent = (f a).run.run next := by
      simp [hrun]
    cases hnext a next hmid with
    | value hrest hgoal => exact .value (hboth.trans hrest) hgoal
    | error hrest hfail => exact .error (hboth.trans hrest) hfail
  | @error e next hrun hfail =>
    have hboth : (m >>= f).run.run descent = some (.error e, next) := by
      simp [hrun]
    exact .error hboth hfail

theorem mono (h : Ends m descent mid fail) (hpost : ∀ a next, mid a next → post a next) :
    Ends m descent post fail := by
  cases h with
  | value hrun hmid => exact .value hrun (hpost _ _ hmid)
  | error hrun hfail => exact .error hrun hfail

/-! ### Steps that come first -/

/-- What comes after an action that ends with `a` is all that is left to look at. -/
theorem step {a : α} {next : Descent} (hrun : m.run.run descent = some (.ok a, next))
    (h : Ends (f a) next goal fail) : Ends (m >>= f) descent goal fail := by
  have hfirst : Ends m descent (fun b last => b = a ∧ last = next) fail := .value hrun ⟨rfl, rfl⟩
  refine hfirst.bind ?_
  rintro _ _ ⟨rfl, rfl⟩
  exact h

theorem get_bind {f : Descent → Action β} (h : Ends (f descent) descent goal fail) :
    Ends (get >>= f) descent goal fail :=
  .step rfl h

theorem current_bind {f : Token → Action β}
    (h : Ends (f descent.cursor.current) descent goal fail) :
    Ends (current >>= f) descent goal fail :=
  .step rfl h

variable {wanted : Pattern}

theorem currentIs_bind {f : Bool → Action β}
    (h : Ends (f (wanted.accepts descent.cursor.current.lexeme)) descent goal fail) :
    Ends (currentIs wanted >>= f) descent goal fail :=
  .step rfl h

theorem upcomingIs_bind {f : Bool → Action β}
    (h : Ends (f (wanted.accepts descent.cursor.upcoming.lexeme))
      { descent with cursor := descent.cursor.lookAhead } goal fail) :
    Ends (upcomingIs wanted >>= f) descent goal fail :=
  .step rfl h

theorem unexpected (h : fail (descent.cursor.unexpected wanted) descent) :
    Ends (unexpected wanted : Action α) descent post fail :=
  .error rfl h

theorem expect_bind {f : Unit → Action β}
    (haccepts : wanted.accepts descent.cursor.current.lexeme = true)
    (h : Ends (f ()) descent goal fail) : Ends (expect wanted >>= f) descent goal fail := by
  have hexpect : Ends (expect wanted) descent (fun _ next => next = descent) fail := by
    refine .currentIs_bind ?_
    rw [if_pos haccepts]
    exact .pure rfl
  refine hexpect.bind ?_
  rintro _ _ rfl
  exact h

theorem expect_refused {post : Unit → Descent → Prop}
    (hrefused : wanted.accepts descent.cursor.current.lexeme = false)
    (h : fail (descent.cursor.unexpected wanted) descent) :
    Ends (expect wanted) descent post fail := by
  refine .currentIs_bind ?_
  rw [if_neg (Bool.eq_false_iff.mp hrefused)]
  exact .unexpected h

end Ends

end Descent

end Stencil
