/-
Literals and brackets in code.

A `Scan` goes through code from left to right.  It remembers the brackets that are still to be
closed and whether a string literal is open, and stops at a bracket that closes none, or at a
backslash outside of literals.  Code is `Tidy` if a scan passes through it and is then where it
was before, whatever was open there, and if it holds no control character.

* `Tidy.append`, `Tidy.parentheses`, `Tidy.braces` — what is put together from tidy code is tidy;
* `tidy_jsonString` — a literal is tidy, whatever text it denotes;
* `place_ne_outside` — and it goes on up to its last character.
-/
import Stencil.Text.JsonString

namespace Stencil.Code

/-! ### Scans -/

/-- Where a scan stands: outside of literals, inside of one, or there behind a backslash. -/
inductive Place
  | outside
  | inside
  | escaped
deriving DecidableEq, Repr

/-- A scan of code: the brackets that are still to be closed, the innermost first, each as the
character that closes it, and the place of the scan. -/
structure Scan where
  closers : List Char := []
  place : Place := .outside
deriving DecidableEq, Repr

namespace Scan

/-- The scan behind a closing bracket, if that is the one which closes the innermost bracket. -/
def close (scan : Scan) (c : Char) : Option Scan :=
  match scan.closers with
  | [] => none
  | d :: rest => if d = c then some { scan with closers := rest } else none

/-- The scan behind one more character outside of literals. -/
def stepOutside (scan : Scan) : Char → Option Scan
  | '"' => some { scan with place := .inside }
  | '\\' => none
  | '(' => some { scan with closers := ')' :: scan.closers }
  | '{' => some { scan with closers := '}' :: scan.closers }
  | ')' => scan.close ')'
  | '}' => scan.close '}'
  | _ => some scan

/-- The scan behind one more character inside of a literal. -/
def stepInside (scan : Scan) : Char → Scan
  | '"' => { scan with place := .outside }
  | '\\' => { scan with place := .escaped }
  | _ => scan

/-- The scan behind one more character. -/
def step (scan : Scan) (c : Char) : Option Scan :=
  match scan.place with
  | .outside => scan.stepOutside c
  | .inside => some (scan.stepInside c)
  | .escaped => some { scan with place := .inside }

/-- The scan behind more characters. -/
def run (scan : Scan) (cs : List Char) : Option Scan :=
  cs.foldlM step scan

theorem run_cons (scan : Scan) (c : Char) (cs : List Char) :
    scan.run (c :: cs) = (scan.step c).bind fun next => next.run cs := by
  rw [run, List.foldlM_cons]
  rfl

theorem run_append (scan : Scan) (as bs : List Char) :
    scan.run (as ++ bs) = (scan.run as).bind fun next => next.run bs := by
  rw [run, List.foldlM_append]
  rfl

/-- Inside a literal a scan goes on behind every character but a quote and a backslash. -/
theorem step_inside {closers : List Char} {c : Char} (hquote : c ≠ '"') (hbackslash : c ≠ '\\') :
    step ⟨closers, .inside⟩ c = some ⟨closers, .inside⟩ := by
  refine congrArg some ?_
  rw [stepInside.eq_def]
  split
  next => exact absurd rfl hquote
  next => exact absurd rfl hbackslash
  next => rfl

end Scan

/-! ### Tidy code -/

/-- Whether a character of code opens and closes nothing, and can be printed. -/
def isPlain (c : Char) : Bool :=
  0x20 ≤ c.toNat && c ∉ ['"', '\\', '(', ')', '{', '}']

/-- Whether code closes what it opens and nothing else, and holds no control character. -/
structure Tidy (code : String) : Prop where
  run_eq : ∀ closers, Scan.run ⟨closers, .outside⟩ code.toList = some ⟨closers, .outside⟩
  printable : ∀ c ∈ code.toList, 0x20 ≤ c.toNat

namespace Tidy

variable {a b : String}

theorem append (ha : Tidy a) (hb : Tidy b) : Tidy (a ++ b) where
  run_eq closers := by
    rw [String.toList_append, Scan.run_append, ha.run_eq]
    exact hb.run_eq closers
  printable := by
    rw [String.toList_append]
    exact List.forall_mem_append.mpr ⟨ha.printable, hb.printable⟩

/-- Characters that open and close each other may be put around tidy code. -/
theorem enclose {l r : String} {closer : Char} (h : Tidy a)
    (hopen : ∀ closers,
      Scan.run ⟨closers, .outside⟩ l.toList = some ⟨closer :: closers, .outside⟩)
    (hclose : ∀ closers,
      Scan.run ⟨closer :: closers, .outside⟩ r.toList = some ⟨closers, .outside⟩)
    (hl : ∀ c ∈ l.toList, 0x20 ≤ c.toNat) (hr : ∀ c ∈ r.toList, 0x20 ≤ c.toNat) :
    Tidy (l ++ a ++ r) where
  run_eq closers := by
    rw [String.toList_append, String.toList_append, Scan.run_append, Scan.run_append, hopen,
      Option.bind_some, h.run_eq, Option.bind_some, hclose]
  printable := by
    rw [String.toList_append, String.toList_append]
    exact List.forall_mem_append.mpr ⟨List.forall_mem_append.mpr ⟨hl, h.printable⟩, hr⟩

theorem parentheses (h : Tidy a) : Tidy ("(" ++ a ++ ")") :=
  h.enclose (fun _ => rfl) (fun _ => rfl) (by simp) (by simp)

theorem braces (h : Tidy a) : Tidy (r"{" ++ a ++ r"}") :=
  h.enclose (fun _ => rfl) (fun _ => rfl) (by simp) (by simp)

end Tidy

/-- Plain characters change nothing about a scan. -/
theorem Scan.run_of_isPlain (closers : List Char) {cs : List Char}
    (h : cs.all isPlain = true) : run ⟨closers, .outside⟩ cs = some ⟨closers, .outside⟩ := by
  induction cs with
  | nil => rfl
  | cons c cs ih =>
    rw [List.all_cons, Bool.and_eq_true] at h
    have hc : c ∉ ['"', '\\', '(', ')', '{', '}'] :=
      of_decide_eq_true (Bool.and_eq_true_iff.mp h.1).2
    have hstep : step ⟨closers, .outside⟩ c = some ⟨closers, .outside⟩ := by
      show stepOutside ⟨closers, .outside⟩ c = _
      rw [stepOutside.eq_def]
      split
      case h_7 => rfl
      all_goals exact absurd (by decide) hc
    rw [run_cons, hstep]
    exact ih h.2

/-- Code of plain characters is tidy. -/
theorem tidy_of_isPlain {code : String} (h : code.toList.all isPlain = true) : Tidy code where
  run_eq closers := Scan.run_of_isPlain closers h
  printable c hc := by
    have hplain := List.all_eq_true.mp h c hc
    exact of_decide_eq_true (Bool.and_eq_true_iff.mp hplain).1

/-! ### Literals -/

/-- Whether a scan that is inside of a literal stays there on the way through the characters, and
is not behind a backslash when it is through. -/
structure StaysInside (cs : List Char) : Prop where
  run_eq : ∀ closers, Scan.run ⟨closers, .inside⟩ cs = some ⟨closers, .inside⟩
  place_ne : ∀ front, front <+: cs → ∀ closers, ∃ place, place ≠ .outside ∧
    Scan.run ⟨closers, .inside⟩ front = some ⟨closers, place⟩

namespace StaysInside

theorem nil : StaysInside [] where
  run_eq _ := rfl
  place_ne front hfront closers := by
    obtain rfl := List.prefix_nil.mp hfront
    exact ⟨.inside, by decide, rfl⟩

theorem append {as bs : List Char} (ha : StaysInside as) (hb : StaysInside bs) :
    StaysInside (as ++ bs) where
  run_eq closers := by
    rw [Scan.run_append, ha.run_eq]
    exact hb.run_eq closers
  place_ne front hfront closers := by
    rcases List.prefix_or_prefix_of_prefix hfront (List.prefix_append as bs) with has | has
    · exact ha.place_ne front has closers
    · obtain ⟨more, rfl⟩ := has
      rw [Scan.run_append, ha.run_eq]
      exact hb.place_ne more ((List.prefix_append_right_inj as).mp hfront) closers

theorem plain {c : Char} (hquote : c ≠ '"') (hbackslash : c ≠ '\\') : StaysInside [c] where
  run_eq closers := by
    rw [Scan.run_cons, Scan.step_inside hquote hbackslash]
    rfl
  place_ne front hfront closers := by
    rcases List.prefix_cons_iff.mp hfront with rfl | ⟨more, rfl, hmore⟩
    · exact ⟨.inside, by decide, rfl⟩
    · obtain rfl := List.prefix_nil.mp hmore
      rw [Scan.run_cons, Scan.step_inside hquote hbackslash]
      exact ⟨.inside, by decide, rfl⟩

/-- A backslash takes the next character with it, whatever that is. -/
theorem escape (c : Char) : StaysInside ['\\', c] where
  run_eq _ := rfl
  place_ne front hfront closers := by
    rcases List.prefix_cons_iff.mp hfront with rfl | ⟨more, rfl, hmore⟩
    · exact ⟨.inside, by decide, rfl⟩
    rcases List.prefix_cons_iff.mp hmore with rfl | ⟨rest, rfl, hrest⟩
    · exact ⟨.escaped, by decide, rfl⟩
    · obtain rfl := List.prefix_nil.mp hrest
      exact ⟨.inside, by decide, rfl⟩

end StaysInside

theorem hexDigit_ne : ∀ {n : Nat}, n < 16 → Text.hexDigit n ≠ '"' ∧ Text.hexDigit n ≠ '\\' := by
  decide

/-- No character ends the literal in which it is written. -/
theorem staysInside_escaped (c : Char) : StaysInside (Text.escaped c) := by
  rw [Text.escaped.eq_def]
  split
  next letter _ => exact .escape letter
  next hshort =>
    split
    next hc =>
      have hhigh := hexDigit_ne (show c.toNat / 16 < 16 by omega)
      have hlow := hexDigit_ne (show c.toNat % 16 < 16 by omega)
      have hzero : StaysInside ['0'] := .plain (by decide) (by decide)
      exact (StaysInside.escape 'u').append
        (hzero.append (hzero.append ((StaysInside.plain hhigh.1 hhigh.2).append
          (.plain hlow.1 hlow.2))))
    next hc =>
      refine .plain ?_ ?_
      · rintro rfl
        cases hshort
      · rintro rfl
        cases hshort

theorem staysInside_flatMap_escaped (cs : List Char) : StaysInside (cs.flatMap Text.escaped) := by
  induction cs with
  | nil => exact .nil
  | cons c cs ih => exact (staysInside_escaped c).append ih

/-- A literal is tidy, whatever text it denotes. -/
theorem tidy_jsonString (text : String) : Tidy (Text.jsonString text) where
  run_eq closers := by
    rw [Text.toList_jsonString, Scan.run_cons]
    show Scan.run ⟨closers, .inside⟩ _ = _
    rw [Scan.run_append, (staysInside_flatMap_escaped text.toList).run_eq]
    rfl
  printable := by
    rw [Text.toList_jsonString]
    refine List.forall_mem_cons.mpr ⟨by decide, List.forall_mem_append.mpr ⟨?_, by simp⟩⟩
    intro d hd
    obtain ⟨c, -, hc⟩ := List.mem_flatMap.mp hd
    exact Text.le_of_mem_escaped hc

/-- A scan is inside of a literal up to its last character. -/
theorem place_ne_outside {text : String} {front : List Char} (hne : front ≠ [])
    (hfront : front <+: (Text.jsonString text).toList)
    (hproper : front ≠ (Text.jsonString text).toList) (closers : List Char) :
    ∃ place, place ≠ .outside ∧
      Scan.run ⟨closers, .outside⟩ front = some ⟨closers, place⟩ := by
  rw [Text.toList_jsonString] at hfront hproper
  rcases List.prefix_cons_iff.mp hfront with rfl | ⟨more, rfl, hmore⟩
  · exact absurd rfl hne
  · rcases List.prefix_concat_iff.mp hmore with rfl | hbody
    · exact absurd rfl hproper
    · exact (staysInside_flatMap_escaped text.toList).place_ne more hbody closers

end Stencil.Code
