/-
Lines, columns and byte offsets.

A line and a column are another way to say where a character stands: `Location.offset?` walks
from the start of a text past line feeds and then past characters, and says how many bytes that
took.

* `line_after`, `column_after` — the line and the column of a place count what stands in front
  of it;
* `key_after_lt` — a place further on is on a later line, or on the same line and in a later
  column;
* `offset?_after` — walking to the line and the column of a place leads there;
* `Fault.locate_location` — so much for the places of a source.  An offset behind its end, or
  inside of a character, is shown where the source ends.
-/
import Mathlib
import Stencil.Proofs.Splice

namespace Stencil

open Text (byteLength)

namespace Text

/-- Whether `pre` is all that stands in front of the byte offset `n` of a text. -/
def StandsBefore (cs : List Char) (n : Nat) (pre : List Char) : Prop :=
  byteLength pre = n ∧ ∃ post, cs = pre ++ post

/-- The characters behind the last line feed of a text, or the whole text without one. -/
def lastLine (cs : List Char) : List Char :=
  cs.rtakeWhile fun c => c ≠ '\n'

/-- The lines of a text that a line feed ends. -/
def fullLines (cs : List Char) : List Char :=
  cs.rdropWhile fun c => c ≠ '\n'

/-- The characters up to the line feed number `n`, and those behind it. -/
def passLines? : Nat → List Char → Option (List Char × List Char)
  | 0, cs => some ([], cs)
  | _ + 1, [] => none
  | n + 1, c :: cs =>
    (passLines? (if c = '\n' then n else n + 1) cs).map fun (lines, rest) => (c :: lines, rest)

/-! ### The last line -/

theorem fullLines_append_lastLine (cs : List Char) : fullLines cs ++ lastLine cs = cs := by
  rw [fullLines, lastLine, List.rdropWhile, List.rtakeWhile, ← List.reverse_append,
    List.takeWhile_append_dropWhile, List.reverse_reverse]

theorem lineFeed_notMem_lastLine (cs : List Char) : '\n' ∉ lastLine cs := by
  intro h
  simpa using List.mem_rtakeWhile_imp h

/-- Full lines end with a line feed, if there are any. -/
theorem getLast?_fullLines {cs : List Char} (h : fullLines cs ≠ []) :
    (fullLines cs).getLast? = some '\n' := by
  have hlast := List.rdropWhile_last_not (fun c => c ≠ '\n') cs h
  rw [List.getLast?_eq_some_getLast h]
  simpa [fullLines] using hlast

theorem count_fullLines (cs : List Char) : (fullLines cs).count '\n' = cs.count '\n' := by
  conv_rhs => rw [← fullLines_append_lastLine cs]
  rw [List.count_append, List.count_eq_zero_of_not_mem (lineFeed_notMem_lastLine cs), Nat.add_zero]

/-- Full lines are passed by passing their line feeds. -/
theorem passLines?_append {lines : List Char} (h : lines ≠ [] → lines.getLast? = some '\n')
    (rest : List Char) :
    passLines? (lines.count '\n') (lines ++ rest) = some (lines, rest) := by
  induction lines with
  | nil => rw [List.count_nil, List.nil_append, passLines?]
  | cons c cs ih =>
    have hcs : cs ≠ [] → cs.getLast? = some '\n' := by
      intro hne
      obtain ⟨d, ds, rfl⟩ := List.exists_cons_of_ne_nil hne
      rw [← h (List.cons_ne_nil _ _), List.getLast?_cons_cons]
    by_cases hc : c = '\n'
    · rw [hc, List.count_cons_self, List.cons_append, passLines?, if_pos rfl, ih hcs]
      rfl
    · -- The line goes on, so there is a line feed among the characters behind `c`.
      have hne : cs ≠ [] := by
        rintro rfl
        exact hc (Option.some.inj (h (List.cons_ne_nil _ _)))
      obtain ⟨n, hn⟩ : ∃ n, cs.count '\n' = n + 1 := Nat.exists_eq_succ_of_ne_zero <|
        (List.count_pos_iff.mpr (List.mem_of_getLast? (hcs hne))).ne'
      have hrest := ih hcs
      rw [hn] at hrest
      rw [List.count_cons_of_ne hc, hn, List.cons_append, passLines?, if_neg hc, hrest]
      rfl

namespace Location

/-! ### Order -/

/-- A place by its line first, and by its column on the same line. -/
def key (l : Location) : ℕ ×ₗ ℕ :=
  toLex (l.line, l.column)

theorem key_lt_key_step (l : Location) (c : Char) : l.key < (l.step c).key := by
  rw [key, key, Prod.Lex.toLex_lt_toLex, step]
  split
  · exact .inl (Nat.lt_succ_self _)
  · exact .inr ⟨rfl, Nat.lt_succ_self _⟩

theorem key_le_key_foldl (cs : List Char) (l : Location) : l.key ≤ (cs.foldl step l).key := by
  induction cs generalizing l with
  | nil => exact le_refl _
  | cons c cs ih => exact (key_lt_key_step l c).le.trans (ih (l.step c))

/-- What stands further on comes later. -/
theorem key_after_lt (cs : List Char) {ds : List Char} (h : ds ≠ []) :
    (after cs).key < (after (cs ++ ds)).key := by
  obtain ⟨d, ds, rfl⟩ := List.exists_cons_of_ne_nil h
  rw [after_append, List.foldl_cons]
  exact (key_lt_key_step _ d).trans_le (key_le_key_foldl ds _)

/-! ### Columns -/

/-- The column counts the characters of the last line. -/
theorem column_after (cs : List Char) : (after cs).column = 1 + (lastLine cs).length := by
  induction cs using List.reverseRecOn with
  | nil => rfl
  | append_singleton cs c ih =>
    rw [after_append, List.foldl_cons, List.foldl_nil, step, lastLine]
    by_cases hc : c = '\n'
    · rw [if_pos hc, List.rtakeWhile_concat_neg _ _ _ (by simp [hc])]
      rfl
    · rw [if_neg hc, List.rtakeWhile_concat_pos _ _ _ (by simp [hc]), List.length_append]
      rw [lastLine] at ih
      show (after cs).column + 1 = _
      rw [ih]
      rfl

theorem one_le_line_after (cs : List Char) : 1 ≤ (after cs).line := by
  rw [line_after]
  exact Nat.le_add_right _ _

theorem one_le_column_after (cs : List Char) : 1 ≤ (after cs).column := by
  rw [column_after]
  exact Nat.le_add_right _ _

/-! ### Walking -/

/-- The byte offset where a walk from the start of `cs` ends that passes one line feed for every
line above `l`, and then one character for every column in front of it. -/
def offset? (cs : List Char) (l : Location) : Option Nat :=
  (passLines? (l.line - 1) cs).bind fun (lines, rest) =>
    if l.column - 1 ≤ rest.length then some (byteLength (lines ++ rest.take (l.column - 1)))
    else none

/-- A walk to the line and the column of a place leads to that place. -/
theorem offset?_after (pre post : List Char) :
    (after pre).offset? (pre ++ post) = some (byteLength pre) := by
  have hlines : (after pre).line - 1 = (fullLines pre).count '\n' := by
    rw [line_after, Nat.add_sub_cancel_left, count_fullLines]
  have hcolumns : (after pre).column - 1 = (lastLine pre).length := by
    rw [column_after, Nat.add_sub_cancel_left]
  have hsplit : pre ++ post = fullLines pre ++ (lastLine pre ++ post) := by
    rw [← List.append_assoc, fullLines_append_lastLine]
  rw [offset?, hlines, hcolumns, hsplit, passLines?_append getLast?_fullLines, Option.bind_some]
  dsimp only
  rw [List.length_append, if_pos (Nat.le_add_right _ _), List.take_left, fullLines_append_lastLine]

end Location

end Text

namespace Fault

open Text (StandsBefore lastLine)

/-- A place of a source keeps its offset, and its location is told by what stands in front of
it. -/
theorem locate_of_standsBefore {source : String} {cause : Cause} {p : Nat} {pre : List Char}
    (h : StandsBefore source.toList p pre) :
    locate source ⟨cause, p⟩ = ⟨⟨cause, p⟩, Text.Location.after pre⟩ := by
  obtain ⟨rfl, post, hsource⟩ := h
  exact locate_eq hsource rfl

theorem standsBefore_end (cs : List Char) : StandsBefore cs (byteLength cs) cs :=
  ⟨rfl, [], (List.append_nil cs).symm⟩

/-- Of two places the one with the greater offset has the other one's characters, and more, in
front of it. -/
theorem key_lt_of_standsBefore {cs pre pre' : List Char} {p q : Nat}
    (h : StandsBefore cs p pre) (h' : StandsBefore cs q pre') (hlt : p < q) :
    (Text.Location.after pre).key < (Text.Location.after pre').key := by
  obtain ⟨rfl, post, hcs⟩ := h
  obtain ⟨rfl, post', hcs'⟩ := h'
  rcases List.append_eq_append_iff.mp (hcs.symm.trans hcs') with ⟨more, rfl, -⟩ | ⟨more, rfl, -⟩
  · refine Text.Location.key_after_lt pre ?_
    rintro rfl
    rw [List.append_nil] at hlt
    exact lt_irrefl _ hlt
  · rw [Text.byteLength_append] at hlt
    omega

/-- An offset behind the end of a source is the offset of its end. -/
theorem locate_of_le {source : String} {cause : Cause} {n : Nat}
    (h : byteLength source.toList ≤ n) :
    locate source ⟨cause, n⟩ = locate source ⟨cause, byteLength source.toList⟩ := by
  simp only [locate, Nat.min_eq_right h, Nat.min_self]

/-- An offset inside of a character stays, but has the location of the end. -/
theorem locate_of_inside {source : String} {cause : Cause} {n : Nat}
    (hle : n ≤ byteLength source.toList) (h : ∀ pre, ¬StandsBefore source.toList n pre) :
    locate source ⟨cause, n⟩ = ⟨⟨cause, n⟩, Text.Location.after source.toList⟩ := by
  have hnone : Text.takeBytes? source.toList n = none :=
    Option.eq_none_iff_forall_not_mem.mpr fun pre hpre =>
      h pre (Text.takeBytes?_eq_some_iff.mp hpre)
  simp only [locate, Nat.min_eq_left hle, Text.Location.ofOffset, hnone, Option.getD_none]

/-- The line of a place counts the line feeds in front of it, and its column the characters behind
the last of them.  Places further on have greater lines and columns, so that a place is known by
them, and walking there leads back to its offset.  An offset behind the end is that of the end, and
an offset inside of a character is shown at the line and the column of the end. -/
theorem locate_location (source : String) (cause : Cause) :
    (∀ p pre, StandsBefore source.toList p pre →
      (locate source ⟨cause, p⟩).toFault = ⟨cause, p⟩ ∧
      (locate source ⟨cause, p⟩).location.line = 1 + pre.count '\n' ∧
      (locate source ⟨cause, p⟩).location.column = 1 + (lastLine pre).length ∧
      (locate source ⟨cause, p⟩).location.offset? source.toList = some p) ∧
    (∀ p q pre pre', StandsBefore source.toList p pre → StandsBefore source.toList q pre' →
      (p < q ↔ (locate source ⟨cause, p⟩).location.key < (locate source ⟨cause, q⟩).location.key) ∧
      ((locate source ⟨cause, p⟩).location = (locate source ⟨cause, q⟩).location → p = q)) ∧
    (∀ n, byteLength source.toList ≤ n →
      locate source ⟨cause, n⟩ = locate source ⟨cause, byteLength source.toList⟩) ∧
    (∀ n, n ≤ byteLength source.toList → (∀ pre, ¬StandsBefore source.toList n pre) →
      (locate source ⟨cause, n⟩).toFault = ⟨cause, n⟩ ∧
      (locate source ⟨cause, n⟩).location =
        (locate source ⟨cause, byteLength source.toList⟩).location) ∧
    ∀ n, 1 ≤ (locate source ⟨cause, n⟩).location.line ∧
      1 ≤ (locate source ⟨cause, n⟩).location.column := by
  refine ⟨fun p pre h => ?_, fun p q pre pre' h h' => ?_, fun n h => locate_of_le h,
    fun n hle h => ?_, fun n => ?_⟩
  · rw [locate_of_standsBefore h]
    obtain ⟨rfl, post, hsource⟩ := h
    refine ⟨rfl, Text.Location.line_after pre, Text.Location.column_after pre, ?_⟩
    rw [hsource]
    exact Text.Location.offset?_after pre post
  · have hlt : p < q → (locate source ⟨cause, p⟩).location.key <
        (locate source ⟨cause, q⟩).location.key := by
      rw [locate_of_standsBefore h, locate_of_standsBefore h']
      exact key_lt_of_standsBefore h h'
    have hgt : q < p → (locate source ⟨cause, q⟩).location.key <
        (locate source ⟨cause, p⟩).location.key := by
      rw [locate_of_standsBefore h, locate_of_standsBefore h']
      exact key_lt_of_standsBefore h' h
    rcases Nat.lt_trichotomy p q with hpq | rfl | hqp
    · exact ⟨⟨hlt, fun _ => hpq⟩, fun heq => absurd (congrArg Text.Location.key heq) (hlt hpq).ne⟩
    · exact ⟨⟨hlt, fun hkey => absurd hkey (lt_irrefl _)⟩, fun _ => rfl⟩
    · exact ⟨⟨hlt, fun hkey => absurd (hgt hqp) hkey.asymm⟩,
        fun heq => absurd (congrArg Text.Location.key heq) (hgt hqp).ne'⟩
  · rw [locate_of_inside hle h, locate_of_standsBefore (standsBefore_end _)]
    exact ⟨rfl, rfl⟩
  · rw [locate, Text.Location.ofOffset]
    exact ⟨Text.Location.one_le_line_after _, Text.Location.one_le_column_after _⟩

/-- A letter of two bytes, a line feed, an empty line and two letters more: byte 4 starts the third
line, byte 9 is behind the end, and byte 1 is inside of the first letter. -/
theorem locate_location_twoByteLetter :
    (locate "é\n\nab" ⟨.strayClose "n", 5⟩).location = ⟨3, 2⟩ ∧
    (⟨3, 2⟩ : Text.Location).offset? "é\n\nab".toList = some 5 ∧
    (locate "é\n\nab" ⟨.strayClose "n", 4⟩).location.key <
      (locate "é\n\nab" ⟨.strayClose "n", 5⟩).location.key ∧
    (locate "é\n\nab" ⟨.strayClose "n", 9⟩).toFault = ⟨.strayClose "n", 6⟩ ∧
    (locate "é\n\nab" ⟨.strayClose "n", 1⟩).toFault = ⟨.strayClose "n", 1⟩ ∧
    (locate "é\n\nab" ⟨.strayClose "n", 1⟩).location = ⟨3, 3⟩ := by
  obtain ⟨hplace, horder, hbehind, hinside, -⟩ := locate_location "é\n\nab" (.strayClose "n")
  have h4 : StandsBefore "é\n\nab".toList 4 "é\n\n".toList := ⟨by decide, "ab".toList, by decide⟩
  have h5 : StandsBefore "é\n\nab".toList 5 "é\n\na".toList := ⟨by decide, "b".toList, by decide⟩
  have h6 : StandsBefore "é\n\nab".toList 6 "é\n\nab".toList := ⟨by decide, [], by decide⟩
  have h1 : ∀ pre, ¬StandsBefore "é\n\nab".toList 1 pre := by
    intro pre h
    have hnone : Text.takeBytes? "é\n\nab".toList 1 = none := by decide
    exact Option.some_ne_none pre ((Text.takeBytes?_eq_some_iff.mpr h).symm.trans hnone)
  have hlocation (p : Nat) (pre : List Char) (h : StandsBefore "é\n\nab".toList p pre) :
      (locate "é\n\nab" ⟨.strayClose "n", p⟩).location =
        ⟨1 + pre.count '\n', 1 + (lastLine pre).length⟩ := by
    obtain ⟨-, hline, hcolumn, -⟩ := hplace p pre h
    rw [← hline, ← hcolumn]
  have hoffset := (hplace 5 _ h5).2.2.2
  rw [hlocation 5 _ h5] at hoffset
  have hend := hbehind 9 (by decide)
  have hfirst := hinside 1 (by decide) h1
  refine ⟨(hlocation 5 _ h5).trans (by decide), hoffset, (horder 4 5 _ _ h4 h5).1.mp (by decide),
    ?_, hfirst.1, ?_⟩
  · rw [hend]
    exact (hplace 6 _ h6).1
  · rw [hfirst.2]
    exact (hlocation 6 _ h6).trans (by decide)

end Fault

end Stencil
