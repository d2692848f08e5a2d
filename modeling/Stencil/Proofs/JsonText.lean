/-
Reading JSON texts.

`Json.read?` takes a value off the front of a compact text, as a reader of JSON does: arrays and
objects by the brackets around them and the commas in them, strings by `readLiteral?`, so that a
bracket, a comma or a quote in a string is part of that string.

* `readList?_intercalate` — what is written with commas in between is read back, whatever it is,
  if each part can be read with anything behind it;
* `read?_render` — so a rendered value is read back, and the reader stops behind it;
* `parse?_render` — a rendered value is the value of its text.
-/
import Stencil.Basic
import Stencil.Json
import Stencil.Proofs.JsonReading

namespace Stencil.Json

open Text (readLiteral? readLiteral?_eq_some_iff jsonLiteral_jsonString jsonString)

/-! ### The reader -/

section Lists

variable {α : Type} (read : List Char → Option (α × List Char)) (close : Char)

/-- One or more of what `read` reads, but no more than `n` of them, with commas in between and
`close` behind the last one. -/
def readList? : Nat → List Char → Option (List α × List Char)
  | 0, _ => none
  | n + 1, cs =>
    (read cs).bind fun (a, rest) =>
      if rest.head? = some close then some ([a], rest.tail)
      else if rest.head? = some ',' then
        (readList? n rest.tail).map fun (as, rest) => (a :: as, rest)
      else none

/-- What stands in brackets, behind the opening one. -/
def readClosed? (cs : List Char) : Option (List α × List Char) :=
  if cs.head? = some close then some ([], cs.tail) else readList? read close cs.length cs

end Lists

/-- A key and a value with a colon between them. -/
def readField? (read : List Char → Option (Json × List Char)) (cs : List Char) :
    Option ((String × Json) × List Char) :=
  (readLiteral? cs).bind fun (key, rest) =>
    if rest.head? = some ':' then
      (read rest.tail).map fun (value, rest) => ((String.ofList key, value), rest)
    else none

/-- The value that a text starts with, if it is nested less than `n` levels deep, and what follows
the value. -/
def read? : Nat → List Char → Option (Json × List Char)
  | 0, _ => none
  | _ + 1, 'n' :: 'u' :: 'l' :: 'l' :: rest => some (.null, rest)
  | _ + 1, '"' :: rest =>
    (readLiteral? ('"' :: rest)).map fun (text, rest) => (.string (String.ofList text), rest)
  | n + 1, '[' :: rest =>
    (readClosed? (read? n) ']' rest).map fun (elements, rest) => (.array elements, rest)
  | n + 1, '{' :: rest =>
    (readClosed? (readField? (read? n)) '}' rest).map fun (fields, rest) =>
      (.object fields, rest)
  | _ + 1, _ => none

/-- The value of a whole text.  No value is nested deeper than its text is long. -/
def parse? (text : String) : Option Json :=
  (read? text.toList.length text.toList).bind fun (value, rest) =>
    if rest.isEmpty then some value else none

/-! ### Parts with commas in between -/

variable {α : Type} {read : List Char → Option (α × List Char)} {write : α → List Char}
  {close : Char}

/-- If every part is read back with anything behind it, so are parts with commas in between. -/
theorem readList?_intercalate (hclose : close ≠ ',') {as : List α} (hne : as ≠ [])
    (hread : ∀ a ∈ as, ∀ rest, read (write a ++ rest) = some (a, rest)) {n : Nat}
    (hn : as.length ≤ n) (rest : List Char) :
    readList? read close n ([','].intercalate (as.map write) ++ close :: rest) =
      some (as, rest) := by
  induction as generalizing n with
  | nil => exact absurd rfl hne
  | cons a as ih =>
    obtain ⟨n, rfl⟩ := Nat.exists_eq_succ_of_ne_zero (Nat.ne_zero_of_lt hn)
    have ha := hread a List.mem_cons_self
    cases as with
    | nil =>
      rw [List.map_singleton, List.intercalate_singleton, readList?, ha, Option.bind_some]
      dsimp only
      rw [List.head?_cons, if_pos rfl, List.tail_cons]
    | cons b bs =>
      have hbs := ih (List.cons_ne_nil b bs) (fun c hc => hread c (List.mem_cons_of_mem a hc))
        (Nat.le_of_succ_le_succ hn)
      rw [List.map_cons] at hbs
      rw [List.map_cons, List.map_cons, List.intercalate_cons_cons, List.append_assoc,
        List.append_assoc, readList?, ha, Option.bind_some]
      dsimp only
      rw [List.singleton_append, List.head?_cons, if_neg (by simpa using Ne.symm hclose),
        if_pos rfl, List.tail_cons, hbs]
      rfl

/-- In brackets there may also be nothing. -/
theorem readClosed?_intercalate (hclose : close ≠ ',') {as : List α}
    (hread : ∀ a ∈ as, ∀ rest, read (write a ++ rest) = some (a, rest))
    (hwrite : ∀ a ∈ as, ∃ c cs, write a = c :: cs ∧ c ≠ close) (rest : List Char) :
    readClosed? read close ([','].intercalate (as.map write) ++ close :: rest) =
      some (as, rest) := by
  cases as with
  | nil =>
    rw [List.map_nil, List.intercalate_nil, List.nil_append, readClosed?, List.head?_cons,
      if_pos rfl, List.tail_cons]
  | cons a as =>
    have hhead : ([','].intercalate ((a :: as).map write) ++ close :: rest).head? ≠
        some close := by
      obtain ⟨c, cs, hc, hne⟩ := hwrite a List.mem_cons_self
      cases as with
      | nil => simpa [hc] using hne
      | cons b bs => simpa [hc, List.intercalate_cons_cons] using hne
    rw [readClosed?, if_neg hhead]
    refine readList?_intercalate hclose (List.cons_ne_nil a as) hread ?_ rest
    have hlength := length_le_length_intercalate ',' ((a :: as).map write)
    rw [List.length_map] at hlength
    rw [List.length_append, List.length_cons]
    exact Nat.le_trans hlength (Nat.add_le_add_left (Nat.le_add_left _ _) _)

/-! ### Rendered values -/

theorem renderElements_eq_map (elements : List Json) :
    renderElements elements = elements.map render := by
  induction elements with
  | nil => rfl
  | cons element rest ih => rw [renderElements, ih, List.map_cons]

/-- The text of a field. -/
def renderField (field : String × Json) : String :=
  jsonString field.1 ++ ":" ++ render field.2

theorem renderFields_eq_map (fields : List (String × Json)) :
    renderFields fields = fields.map renderField := by
  induction fields with
  | nil => rfl
  | cons field rest ih => rw [renderFields, ih, List.map_cons, renderField]

theorem toList_render_array (elements : List Json) :
    (render (.array elements)).toList =
      '[' :: ([','].intercalate (elements.map fun e => (render e).toList) ++ [']']) := by
  rw [render, renderElements_eq_map, String.toList_append, String.toList_append,
    String.toList_intercalate, List.map_map]
  rfl

theorem toList_render_object (fields : List (String × Json)) :
    (render (.object fields)).toList =
      '{' :: ([','].intercalate (fields.map fun f => (renderField f).toList) ++ ['}']) := by
  rw [render, renderFields_eq_map, String.toList_append, String.toList_append,
    String.toList_intercalate, List.map_map]
  rfl

/-- A string is read back from its literal. -/
theorem readLiteral?_jsonString (text : String) (rest : List Char) :
    readLiteral? ((jsonString text).toList ++ rest) = some (text.toList, rest) :=
  readLiteral?_eq_some_iff.mpr ⟨_, jsonLiteral_jsonString text, rfl⟩

/-- A rendered value starts with no closing bracket. -/
theorem exists_head_render (value : Json) :
    ∃ c cs, (render value).toList = c :: cs ∧ c ≠ ']' := by
  cases value with
  | null => exact ⟨'n', "ull".toList, by rw [render]; decide, by decide⟩
  | string text =>
    exact ⟨'"', _, by rw [render]; exact Text.toList_jsonString text, by decide⟩
  | array elements => exact ⟨'[', _, toList_render_array elements, by decide⟩
  | object fields => exact ⟨'{', _, toList_render_object fields, by decide⟩

theorem exists_head_renderField (field : String × Json) :
    ∃ c cs, (renderField field).toList = c :: cs ∧ c ≠ '}' := by
  rw [renderField, String.toList_append, String.toList_append, Text.toList_jsonString]
  exact ⟨'"', _, rfl, by decide⟩

theorem length_render_le (field : String × Json) :
    (render field.2).toList.length ≤ (renderField field).toList.length := by
  rw [renderField, String.toList_append, List.length_append]
  exact Nat.le_add_left _ _

theorem readField?_renderField {read : List Char → Option (Json × List Char)} {key : String}
    {value : Json} (h : ∀ rest, read ((render value).toList ++ rest) = some (value, rest))
    (rest : List Char) :
    readField? read ((renderField (key, value)).toList ++ rest) = some ((key, value), rest) := by
  rw [renderField, String.toList_append, String.toList_append, List.append_assoc,
    List.append_assoc, readField?, readLiteral?_jsonString, Option.bind_some]
  dsimp only
  rw [show ":".toList = [':'] from rfl, List.singleton_append, List.head?_cons, if_pos rfl,
    List.tail_cons, h, Option.map_some, String.ofList_toList]

/-- A rendered value is read back, whatever follows it. -/
theorem read?_render {n : Nat} : ∀ {value : Json}, (render value).toList.length ≤ n →
    ∀ rest, read? n ((render value).toList ++ rest) = some (value, rest) := by
  induction n with
  | zero =>
    intro value hn
    obtain ⟨c, cs, hc, -⟩ := exists_head_render value
    rw [hc] at hn
    cases hn
  | succ n ih =>
    intro value hn rest
    cases value with
    | null =>
      rw [render, show "null".toList = ['n', 'u', 'l', 'l'] from rfl]
      rfl
    | string text =>
      have hliteral := readLiteral?_jsonString text rest
      rw [Text.toList_jsonString, List.cons_append] at hliteral
      rw [render, Text.toList_jsonString, List.cons_append, read?, hliteral, Option.map_some]
      dsimp only
      rw [String.ofList_toList]
    | array elements =>
      -- The text of an element is shorter than that of the array.
      have hread : ∀ e ∈ elements, ∀ rest,
          read? n ((render e).toList ++ rest) = some (e, rest) := by
        intro e he
        have hlength := length_le_length_intercalate_of_mem [',']
          (List.mem_map_of_mem (f := fun e => (render e).toList) he)
        rw [toList_render_array, List.length_cons, List.length_append] at hn
        exact ih (by omega)
      rw [toList_render_array, List.cons_append, List.append_assoc, List.singleton_append, read?,
        readClosed?_intercalate (by decide) hread (fun e _ => exists_head_render e),
        Option.map_some]
    | object fields =>
      have hread : ∀ f ∈ fields, ∀ rest,
          readField? (read? n) ((renderField f).toList ++ rest) = some (f, rest) := by
        intro f hf
        have hlength := length_le_length_intercalate_of_mem [',']
          (List.mem_map_of_mem (f := fun f => (renderField f).toList) hf)
        have hvalue := length_render_le f
        rw [toList_render_object, List.length_cons, List.length_append] at hn
        exact readField?_renderField (ih (by omega))
      rw [toList_render_object, List.cons_append, List.append_assoc, List.singleton_append, read?,
        readClosed?_intercalate (by decide) hread (fun f _ => exists_head_renderField f),
        Option.map_some]

/-- A rendered value is the value of its text. -/
theorem parse?_render (value : Json) : parse? (render value) = some value := by
  have h := read?_render (Nat.le_refl (render value).toList.length) []
  rw [List.append_nil] at h
  rw [parse?, h, Option.bind_some]
  rfl

end Stencil.Json
