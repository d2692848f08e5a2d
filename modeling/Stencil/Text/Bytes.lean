/-
Sizes of texts in UTF-8 bytes.

Positions in a template count bytes, while texts are read character by character.  Two
functions tie the two views together:

* `byteLength cs` — the number of bytes that the characters `cs` take, additive over `++`
  (`byteLength_append`);
* `takeBytes? cs n` — the initial part of `cs` that takes exactly `n` bytes, where there is
  one: `takeBytes?_eq_some_iff` says that an offset is refused exactly when it lies past the
  end or inside a character.
-/
namespace Stencil.Text

/-- The number of bytes that `cs` takes in UTF-8. -/
def byteLength (cs : List Char) : Nat :=
  cs.foldr (fun c n => c.utf8Size + n) 0

@[simp] theorem byteLength_nil : byteLength [] = 0 := rfl

@[simp] theorem byteLength_cons (c : Char) (cs : List Char) :
    byteLength (c :: cs) = c.utf8Size + byteLength cs := rfl

@[simp] theorem byteLength_append (cs ds : List Char) :
    byteLength (cs ++ ds) = byteLength cs + byteLength ds := by
  induction cs with
  | nil => simp
  | cons c cs ih => simp [ih, Nat.add_assoc]

theorem byteLength_eq_zero_iff {cs : List Char} : byteLength cs = 0 ↔ cs = [] := by
  cases cs with
  | nil => simp
  | cons c cs =>
    have := c.utf8Size_pos
    simp
    omega

/-- The initial part of a text that takes exactly the given number of bytes; `none` if no
character of the text ends there. -/
def takeBytes? : List Char → Nat → Option (List Char)
  | _, 0 => some []
  | [], _ + 1 => none
  | c :: cs, n + 1 =>
    if c.utf8Size ≤ n + 1 then (takeBytes? cs (n + 1 - c.utf8Size)).map (c :: ·) else none

@[simp] theorem takeBytes?_zero (cs : List Char) : takeBytes? cs 0 = some [] := by
  cases cs <;> rfl

theorem takeBytes?_append (cs ds : List Char) :
    takeBytes? (cs ++ ds) (byteLength cs) = some cs := by
  induction cs with
  | nil => simp
  | cons c cs ih =>
    obtain ⟨n, hn⟩ : ∃ n, c.utf8Size + byteLength cs = n + 1 :=
      ⟨c.utf8Size + byteLength cs - 1, by have := c.utf8Size_pos; omega⟩
    simp only [List.cons_append, byteLength_cons, hn, takeBytes?]
    rw [if_pos (by omega), show n + 1 - c.utf8Size = byteLength cs by omega, ih]
    rfl

/-- An offset has an initial part exactly if the text splits there. -/
theorem takeBytes?_eq_some_iff {cs pre : List Char} {n : Nat} :
    takeBytes? cs n = some pre ↔ byteLength pre = n ∧ ∃ post, cs = pre ++ post := by
  constructor
  · intro h
    induction cs generalizing n pre with
    | nil =>
      cases n with
      | zero =>
        obtain rfl : [] = pre := Option.some.inj h
        exact ⟨rfl, [], rfl⟩
      | succ n => exact absurd h (by simp [takeBytes?])
    | cons c cs ih =>
      cases n with
      | zero =>
        obtain rfl : [] = pre := Option.some.inj h
        exact ⟨rfl, c :: cs, rfl⟩
      | succ n =>
        simp only [takeBytes?] at h
        split at h
        · obtain ⟨rest, hrest, rfl⟩ := Option.map_eq_some_iff.1 h
          obtain ⟨hlen, post, rfl⟩ := ih hrest
          exact ⟨by simp only [byteLength_cons]; omega, post, rfl⟩
        · exact absurd h (by simp)
  · rintro ⟨rfl, post, rfl⟩
    exact takeBytes?_append pre post

end Stencil.Text
