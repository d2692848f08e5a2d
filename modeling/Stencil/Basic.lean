/-
Results, lists and characters.

What is needed of them in many places and says nothing of templates.

* `mapError_eq_ok`, `bind_eq_ok`, `map_eq_ok` — a result is there if the results that it is made
  from are;
* `error?_map`, `error?_bind`, `error?_mapM` — if one of them is missing, the first error counts;
* `mapM_map_eq_some` — what is encoded part by part is decoded part by part;
* `lookup_eq_some_iff_mem` — under distinct keys a look-up finds what is there.
-/
namespace Stencil

/-! ### Results -/

section Results

variable {ε ε' α β : Type}

theorem mapError_eq_ok {x : Except ε α} {f : ε → ε'} {a : α} :
    x.mapError f = .ok a ↔ x = .ok a := by
  cases x with
  | error e => exact ⟨nofun, nofun⟩
  | ok a' => exact ⟨fun h => congrArg _ (Except.ok.inj h), fun h => congrArg _ (Except.ok.inj h)⟩

theorem bind_eq_ok {x : Except ε α} {f : α → Except ε β} {b : β} :
    x >>= f = .ok b ↔ ∃ a, x = .ok a ∧ f a = .ok b := by
  cases x with
  | error e => exact ⟨nofun, nofun⟩
  | ok a => exact ⟨fun h => ⟨a, rfl, h⟩, fun ⟨_, rfl, h⟩ => h⟩

theorem map_eq_ok {x : Except ε α} {f : α → β} {b : β} :
    x.map f = .ok b ↔ ∃ a, x = .ok a ∧ f a = b := by
  cases x with
  | error e => exact ⟨nofun, nofun⟩
  | ok a => exact ⟨fun h => ⟨a, rfl, Except.ok.inj h⟩, fun ⟨_, rfl, h⟩ => congrArg _ h⟩

/-- The error that a result is. -/
def error? : Except ε α → Option ε
  | .ok _ => none
  | .error e => some e

theorem error?_eq_some_iff {x : Except ε α} {e : ε} : error? x = some e ↔ x = .error e := by
  cases x with
  | ok a => exact ⟨nofun, nofun⟩
  | error e' =>
    exact ⟨fun h => congrArg _ (Option.some.inj h), fun h => congrArg _ (Except.error.inj h)⟩

theorem error?_map (f : α → β) (x : Except ε α) : error? (x.map f) = error? x := by
  cases x <;> rfl

theorem error?_bind_pure (f : α → β) (x : Except ε α) :
    error? (x >>= fun a => pure (f a)) = error? x := by
  cases x <;> rfl

/-- If what comes next fails in the same way after any result, the first failure counts. -/
theorem error?_bind {x : Except ε α} {f : α → Except ε β} {e? : Option ε}
    (h : ∀ a, error? (f a) = e?) : error? (x >>= f) = (error? x).or e? := by
  cases x with
  | ok a => exact h a
  | error e => rfl

end Results

/-! ### Lists -/

section Lists

variable {ε α β : Type}

theorem findSome?_cons_eq_or (f : α → Option β) (a : α) (as : List α) :
    (a :: as).findSome? f = (f a).or (as.findSome? f) := by
  rw [List.findSome?_cons]
  cases f a <;> rfl

theorem error?_mapM (f : α → Except ε β) (as : List α) :
    error? (as.mapM f) = as.findSome? fun a => error? (f a) := by
  induction as with
  | nil => rfl
  | cons a as ih =>
    have hrest : ∀ b, error? (as.mapM f >>= fun bs => pure (b :: bs)) =
        as.findSome? fun a => error? (f a) := by
      intro b
      rw [error?_bind_pure, ih]
    rw [List.mapM_cons, findSome?_cons_eq_or, error?_bind hrest]

/-- Decoding the parts of a list one by one undoes encoding them one by one. -/
theorem mapM_map_eq_some {decode : β → Option α} {encode : α → β}
    (h : ∀ a, decode (encode a) = some a) (as : List α) :
    (as.map encode).mapM decode = some as := by
  induction as with
  | nil => rfl
  | cons a as ih =>
    rw [List.map_cons, List.mapM_cons, h, ih]
    rfl

/-- Among entries with distinct keys a value is found under its key. -/
theorem lookup_eq_some_iff_mem {entries : List (String × α)}
    (hnodup : (entries.map Prod.fst).Nodup) {key : String} {value : α} :
    entries.lookup key = some value ↔ (key, value) ∈ entries := by
  rw [List.lookup_eq_some_iff]
  constructor
  · rintro ⟨before, after, rfl, -⟩
    exact List.mem_append_right _ List.mem_cons_self
  · intro h
    obtain ⟨before, after, rfl⟩ := List.append_of_mem h
    rw [List.map_append, List.map_cons, List.nodup_append] at hnodup
    obtain ⟨-, -, hne⟩ := hnodup
    refine ⟨before, after, rfl, fun entry hentry => ?_⟩
    rw [bne_iff_ne]
    exact (hne _ (List.mem_map_of_mem hentry) _ List.mem_cons_self).symm

theorem length_le_length_intercalate (separator : α) (ts : List (List α)) :
    ts.length ≤ ([separator].intercalate ts).length + 1 := by
  induction ts with
  | nil => exact Nat.zero_le _
  | cons t ts ih =>
    cases ts with
    | nil => exact Nat.le_add_left _ _
    | cons u us =>
      rw [List.intercalate_cons_cons, List.length_append, List.length_append, List.length_cons]
      simp only [List.length_singleton]
      omega

theorem length_le_length_intercalate_of_mem (separator : List α) {t : List α} {ts : List (List α)}
    (h : t ∈ ts) : t.length ≤ (separator.intercalate ts).length := by
  induction ts with
  | nil => cases h
  | cons u us ih =>
    cases us with
    | nil =>
      obtain rfl := List.mem_singleton.mp h
      exact Nat.le_of_eq (congrArg List.length List.intercalate_singleton.symm)
    | cons v vs =>
      rw [List.intercalate_cons_cons, List.length_append, List.length_append]
      rcases List.mem_cons.mp h with rfl | h
      · omega
      · exact Nat.le_trans (ih h) (Nat.le_add_left _ _)

end Lists

/-! ### Characters -/

/-- Characters differ if only one of them is of a class. -/
theorem ne_of_class {p : Char → Bool} {c d : Char} (hc : p c = true) (hd : p d = false) :
    c ≠ d := by
  rintro rfl
  rw [hd] at hc
  cases hc

theorem head?_dropWhile_eq_false (p : Char → Bool) (cs : List Char) (c : Char)
    (h : (cs.dropWhile p).head? = some c) : p c = false := by
  have hnot := List.head?_dropWhile_not p cs
  rw [h] at hnot
  simpa using hnot

theorem toNat_ofNat {n : Nat} (h : n.isValidChar) : (Char.ofNat n).toNat = n := by
  rw [Char.ofNat, dif_pos h]
  rfl

/-- No character is half of a pair of UTF-16. -/
theorem toNat_not_surrogate (u : Char) : u.toNat < 0xD800 ∨ 0xE000 ≤ u.toNat := by
  rcases u.valid with h | h
  · exact .inl h
  · exact .inr h.1

end Stencil
