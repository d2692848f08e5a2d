/-
Registries.

A registry holds at most one entry under each name, in ascending order of the names.  An
insertion under a known name replaces the entry.  Since the order is fixed by the names,
how a registry came about leaves no trace in it:

* `get?_insert_self`, `get?_insert_of_ne` — what a look-up finds after an insertion;
* `length_entries_erase_lt` — dropping an entry leaves fewer;
* `ext_get?` — registries with the same look-ups are equal;
* `insert_comm` — insertions under different names can change places;
* `mem_names_iff`, `pairwise_names` — the names are those with an entry, each once and in
  ascending order.
-/
namespace Stencil

/-- Entries under distinct names, in ascending order of the names. -/
structure Registry (α : Type) where
  entries : List (String × α) := []
  sorted : entries.Pairwise (fun a b => a.1 < b.1) := by exact List.Pairwise.nil

namespace Registry

variable {α : Type}

/-- The entries with `value` under `name`, if they are in order. -/
def place (name : String) (value : α) : List (String × α) → List (String × α)
  | [] => [(name, value)]
  | entry :: rest =>
    if name < entry.1 then (name, value) :: entry :: rest
    else if name = entry.1 then (name, value) :: rest
    else entry :: place name value rest

theorem mem_place {name : String} {value : α} {entry : String × α} {entries : List (String × α)}
    (h : entry ∈ place name value entries) : entry = (name, value) ∨ entry ∈ entries := by
  induction entries with
  | nil => exact .inl (List.mem_singleton.1 h)
  | cons first rest ih =>
    unfold place at h
    split at h
    next => simpa using h
    next =>
      split at h
      next =>
        rcases List.mem_cons.1 h with h | h
        · exact .inl h
        · exact .inr (List.mem_cons_of_mem _ h)
      next =>
        rcases List.mem_cons.1 h with h | h
        · exact .inr (h ▸ List.mem_cons_self)
        · exact (ih h).imp_right (List.mem_cons_of_mem _)

theorem pairwise_place (name : String) (value : α) {entries : List (String × α)}
    (h : entries.Pairwise fun a b => a.1 < b.1) :
    (place name value entries).Pairwise fun a b => a.1 < b.1 := by
  induction entries with
  | nil => simp [place]
  | cons first rest ih =>
    obtain ⟨hfirst, hrest⟩ := List.pairwise_cons.1 h
    unfold place
    split
    next hlt =>
      refine List.pairwise_cons.2 ⟨fun entry hentry => ?_, h⟩
      rcases List.mem_cons.1 hentry with rfl | hentry
      · exact hlt
      · exact String.lt_trans hlt (hfirst entry hentry)
    next hnlt =>
      split
      next heq => exact List.pairwise_cons.2 ⟨fun entry hentry => heq ▸ hfirst entry hentry, hrest⟩
      next hne =>
        refine List.pairwise_cons.2 ⟨fun entry hentry => ?_, ih hrest⟩
        rcases mem_place hentry with rfl | hentry
        · exact Std.lt_of_le_of_ne (String.not_lt.1 hnlt) (Ne.symm hne)
        · exact hfirst entry hentry

/-- The entry under `name`. -/
def get? (registry : Registry α) (name : String) : Option α :=
  registry.entries.lookup name

/-- Whether there is an entry under `name`. -/
def contains (registry : Registry α) (name : String) : Bool :=
  (registry.get? name).isSome

/-- The names in ascending order. -/
def names (registry : Registry α) : List String :=
  registry.entries.map Prod.fst

/-- Puts `value` under `name`. -/
def insert (registry : Registry α) (name : String) (value : α) : Registry α where
  entries := place name value registry.entries
  sorted := pairwise_place name value registry.sorted

/-- Drops the entry under `name`. -/
def erase (registry : Registry α) (name : String) : Registry α where
  entries := registry.entries.filter fun entry => entry.1 != name
  sorted := registry.sorted.filter _

/-! ### Look-ups -/

theorem lookup_place_self (name : String) (value : α) (entries : List (String × α)) :
    (place name value entries).lookup name = some value := by
  induction entries with
  | nil => simp [place]
  | cons first rest ih =>
    obtain ⟨key, content⟩ := first
    unfold place
    split
    next => simp
    next =>
      split
      next => simp
      next hne => simp [List.lookup_cons, beq_false_of_ne hne, ih]

theorem lookup_place_of_ne {name other : String} (h : other ≠ name) (value : α)
    (entries : List (String × α)) :
    (place name value entries).lookup other = entries.lookup other := by
  induction entries with
  | nil => simp [place, List.lookup_cons, beq_false_of_ne h]
  | cons first rest ih =>
    obtain ⟨key, content⟩ := first
    unfold place
    split
    next => simp [List.lookup_cons, beq_false_of_ne h]
    next =>
      split
      next heq =>
        obtain rfl : name = key := heq
        simp [List.lookup_cons, beq_false_of_ne h]
      next => simp [List.lookup_cons, ih]

@[simp] theorem get?_insert_self (registry : Registry α) (name : String) (value : α) :
    (registry.insert name value).get? name = some value :=
  lookup_place_self name value registry.entries

theorem get?_insert_of_ne (registry : Registry α) {name other : String} (h : other ≠ name)
    (value : α) : (registry.insert name value).get? other = registry.get? other :=
  lookup_place_of_ne h value registry.entries

theorem get?_insert (registry : Registry α) (name other : String) (value : α) :
    (registry.insert name value).get? other =
      if other = name then some value else registry.get? other := by
  split
  next h => rw [h, get?_insert_self]
  next h => exact registry.get?_insert_of_ne h value

theorem contains_insert (registry : Registry α) (name other : String) (value : α) :
    (registry.insert name value).contains other =
      (decide (other = name) || registry.contains other) := by
  by_cases h : other = name <;> simp [contains, get?_insert, h]

/-- Dropping an entry that is there leaves fewer. -/
theorem length_entries_erase_lt (registry : Registry α) {name : String} {value : α}
    (h : registry.get? name = some value) :
    (registry.erase name).entries.length < registry.entries.length := by
  obtain ⟨before, after, hsplit, -⟩ := List.lookup_eq_some_iff.1 h
  have hbefore := List.length_filter_le (fun entry => entry.1 != name) before
  have hafter := List.length_filter_le (fun entry => entry.1 != name) after
  simp only [erase, hsplit, List.filter_append, List.length_append]
  simp only [bne_self_eq_false, Bool.false_eq_true, not_false_eq_true, List.filter_cons_of_neg,
    List.length_cons]
  omega

theorem lookup_eq_none_of_lt {name : String} {entries : List (String × α)}
    (h : ∀ entry ∈ entries, name < entry.1) : entries.lookup name = none := by
  refine List.lookup_eq_none_iff.2 fun entry hentry => ?_
  have hlt := h entry hentry
  simp only [bne_iff_ne, ne_eq]
  exact fun e => String.lt_irrefl name (e ▸ hlt)

/-- In ascending order, entries are determined by their look-ups. -/
theorem eq_of_lookup_eq {as bs : List (String × α)} (ha : as.Pairwise fun a b => a.1 < b.1)
    (hb : bs.Pairwise fun a b => a.1 < b.1) (h : ∀ name, as.lookup name = bs.lookup name) :
    as = bs := by
  induction as generalizing bs with
  | nil =>
    cases bs with
    | nil => rfl
    | cons b bs =>
      obtain ⟨kb, vb⟩ := b
      simpa using h kb
  | cons a as ih =>
    cases bs with
    | nil =>
      obtain ⟨ka, va⟩ := a
      simpa using h ka
    | cons b bs =>
      obtain ⟨ka, va⟩ := a
      obtain ⟨kb, vb⟩ := b
      obtain ⟨hka, ha'⟩ := List.pairwise_cons.1 ha
      obtain ⟨hkb, hb'⟩ := List.pairwise_cons.1 hb
      have hkey : ka = kb := by
        refine Classical.byContradiction fun hne => ?_
        by_cases hlt : ka < kb
        · have hnone : ((kb, vb) :: bs).lookup ka = none :=
            lookup_eq_none_of_lt fun entry hentry => by
              rcases List.mem_cons.1 hentry with rfl | hentry
              · exact hlt
              · exact String.lt_trans hlt (hkb entry hentry)
          simpa [hnone] using h ka
        · have hlt' := Std.lt_of_le_of_ne (String.not_lt.1 hlt) (Ne.symm hne)
          have hnone : ((ka, va) :: as).lookup kb = none :=
            lookup_eq_none_of_lt fun entry hentry => by
              rcases List.mem_cons.1 hentry with rfl | hentry
              · exact hlt'
              · exact String.lt_trans hlt' (hka entry hentry)
          simpa [hnone] using (h kb).symm
      subst hkey
      obtain rfl : va = vb := by simpa using h ka
      congr 1
      refine ih ha' hb' fun name => ?_
      by_cases hname : name = ka
      · rw [hname, lookup_eq_none_of_lt hka, lookup_eq_none_of_lt hkb]
      · simpa [List.lookup_cons, beq_false_of_ne hname] using h name

/-- Registries are determined by their look-ups. -/
theorem ext_get? {a b : Registry α} (h : ∀ name, a.get? name = b.get? name) : a = b := by
  obtain ⟨as, ha⟩ := a
  obtain ⟨bs, hb⟩ := b
  obtain rfl := eq_of_lookup_eq ha hb h
  rfl

/-- Insertions under different names can change places. -/
theorem insert_comm (registry : Registry α) {a b : String} (h : a ≠ b) (x y : α) :
    (registry.insert a x).insert b y = (registry.insert b y).insert a x := by
  refine ext_get? fun name => ?_
  simp only [get?_insert]
  split
  next hb => rw [if_neg (by rw [hb]; exact Ne.symm h)]
  next => rfl

/-! ### Names -/

/-- The names are those with an entry. -/
theorem mem_names_iff {registry : Registry α} {name : String} :
    name ∈ registry.names ↔ registry.contains name = true := by
  rw [contains, get?, Option.isSome_iff_ne_none, ne_eq, List.lookup_eq_none_iff]
  simp only [names, List.mem_map, bne_iff_ne, ne_eq, Classical.not_forall, Classical.not_not,
    exists_prop]
  exact exists_congr fun entry => and_congr_right fun _ => eq_comm

theorem pairwise_names (registry : Registry α) : registry.names.Pairwise (· < ·) :=
  List.pairwise_map.2 registry.sorted

end Registry

end Stencil
