/-
Arguments of a call, a block or a section.

Positional arguments are a list.  Named arguments are kept in the order in which their keys
first appeared, and `NamedArguments` carries the proof that no key appears twice:

* `insert` — a new key goes to the end, a known key keeps its place and takes the new value
  (`keys_insert`);
* `get?_insert_self`, `get?_insert_of_ne` — what a look-up finds after an insertion.
-/
import Stencil.Value

namespace Stencil

namespace NamedArguments

/-- The entries with `value` under `key`: in the place of the key if it is known, at the end
otherwise. -/
def assign (key : String) (value : Value) : List (String × Value) → List (String × Value)
  | [] => [(key, value)]
  | entry :: rest =>
    if entry.1 = key then (key, value) :: rest else entry :: assign key value rest

theorem map_fst_assign (key : String) (value : Value) (entries : List (String × Value)) :
    (assign key value entries).map Prod.fst =
      if key ∈ entries.map Prod.fst then entries.map Prod.fst
      else entries.map Prod.fst ++ [key] := by
  induction entries with
  | nil => simp [assign]
  | cons entry rest ih =>
    by_cases h : entry.1 = key
    · simp [assign, h]
    · by_cases hk : key ∈ rest.map Prod.fst
      · simp only [assign, if_neg h, List.map_cons, ih, if_pos hk]
        rw [if_pos (List.mem_cons_of_mem _ hk)]
      · simp only [assign, if_neg h, List.map_cons, ih, if_neg hk]
        rw [if_neg (by simp only [List.mem_cons, not_or]; exact ⟨fun e => h e.symm, hk⟩)]
        rfl

theorem nodup_assign {entries : List (String × Value)} (h : (entries.map Prod.fst).Nodup)
    (key : String) (value : Value) : ((assign key value entries).map Prod.fst).Nodup := by
  rw [map_fst_assign]
  split
  next => exact h
  next hk =>
    rw [List.nodup_append]
    exact ⟨h, by simp, fun a ha b hb => by
      obtain rfl := List.mem_singleton.1 hb
      exact fun e => hk (e ▸ ha)⟩

end NamedArguments

/-- Values under distinct keys, in the order in which the keys first appeared. -/
structure NamedArguments where
  entries : List (String × Value) := []
  nodup_keys : (entries.map Prod.fst).Nodup := by exact List.nodup_nil
deriving DecidableEq, Repr

namespace NamedArguments

/-- The keys in order. -/
def keys (named : NamedArguments) : List String :=
  named.entries.map Prod.fst

/-- The value under `key`. -/
def get? (named : NamedArguments) (key : String) : Option Value :=
  named.entries.lookup key

/-- Puts `value` under `key`. -/
def insert (named : NamedArguments) (key : String) (value : Value) : NamedArguments where
  entries := assign key value named.entries
  nodup_keys := nodup_assign named.nodup_keys key value

/-- The arguments after one insertion for each pair, from left to right. -/
def ofList (pairs : List (String × Value)) : NamedArguments :=
  pairs.foldl (fun named pair => named.insert pair.1 pair.2) {}

/-- Only a new key changes the list of keys, and it goes to the end. -/
theorem keys_insert (named : NamedArguments) (key : String) (value : Value) :
    (named.insert key value).keys =
      if key ∈ named.keys then named.keys else named.keys ++ [key] :=
  map_fst_assign key value named.entries

theorem lookup_assign_self (key : String) (value : Value) (entries : List (String × Value)) :
    (assign key value entries).lookup key = some value := by
  induction entries with
  | nil => simp [assign]
  | cons entry rest ih =>
    obtain ⟨k, v⟩ := entry
    by_cases h : k = key
    · simp [assign, h]
    · simp [assign, h, List.lookup_cons, ih, beq_false_of_ne (Ne.symm h)]

theorem lookup_assign_of_ne {key other : String} (h : other ≠ key) (value : Value)
    (entries : List (String × Value)) :
    (assign key value entries).lookup other = entries.lookup other := by
  induction entries with
  | nil => simp [assign, List.lookup_cons, beq_false_of_ne h]
  | cons entry rest ih =>
    obtain ⟨k, v⟩ := entry
    by_cases hk : k = key
    · subst hk
      simp [assign, List.lookup_cons, beq_false_of_ne h]
    · simp [assign, hk, List.lookup_cons, ih]

@[simp] theorem get?_insert_self (named : NamedArguments) (key : String) (value : Value) :
    (named.insert key value).get? key = some value :=
  lookup_assign_self key value named.entries

theorem get?_insert_of_ne (named : NamedArguments) {key other : String} (h : other ≠ key)
    (value : Value) : (named.insert key value).get? other = named.get? other :=
  lookup_assign_of_ne h value named.entries

end NamedArguments

/-- The arguments of a call, a block or a section. -/
structure Arguments where
  positional : List Value := []
  named : NamedArguments := {}
deriving DecidableEq, Repr

namespace Arguments

/-- Whether there is no argument at all. -/
def isEmpty (args : Arguments) : Bool :=
  args.positional.isEmpty && args.named.entries.isEmpty

/-- The positional argument number `index`, counted from zero. -/
def get? (args : Arguments) (index : Nat) : Option Value :=
  args.positional[index]?

/-- Adds an argument: under `key` if there is one, at the end of the positional ones
otherwise. -/
def add (args : Arguments) (key? : Option String) (value : Value) : Arguments :=
  match key? with
  | none => { args with positional := args.positional ++ [value] }
  | some key => { args with named := args.named.insert key value }

end Arguments

end Stencil
