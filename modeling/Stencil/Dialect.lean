/-
Dialects.

A dialect says which keywords open a section in the blocks of a name, and how many blocks
may be open at once.  The keyword tables are registries, so a dialect does not remember in
which order, or how often, its keywords were added (`addSection_comm`, `addSection_eq_self`).
-/
import Stencil.Registry

namespace Stencil

/-- What a template may hold. -/
@[ext] structure Dialect where
  /-- The section keywords of each block name. -/
  sections : Registry (Registry Unit) := {}
  /-- How many blocks may be open at once. -/
  maxDepth : Nat := 256

namespace Dialect

/-- The section keywords of the blocks named `block`. -/
def keywords (dialect : Dialect) (block : String) : Registry Unit :=
  (dialect.sections.get? block).getD {}

/-- Whether `keyword` opens a section in the blocks named `block`. -/
def isSectionKeyword (dialect : Dialect) (block keyword : String) : Bool :=
  (dialect.keywords block).contains keyword

/-- Lets `keyword` open a section in the blocks named `block`. -/
def addSection (dialect : Dialect) (block keyword : String) : Dialect :=
  { dialect with
    sections := dialect.sections.insert block ((dialect.keywords block).insert keyword ()) }

theorem keywords_addSection (dialect : Dialect) (block keyword other : String) :
    (dialect.addSection block keyword).keywords other =
      if other = block then (dialect.keywords block).insert keyword ()
      else dialect.keywords other := by
  unfold keywords addSection
  rw [Registry.get?_insert]
  split <;> rfl

/-- A keyword opens exactly the sections it opened before and the one that was added. -/
theorem isSectionKeyword_addSection (dialect : Dialect) (block keyword b k : String) :
    (dialect.addSection block keyword).isSectionKeyword b k =
      (decide (b = block ∧ k = keyword) || dialect.isSectionKeyword b k) := by
  unfold isSectionKeyword
  rw [keywords_addSection]
  by_cases hb : b = block
  · simp [hb, Registry.contains_insert]
  · simp [hb]

theorem get?_sections_addSection (dialect : Dialect) (block keyword name : String) :
    (dialect.addSection block keyword).sections.get? name =
      if name = block then some ((dialect.keywords block).insert keyword ())
      else dialect.sections.get? name :=
  Registry.get?_insert _ _ _ _

/-- Keywords can be added in either order. -/
theorem addSection_comm (dialect : Dialect) (b k b' k' : String) :
    (dialect.addSection b k).addSection b' k' = (dialect.addSection b' k').addSection b k := by
  have hinsert : ∀ r : Registry Unit,
      (r.insert k ()).insert k' () = (r.insert k' ()).insert k () := fun r =>
    Registry.ext_get? fun name => by
      simp only [Registry.get?_insert]
      split <;> split <;> rfl
  refine Dialect.ext (Registry.ext_get? fun name => ?_) rfl
  simp only [get?_sections_addSection, keywords_addSection]
  by_cases hb : b = b'
  · subst hb
    by_cases hname : name = b <;> simp [hname, hinsert]
  · by_cases hname : name = b
    · simp [hname, hb]
    · simp [hname, Ne.symm hb]

/-- A keyword that opens a section already can be added again for nothing. -/
theorem addSection_eq_self {dialect : Dialect} {block keyword : String}
    (h : dialect.isSectionKeyword block keyword = true) :
    dialect.addSection block keyword = dialect := by
  obtain ⟨_, hknown⟩ := Option.isSome_iff_exists.1 h
  have hkeywords : (dialect.keywords block).insert keyword () = dialect.keywords block :=
    Registry.ext_get? fun name => by
      rw [Registry.get?_insert]
      split
      next hname => rw [hname, hknown]
      next => rfl
  refine Dialect.ext (Registry.ext_get? fun name => ?_) rfl
  rw [get?_sections_addSection, hkeywords]
  split
  next hname =>
    unfold keywords at hknown ⊢
    rw [hname]
    cases hblock : dialect.sections.get? block with
    | none => rw [hblock] at hknown; cases hknown
    | some known => rfl
  next => rfl

end Dialect

end Stencil
