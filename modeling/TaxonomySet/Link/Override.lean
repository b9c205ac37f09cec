namespace TaxonomySet

universe u

/-- Anything that competes with its equivalents by priority and may prohibit them. -/
class Overridable (α : Type u) where
  priority : α → Int
  isProhibited : α → Bool

open Overridable

variable {α : Type u} [Overridable α]

/-- The highest priority in a group. -/
def topPriority? (group : List α) : Option Int := (group.map priority).max?

/-- The members of a group that count. The highest priority wins, and a prohibition at that priority suppresses the
whole group; otherwise every member at that priority counts. -/
def selectEffective (group : List α) : List α :=
  match topPriority? group with
  | none => []
  | some top =>
    let best := group.filter fun a => priority a == top
    if best.any isProhibited then [] else best

end TaxonomySet
