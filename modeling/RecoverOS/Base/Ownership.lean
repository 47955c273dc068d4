import Mathlib.Tactic.TypeStar

set_option autoImplicit false

/-! # Exclusive ownership of resources

`holds a r` says that place `a` names resource `r`, `used r` that the allocator counts `r` as taken.
`Exclusive holds used` is the invariant of an allocator and of everything that stores what it hands
out: what is named is counted, and no resource has two names. The rules below say how it survives the
three things that happen to it: names disappear, fresh resources get names, resources are given back. -/

namespace RecoverOS

variable {ι R : Type*}

/-- Every named resource is used, and no resource is named by two places. -/
structure Exclusive (holds : ι → R → Prop) (used : R → Prop) : Prop where
  used_of_holds : ∀ {a r}, holds a r → used r
  place_eq : ∀ {a b r}, holds a r → holds b r → a = b

namespace Exclusive

variable {holds holds' : ι → R → Prop} {used used' : R → Prop}

/-- Names may disappear and resources may be taken without a name. -/
theorem mono (h : Exclusive holds used) (hh : ∀ a r, holds' a r → holds a r)
    (hu : ∀ r, used r → used' r) : Exclusive holds' used' where
  used_of_holds ha := hu _ (h.used_of_holds (hh _ _ ha))
  place_eq ha hb := h.place_eq (hh _ _ ha) (hh _ _ hb)

/-- Places may get names of resources that nothing named before, each resource at one place. -/
theorem extend (h : Exclusive holds used) (fresh : ι → R → Prop)
    (hh : ∀ a r, holds' a r → holds a r ∨ fresh a r) (hnew : ∀ a b r, fresh a r → ¬ holds b r)
    (hone : ∀ a b r, fresh a r → fresh b r → a = b) (hu : ∀ r, used r → used' r)
    (htaken : ∀ a r, fresh a r → used' r) : Exclusive holds' used' where
  used_of_holds ha := by
    rcases hh _ _ ha with ha | ha
    · exact hu _ (h.used_of_holds ha)
    · exact htaken _ _ ha
  place_eq ha hb := by
    rcases hh _ _ ha with ha | ha <;> rcases hh _ _ hb with hb | hb
    · exact h.place_eq ha hb
    · exact absurd ha (hnew _ _ _ hb)
    · exact absurd hb (hnew _ _ _ ha)
    · exact hone _ _ _ ha hb

/-- Resources nothing names any more may be given back. -/
theorem release (h : Exclusive holds used) (hh : ∀ a r, holds' a r → holds a r)
    (hu : ∀ a r, holds' a r → used r → used' r) : Exclusive holds' used' where
  used_of_holds ha := hu _ _ ha (h.used_of_holds (hh _ _ ha))
  place_eq ha hb := h.place_eq (hh _ _ ha) (hh _ _ hb)

end Exclusive

end RecoverOS
