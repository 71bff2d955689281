import Mathlib.Logic.Basic

/-!
# Objects that are registered under keys

Objects are made on demand and registered under a key, and whoever needs the object of a key holds it
for a while. The holders of a key share one object as long as each object that is held is the one that
is registered (`Coherent`). Taking the registered object keeps it so, and so does registering a new
object while the key has no holder.
-/

set_option autoImplicit false

namespace Ferron.Lib.Registry

variable {κ ι : Type}

/-- Every object that is held for a key is the one that is registered under it. -/
def Coherent (registered : κ → Option ι) (Held : κ → ι → Prop) : Prop :=
  ∀ key object, Held key object → registered key = some object

namespace Coherent

variable {registered registered' : κ → Option ι} {Held Held' : κ → ι → Prop}

/-- The holders of a key share one object. -/
theorem unique (h : Coherent registered Held) {key : κ} {object object' : ι}
    (hheld : Held key object) (hheld' : Held key object') : object = object' :=
  Option.some.inj ((h key object hheld).symm.trans (h key object' hheld'))

/-- Objects may be released. -/
theorem mono (h : Coherent registered Held) (hless : ∀ key object, Held' key object → Held key object) :
    Coherent registered Held' :=
  fun key object hheld => h key object (hless key object hheld)

/-- The registered object may be taken. -/
theorem take (h : Coherent registered Held) {key : κ} {object : ι}
    (hobject : registered key = some object)
    (hmore : ∀ key' object', Held' key' object' →
      Held key' object' ∨ key' = key ∧ object' = object) :
    Coherent registered Held' := by
  intro key' object' hheld
  rcases hmore key' object' hheld with hold | ⟨rfl, rfl⟩
  · exact h key' object' hold
  · exact hobject

/-- A new object may be registered under a key without holders, and be taken. -/
theorem register (h : Coherent registered Held) {key : κ} {object : ι}
    (hunheld : ∀ object', ¬Held key object') (hobject : registered' key = some object)
    (hother : ∀ key', key' ≠ key → registered' key' = registered key')
    (hmore : ∀ key' object', Held' key' object' →
      Held key' object' ∨ key' = key ∧ object' = object) :
    Coherent registered' Held' := by
  intro key' object' hheld
  rcases hmore key' object' hheld with hold | ⟨rfl, rfl⟩
  · rw [hother key' fun hkey => hunheld object' (hkey ▸ hold)]
    exact h key' object' hold
  · exact hobject

end Coherent

end Ferron.Lib.Registry
