/-! # Registries

A registry holds a value for every name; at first it holds the same for all of them. -/

namespace Cascade

/-- Values by name. -/
def Registry (α : Type) : Type := String → α

namespace Registry

variable {α : Type}

/-- The registry that holds the default value for every name. -/
def initial [Inhabited α] : Registry α := fun _ => default

/-- The value of a name. -/
def get (r : Registry α) (name : String) : α := r name

/-- The registry with another value for a name. -/
def set (r : Registry α) (name : String) (a : α) : Registry α :=
  fun n => if n = name then a else r n

theorem get_set {r : Registry α} {name n : String} {a : α} :
    (r.set name a).get n = if n = name then a else r.get n := rfl

end Registry

end Cascade
