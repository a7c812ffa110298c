import Cascade.Event

/-! # Traced computations

A computation that reports events and then returns a result or fails. The events before a failure
are kept. It is a lawful monad. -/

namespace Cascade

/-- The events and the outcome of a computation. -/
structure Traced (α : Type) where
  events : List Event
  outcome : Except Error α

namespace Traced

variable {α β : Type}

/-- The computation that reports nothing and has the given outcome. -/
def ofExcept (outcome : Except Error α) : Traced α := ⟨[], outcome⟩

/-- The computation that reports one event. -/
def report (event : Event) : Traced Unit := ⟨[event], .ok ()⟩

/-- The computation with an event reported after a failure. -/
def reportError (event : Error → Event) (x : Traced α) : Traced α :=
  match x.outcome with
  | .ok _ => x
  | .error e => { x with events := x.events ++ [event e] }

/-- A computation and then, if it returns a result, another one. -/
def andThen (x : Traced α) (f : α → Traced β) : Traced β :=
  match x.outcome with
  | .ok a => ⟨x.events ++ (f a).events, (f a).outcome⟩
  | .error e => ⟨x.events, .error e⟩

instance : Monad Traced where
  pure a := ⟨[], .ok a⟩
  bind := andThen

theorem bind_ok (es : List Event) (a : α) (f : α → Traced β) :
    (⟨es, .ok a⟩ : Traced α) >>= f = ⟨es ++ (f a).events, (f a).outcome⟩ := rfl

theorem id_map {x : Traced α} : id <$> x = x := by
  obtain ⟨es, e | a⟩ := x
  · rfl
  · change (⟨es ++ [], .ok a⟩ : Traced α) = _
    rw [List.append_nil]

theorem bind_assoc {γ : Type} {x : Traced α} {f : α → Traced β} {g : β → Traced γ} :
    x >>= f >>= g = x >>= fun a => f a >>= g := by
  obtain ⟨es, e | a⟩ := x
  · rfl
  · rw [bind_ok, bind_ok]
    obtain ⟨fs, e | b⟩ := f a
    · rfl
    · rw [bind_ok, bind_ok, List.append_assoc]

instance : LawfulMonad Traced :=
  LawfulMonad.mk' Traced (fun _ => id_map) (fun _ _ => rfl) fun _ _ _ => bind_assoc

end Traced

end Cascade
