/-
# Programs that issue commands

A program is a tree: it returns a value, or issues a command to its host and
continues with the host's answer. The host is a handler, a function from
commands and host states to answers and host states. Nothing is assumed about
the program, so a statement about every program is a statement about arbitrary
client code that reaches its host through the commands alone.

The one rule is that a reflexive and transitive relation between host states
holds across a whole program as soon as it holds across each command.
-/
import Mathlib.Logic.Relation

namespace CS

universe u v w x

/-- A program over the commands `C`, whose answers have the types `A`. -/
inductive Prog (C : Type u) (A : C → Type v) (α : Type w) : Type (max u v w)
  | ret (value : α) : Prog C A α
  | call (command : C) (next : A command → Prog C A α) : Prog C A α

namespace Prog

variable {C : Type u} {A : C → Type v} {α β : Type w} {S : Type x}

/-- Run one program, then another on its result. -/
def bind : Prog C A α → (α → Prog C A β) → Prog C A β
  | .ret value, rest => rest value
  | .call command next, rest => .call command fun answer => (next answer).bind rest

instance : Monad (Prog C A) where
  pure := .ret
  bind := bind

/-- The program that issues one command and returns its answer. -/
def perform (command : C) : Prog C A (A command) := .call command .ret

/-- Run a program against a host. -/
def run (handler : (command : C) → S → A command × S) : Prog C A α → S → α × S
  | .ret value, host => (value, host)
  | .call command next, host =>
      (next (handler command host).1).run handler (handler command host).2

variable (handler : (command : C) → S → A command × S)

@[simp] theorem run_ret (value : α) (host : S) :
    (Prog.ret value : Prog C A α).run handler host = (value, host) := rfl

@[simp] theorem run_pure (value : α) (host : S) :
    (pure value : Prog C A α).run handler host = (value, host) := rfl

@[simp] theorem run_call (command : C) (next : A command → Prog C A α) (host : S) :
    (Prog.call command next).run handler host =
      (next (handler command host).1).run handler (handler command host).2 := rfl

@[simp] theorem run_bind (program : Prog C A α) (rest : α → Prog C A β) (host : S) :
    (program >>= rest).run handler host =
      (rest (program.run handler host).1).run handler (program.run handler host).2 := by
  induction program generalizing host with
  | ret value => rfl
  | call command next ih => exact ih _ _

theorem bind_assoc {γ : Type w} (program : Prog C A α) (rest : α → Prog C A β)
    (last : β → Prog C A γ) :
    program >>= rest >>= last = program >>= fun value => rest value >>= last := by
  induction program with
  | ret value => rfl
  | call command next ih => exact congrArg (Prog.call command) (funext ih)

/-- **Program rule.** What relates the host before and after each command, and
composes, relates the host before and after every program. -/
theorem run_rel {r : S → S → Prop} (hrefl : ∀ s, r s s)
    (htrans : ∀ {s t u}, r s t → r t u → r s u)
    (hcommand : ∀ command s, r s (handler command s).2)
    (program : Prog C A α) (host : S) : r host (program.run handler host).2 := by
  induction program generalizing host with
  | ret value => exact hrefl host
  | call command next ih => exact htrans (hcommand command host) (ih _ _)

/-- A program that issues only commands with a property, whatever it is answered. -/
def Only (p : C → Prop) : Prog C A α → Prop
  | .ret _ => True
  | .call command next => p command ∧ ∀ answer, (next answer).Only p

/-- **Program rule** for a program that issues only some of the commands. -/
theorem run_rel_of_only {p : C → Prop} {r : S → S → Prop} (hrefl : ∀ s, r s s)
    (htrans : ∀ {s t u}, r s t → r t u → r s u)
    (hcommand : ∀ command s, p command → r s (handler command s).2)
    {program : Prog C A α} (honly : program.Only p) (host : S) :
    r host (program.run handler host).2 := by
  induction program generalizing host with
  | ret value => exact hrefl host
  | call command next ih =>
    exact htrans (hcommand command host honly.1) (ih _ (honly.2 _) _)

end Prog

end CS
