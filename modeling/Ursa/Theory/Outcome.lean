/-
# Theory.Outcome — how a call of fallible, panicking, possibly diverging code ends

A Rust function that returns `Result` can end in four ways: `Ok`, `Err`, a panic
(an `unwrap`, an `expect`, an index out of bounds), or not at all.  `Outcome`
keeps the four apart, so that "returns an error" never stands for "panics" and
"did not return" never stands for either.

A stateful call is a function `σ → Outcome ε α × σ`: the state is returned in
every case, because what an error exit has already changed is a property of the
code like any other.
-/
import Mathlib.Logic.Basic

namespace Ursa.Theory

set_option autoImplicit false

universe u v w x

inductive Outcome (ε : Type u) (α : Type v) where
  | ok (value : α)
  | err (error : ε)
  | panic (message : String)
  /-- The call never returns: a loop that spins, or one the model cut off. -/
  | diverge
  deriving DecidableEq, Repr

namespace Outcome

variable {ε : Type u} {α : Type v} {β : Type w}

def isOk : Outcome ε α → Bool
  | .ok _ => true
  | _ => false

theorem isOk_iff {o : Outcome ε α} : o.isOk = true ↔ ∃ a, o = .ok a := by
  cases o <;> simp [isOk]

/-- The caller is told of a failure and goes on. -/
def IsErr : Outcome ε α → Prop
  | .err _ => True
  | _ => False

/-- The calling task is gone after it: an error passed on by `?`, or a panic. -/
def Stops : Outcome ε α → Prop
  | .err _ => True
  | .panic _ => True
  | _ => False

@[simp] theorem isErr_ok (a : α) : ¬ (Outcome.ok a : Outcome ε α).IsErr := id
@[simp] theorem stops_ok (a : α) : ¬ (Outcome.ok a : Outcome ε α).Stops := id
@[simp] theorem stops_diverge : ¬ (Outcome.diverge : Outcome ε α).Stops := id

variable {ε' : Type u} {σ : Type x}

/-- `Result::unwrap` / `Result::expect`: an error becomes a panic. -/
def expect (message : String) : Outcome ε α → Outcome ε' α
  | .ok a => .ok a
  | .err _ => .panic message
  | .panic m => .panic m
  | .diverge => .diverge

/-- Carry a success on, with the state it left; anything else ends the computation. -/
def andThen (r : Outcome ε α × σ) (next : α → σ → Outcome ε β × σ) : Outcome ε β × σ :=
  match r with
  | (.ok a, s) => next a s
  | (.err e, s) => (.err e, s)
  | (.panic m, s) => (.panic m, s)
  | (.diverge, s) => (.diverge, s)

@[simp] theorem expect_ok (m : String) (a : α) :
    (Outcome.ok a : Outcome ε α).expect m = (.ok a : Outcome ε' α) := rfl

@[simp] theorem andThen_ok (a : α) (s : σ) (next : α → σ → Outcome ε β × σ) :
    andThen (.ok a, s) next = next a s := rfl

theorem expect_eq_ok {m : String} {o : Outcome ε α} {a : α}
    (ok : (o.expect m : Outcome ε' α) = .ok a) : o = .ok a := by
  cases o with
  | ok value =>
      cases ok
      rfl
  | _ => cases ok

/-- A chain of calls succeeds when each of them does. -/
theorem andThen_eq_ok {r : Outcome ε α × σ} {next : α → σ → Outcome ε β × σ} {b : β} {t : σ}
    (ok : andThen r next = (.ok b, t)) : ∃ a s, r = (.ok a, s) ∧ next a s = (.ok b, t) := by
  obtain ⟨o, s⟩ := r
  cases o with
  | ok a => exact ⟨a, s, rfl, ok⟩
  | _ => cases ok

theorem expect_ends {m : String} {o : Outcome ε α} (ends : o ≠ .diverge) :
    (o.expect m : Outcome ε' α) ≠ .diverge := by
  cases o with
  | diverge => exact absurd rfl ends
  | _ => simp [expect]

/-- A chain of calls ends when each of them does. -/
theorem andThen_ends {r : Outcome ε α × σ} {next : α → σ → Outcome ε β × σ}
    (ends : r.1 ≠ .diverge) (next_ends : ∀ a s, (next a s).1 ≠ .diverge) :
    (andThen r next).1 ≠ .diverge := by
  obtain ⟨o, s⟩ := r
  cases o with
  | ok a => exact next_ends a s
  | diverge => exact absurd rfl ends
  | _ => simp [andThen]

end Outcome

end Ursa.Theory
