/-
# Theory.Locks — readers-writer locks, waiting and deadlock

A task is seen here by what it holds and by the lock it asks for next (`Claimant`);
a system is a list of tasks, a task's name its position.  Nothing is assumed about
the order in which waiting tasks are served.

* `no_deadlock_of_order` — if every task only asks for locks above those it holds,
  in some numbering of the locks, then no tasks wait for each other in a circle.
* `Exclusive` — no two tasks hold one lock in conflicting modes; `Exclusive.grant`,
  `Exclusive.release` and `Exclusive.spawn` keep it.
-/
import Mathlib.Logic.Relation
import Mathlib.Data.List.Basic

namespace Ursa.Theory.Locks

set_option autoImplicit false

universe u

inductive Mode where
  | read
  | write
  deriving DecidableEq, Repr

/-- Only readers share. -/
def Mode.conflicts : Mode → Mode → Bool
  | .read, .read => false
  | _, _ => true

theorem Mode.conflicts_comm (m m' : Mode) : m.conflicts m' = m'.conflicts m := by
  cases m <;> cases m' <;> rfl

structure Claimant (L : Type u) where
  held : List (L × Mode)
  wants : Option (L × Mode)

variable {L : Type u}

/-! ## Waiting -/

/-- Task `i` asks for a lock that task `j` holds in a conflicting mode. -/
def WaitsFor (tasks : List (Claimant L)) (i j : Nat) : Prop :=
  i ≠ j ∧ ∃ a b, tasks[i]? = some a ∧ tasks[j]? = some b ∧
    ∃ lock m m', a.wants = some (lock, m) ∧ (lock, m') ∈ b.held ∧ m.conflicts m' = true

/-- A circle of tasks, each waiting for a lock that the next one holds. -/
def Deadlock (tasks : List (Claimant L)) : Prop :=
  ∃ i, Relation.TransGen (WaitsFor tasks) i i

/-- Every task asks for a lock above all those it holds. -/
def Ordered (rank : L → Nat) (tasks : List (Claimant L)) : Prop :=
  ∀ c ∈ tasks, ∀ want, c.wants = some want → ∀ h ∈ c.held, rank h.1 < rank want.1

/-- Along a chain of waiting tasks the locks asked for go up. -/
theorem rank_lt_of_waits {rank : L → Nat} {tasks : List (Claimant L)}
    (ordered : Ordered rank tasks) {i j : Nat} (waits : Relation.TransGen (WaitsFor tasks) i j)
    {a b : Claimant L} {want want' : L × Mode} (first : tasks[i]? = some a)
    (wanted : a.wants = some want) (last : tasks[j]? = some b) (wanted' : b.wants = some want') :
    rank want.1 < rank want'.1 := by
  -- One wait: what the first task asks for, the second one holds.
  have one : ∀ {k l : Nat}, WaitsFor tasks k l → ∀ {c d : Claimant L} {w w' : L × Mode},
      tasks[k]? = some c → c.wants = some w → tasks[l]? = some d → d.wants = some w' →
      rank w.1 < rank w'.1 := by
    rintro k l ⟨-, c', d', own, other, lock, m, m', asks, holds, -⟩ c d w w' here asked there next
    cases own.symm.trans here
    cases other.symm.trans there
    cases asks.symm.trans asked
    exact ordered _ (List.mem_of_getElem? other) w' next (lock, m') holds
  induction waits generalizing b want' with
  | single wait => exact one wait first wanted last wanted'
  | tail _ wait ih =>
      obtain ⟨-, c, d, own, -, lock, m, m', asks, -⟩ := id wait
      exact Nat.lt_trans (ih own asks) (one wait own asks last wanted')

/-- **Ordered acquisition never deadlocks.** -/
theorem no_deadlock_of_order (rank : L → Nat) {tasks : List (Claimant L)}
    (ordered : Ordered rank tasks) : ¬ Deadlock tasks := by
  rintro ⟨i, circle⟩
  obtain ⟨j, ⟨-, a, -, own, -, lock, m, -, asks, -⟩, -⟩ := Relation.TransGen.head'_iff.mp circle
  exact Nat.lt_irrefl _ (rank_lt_of_waits ordered circle own asks own asks)

/-- Two tasks that hold what the other one asks for. -/
theorem deadlock_of_pair {tasks : List (Claimant L)} {i j : Nat} (there : WaitsFor tasks i j)
    (back : WaitsFor tasks j i) : Deadlock tasks :=
  ⟨i, .tail (.single there) back⟩

/-! ## Granting -/

/-- No lock is held in conflicting modes. -/
def Compatible (a b : List (L × Mode)) : Prop :=
  ∀ lock m m', (lock, m) ∈ a → (lock, m') ∈ b → m.conflicts m' = false

theorem Compatible.symm {a b : List (L × Mode)} (compatible : Compatible a b) :
    Compatible b a := by
  intro lock m m' inB inA
  rw [Mode.conflicts_comm]
  exact compatible lock m' m inA inB

/-- `holdings` lists what each task holds. -/
def Exclusive (holdings : List (List (L × Mode))) : Prop :=
  ∀ (i j : Nat) (a b : List (L × Mode)), i ≠ j → holdings[i]? = some a →
    holdings[j]? = some b → Compatible a b

/-- The lock can be taken in this mode. -/
def free [DecidableEq L] (holdings : List (List (L × Mode))) (want : L × Mode) : Bool :=
  holdings.all fun held => held.all fun h => !(h.1 == want.1 && want.2.conflicts h.2)

theorem Exclusive.nil : Exclusive ([] : List (List (L × Mode))) := by
  intro i j a b _ impossible
  simp at impossible

/-- Replace what one task holds by something that goes with the others. -/
theorem Exclusive.set {holdings : List (List (L × Mode))} (exclusive : Exclusive holdings)
    {i : Nat} {held : List (L × Mode)}
    (goes : ∀ j b, j ≠ i → holdings[j]? = some b → Compatible held b) :
    Exclusive (holdings.set i held) := by
  intro k l a b ne first second
  rw [List.getElem?_set] at first second
  split at first
  · rename_i own
    split at first
    · cases first
      rw [if_neg (own ▸ ne)] at second
      exact goes l b (own ▸ ne.symm) second
    · cases first
  · split at second
    · rename_i own
      split at second
      · cases second
        exact (goes k a (own ▸ ne) first).symm
      · cases second
    · exact exclusive k l a b ne first second

/-- A new task holds nothing. -/
theorem Exclusive.spawn {holdings : List (List (L × Mode))} (exclusive : Exclusive holdings) :
    Exclusive (holdings ++ [[]]) := by
  intro i j a b ne first second
  rw [List.getElem?_append] at first second
  split at first
  · split at second
    · exact exclusive i j a b ne first second
    · intro lock m m' _ inB
      have : b = [] := by
        have := List.mem_of_getElem? second
        simpa using this
      simp [this] at inB
  · intro lock m m' inA _
    have : a = [] := by
      have := List.mem_of_getElem? first
      simpa using this
    simp [this] at inA

/-- A task that returns holds nothing. -/
theorem Exclusive.release {holdings : List (List (L × Mode))} (exclusive : Exclusive holdings)
    (i : Nat) : Exclusive (holdings.set i []) := by
  apply exclusive.set
  intro j b _ _ lock m m' impossible
  cases impossible

/-- A task takes a lock that is free. -/
theorem Exclusive.grant [DecidableEq L] {holdings : List (List (L × Mode))}
    (exclusive : Exclusive holdings) {i : Nat} {held : List (L × Mode)} {want : L × Mode}
    (own : holdings[i]? = some held) (granted : free holdings want = true) :
    Exclusive (holdings.set i (held ++ [want])) := by
  apply exclusive.set
  intro j b ne other lock m m' inA inB
  rcases List.mem_append.mp inA with old | new
  · exact exclusive i j held b (Ne.symm ne) own other lock m m' old inB
  · obtain rfl : (lock, m) = want := by simpa using new
    have notTaken := List.all_eq_true.mp
      (List.all_eq_true.mp granted b (List.mem_of_getElem? other)) (lock, m') inB
    simpa using notTaken

end Ursa.Theory.Locks
