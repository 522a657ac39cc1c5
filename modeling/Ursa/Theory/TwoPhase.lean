/-
# Theory.TwoPhase — operations that hold their locks to the end are atomic

A `Script` is one operation: it takes locks, reads what they protect, writes to what it
has locked, and returns.  `Script.run` executes it alone.  In a `System` any number of
operations run at once, one access at a time, in any interleaving; a lock is granted when
nobody else holds it in a conflicting mode, and all locks of an operation are released
when it returns.

* `Disciplined` — an operation takes no lock twice and writes only under a write lock.
* `serializable` — every run of disciplined operations has done what the operations that
  have returned do one after the other, in the order in which they returned: with the same
  results, and with the same contents of every cell that nobody is writing to.

Operations may wait for each other for ever; nothing is said about those.
-/
import Ursa.Theory.Run
import Ursa.Theory.Locks
import Mathlib.Logic.Function.Basic

namespace Ursa.Theory.TwoPhase

set_option autoImplicit false

open Ursa.Theory.Run
open Ursa.Theory.Locks

universe u v w x

/-! ## Operations -/

/-- One operation over cells `V`, each behind a lock of its own. -/
inductive Script {L : Type u} (V : L → Type v) (R : Type w) where
  | ret (result : R)
  /-- Take a lock, and go on with what it protects. -/
  | acquire (lock : L) (mode : Mode) (next : V lock → Script V R)
  | write (lock : L) (value : V lock) (next : Script V R)

section

variable {L : Type u} [DecidableEq L] {V : L → Type v} {R : Type w} {O : Type x}

namespace Script

/-- The operation by itself. -/
def run : Script V R → (∀ l, V l) → R × (∀ l, V l)
  | .ret result, cells => (result, cells)
  | .acquire lock _ next, cells => (next (cells lock)).run cells
  | .write lock value next, cells => next.run (Function.update cells lock value)

/-- With these locks held, the operation takes no lock again and writes only to what it
holds for writing. -/
def Disciplined : Script V R → List (L × Mode) → Prop
  | .ret _, _ => True
  | .acquire lock mode next, held =>
      (∀ h ∈ held, h.1 ≠ lock) ∧ ∀ value, (next value).Disciplined (held ++ [(lock, mode)])
  | .write lock _ next, held => (lock, .write) ∈ held ∧ next.Disciplined held

end Script

/-! ## Many operations at once -/

structure Task (V : L → Type v) (R : Type w) (O : Type x) where
  operation : O
  held : List (L × Mode)
  /-- What is left to do; `none` when the operation has returned. -/
  rest : Option (Script V R)

structure System (V : L → Type v) (R : Type w) (O : Type x) where
  cells : ∀ l, V l
  tasks : List (Task V R O)
  /-- History: the operations that have returned with their results, oldest first. -/
  log : List (O × R)

inductive Action (O : Type x) where
  | spawn (operation : O)
  /-- The next access of task `i`. -/
  | advance (i : Nat)

variable (script : O → Script V R)

namespace System

def new (cells : ∀ l, V l) : System V R O := { cells, tasks := [], log := [] }

def holdings (s : System V R O) : List (List (L × Mode)) := s.tasks.map Task.held

def step (s : System V R O) : Action O → Option (System V R O)
  | .spawn operation => some { s with tasks := s.tasks ++ [⟨operation, [], script operation⟩] }
  | .advance i =>
      match s.tasks[i]? with
      | none => none
      | some t =>
          match t.rest with
          | none => none
          | some (.ret result) => some { s with
              tasks := s.tasks.set i { t with held := [], rest := none }
              log := s.log ++ [(t.operation, result)] }
          | some (.acquire lock mode next) =>
              if free s.holdings (lock, mode) then some { s with
                tasks := s.tasks.set i { t with
                  held := t.held ++ [(lock, mode)], rest := some (next (s.cells lock)) } }
              else none
          | some (.write lock value next) => some { s with
              cells := Function.update s.cells lock value
              tasks := s.tasks.set i { t with rest := some next } }

/-- Nobody holds the lock for writing. -/
def Settled (s : System V R O) (lock : L) : Prop := ∀ held ∈ s.holdings, (lock, .write) ∉ held

end System

/-- The operations of a log, run one after the other from `start`, return what the log
says and leave the cells as they are at the end. -/
inductive Replay (start : ∀ l, V l) : List (O × R) → (∀ l, V l) → Prop where
  | nil : Replay start [] start
  | snoc {log : List (O × R)} {before after : ∀ l, V l} {operation : O} {result : R}
      (earlier : Replay start log before)
      (returns : (script operation).run before = (result, after)) :
      Replay start (log ++ [(operation, result)]) after

/-! ## What a task has still to do -/

/-- `cells` where these locks are held for writing, and `others` elsewhere. -/
def overlay (held : List (L × Mode)) (cells others : ∀ l, V l) : ∀ l, V l :=
  fun l => if (l, .write) ∈ held then cells l else others l

theorem overlay_of_mem {held : List (L × Mode)} {cells others : ∀ l, V l} {l : L}
    (member : (l, .write) ∈ held) : overlay held cells others l = cells l := if_pos member

theorem overlay_of_not_mem {held : List (L × Mode)} {cells others : ∀ l, V l} {l : L}
    (absent : (l, .write) ∉ held) : overlay held cells others l = others l := if_neg absent

@[simp] theorem overlay_nil (cells others : ∀ l, V l) : overlay [] cells others = others := by
  funext l
  exact overlay_of_not_mem (by simp)

/-- Taking a lock whose cell is the same on both sides changes nothing. -/
theorem overlay_append {held : List (L × Mode)} {cells others : ∀ l, V l} {lock : L} {mode : Mode}
    (same : cells lock = others lock) :
    overlay (held ++ [(lock, mode)]) cells others = overlay held cells others := by
  funext l
  by_cases member : (l, .write) ∈ held
  · rw [overlay_of_mem member, overlay_of_mem (List.mem_append_left _ member)]
  · rw [overlay_of_not_mem member]
    by_cases own : (l, Mode.write) ∈ held ++ [(lock, mode)]
    · rw [overlay_of_mem own]
      obtain ⟨rfl, -⟩ : l = lock ∧ Mode.write = mode := by simpa [member] using own
      exact same
    · exact overlay_of_not_mem own

/-- Writing to a cell that is held for writing. -/
theorem overlay_update {held : List (L × Mode)} {cells others : ∀ l, V l} {lock : L}
    (member : (lock, .write) ∈ held) (value : V lock) :
    overlay held (Function.update cells lock value) others =
      Function.update (overlay held cells others) lock value := by
  funext l
  by_cases own : l = lock
  · subst own
    rw [overlay_of_mem member, Function.update_self, Function.update_self]
  · rw [Function.update_of_ne own, overlay, overlay, Function.update_of_ne own]

/-- Writing to a cell that is not held for writing does not show. -/
theorem overlay_update_of_not_mem {held : List (L × Mode)} {cells others : ∀ l, V l} {lock : L}
    (absent : (lock, .write) ∉ held) (value : V lock) :
    overlay held (Function.update cells lock value) others = overlay held cells others := by
  funext l
  by_cases own : l = lock
  · subst own
    rw [overlay_of_not_mem absent, overlay_of_not_mem absent]
  · rw [overlay, overlay, Function.update_of_ne own]

/-- A task that runs is disciplined, and does from here what the whole operation does by
itself wherever the cells it has locked are as in `serial`. -/
def Task.Follows (cells serial : ∀ l, V l) (t : Task V R O) : Prop :=
  ∀ rest, t.rest = some rest → rest.Disciplined t.held ∧
    ∀ x, (∀ h ∈ t.held, x h.1 = serial h.1) →
      (script t.operation).run x = rest.run (overlay t.held cells x)

/-- `serial` is what the operations that have returned do one after the other. -/
structure Inv (start : ∀ l, V l) (s : System V R O) (serial : ∀ l, V l) : Prop where
  replay : Replay script start s.log serial
  exclusive : Exclusive s.holdings
  settled : ∀ l, s.Settled l → s.cells l = serial l
  follows : ∀ t ∈ s.tasks, t.Follows script s.cells serial
  idle : ∀ t ∈ s.tasks, t.rest = none → t.held = []

section Tasks

omit [DecidableEq L]

variable {s : System V R O} {i : Nat} {t : Task V R O}

theorem holdings_of_task (found : s.tasks[i]? = some t) : s.holdings[i]? = some t.held := by
  simp [System.holdings, found]

/-- A task in place of another is the new one, or stood elsewhere in the list. -/
theorem task_of_set {t' u : Task V R O} (member : u ∈ s.tasks.set i t') :
    u = t' ∨ ∃ j, j ≠ i ∧ s.tasks[j]? = some u := by
  obtain ⟨j, found⟩ := List.getElem?_of_mem member
  by_cases own : i = j
  · subst own
    rw [List.getElem?_set_self'] at found
    obtain ⟨-, -, rfl⟩ := Option.map_eq_some_iff.mp found
    exact .inl rfl
  · rw [List.getElem?_set_ne own] at found
    exact .inr ⟨j, Ne.symm own, found⟩

/-- What no task holds for writing after one was replaced, none held before, as long as the
new one keeps what the old one holds. -/
theorem settled_of_set {cells : ∀ l, V l} {log : List (O × R)} {t' : Task V R O} {lock : L}
    (found : s.tasks[i]? = some t)
    (after : System.Settled { cells, tasks := s.tasks.set i t', log } lock)
    (keeps : (lock, .write) ∈ t.held → (lock, .write) ∈ t'.held) : s.Settled lock := by
  intro held listed
  obtain ⟨u, member, rfl⟩ := List.mem_map.mp listed
  obtain ⟨j, there⟩ := List.getElem?_of_mem member
  by_cases same : i = j
  · subst same
    obtain rfl := Option.some.inj (found.symm.trans there)
    have bound := (List.getElem?_eq_some_iff.mp found).1
    have unwritten := after t'.held (List.mem_map_of_mem (List.mem_set bound t'))
    exact fun writes => unwritten (keeps writes)
  · apply after
    apply List.mem_map_of_mem
    apply List.mem_of_getElem? (i := j)
    rw [List.getElem?_set_ne same]
    exact there

/-- What a task holds for writing after the step is not settled. -/
theorem not_mem_of_settled {cells : ∀ l, V l} {log : List (O × R)} {t' : Task V R O} {lock : L}
    (found : s.tasks[i]? = some t)
    (after : System.Settled { cells, tasks := s.tasks.set i t', log } lock) :
    (lock, .write) ∉ t'.held :=
  after t'.held (List.mem_map_of_mem (List.mem_set (List.getElem?_eq_some_iff.mp found).1 t'))

/-- A write lock is held by one task only. -/
theorem not_held_elsewhere (exclusive : Exclusive s.holdings) (found : s.tasks[i]? = some t)
    {j : Nat} {u : Task V R O} (ne : j ≠ i) (other : s.tasks[j]? = some u) {lock : L}
    (writes : (lock, .write) ∈ t.held) : ∀ h ∈ u.held, h.1 ≠ lock := by
  rintro ⟨l, mode⟩ member rfl
  have clash := exclusive i j t.held u.held ne.symm (holdings_of_task found)
    (holdings_of_task other) l .write mode writes member
  cases mode <;> cases clash

end Tasks

section Steps

variable {script} {start serial : ∀ l, V l} {s : System V R O} {i : Nat} {t : Task V R O}

/-- A lock that can be taken is not held for writing. -/
theorem settled_of_free {lock : L} {mode : Mode} (granted : free s.holdings (lock, mode) = true) :
    s.Settled lock := by
  intro held listed writes
  have notTaken := List.all_eq_true.mp (List.all_eq_true.mp granted held listed) _ writes
  cases mode <;> simp [Mode.conflicts] at notTaken

theorem Inv.spawn (inv : Inv script start s serial) {operation : O}
    (disciplined : (script operation).Disciplined []) :
    Inv script start
      { s with tasks := s.tasks ++ [⟨operation, [], some (script operation)⟩] } serial where
  replay := inv.replay
  exclusive := by simpa [System.holdings] using inv.exclusive.spawn
  settled l settled := inv.settled l fun held listed => settled held (by
    simp only [System.holdings, List.map_append]
    exact List.mem_append_left _ listed)
  follows u member := by
    rcases List.mem_append.mp member with member | new
    · exact inv.follows u member
    · obtain rfl := List.mem_singleton.mp new
      intro rest left
      obtain rfl := Option.some.inj left
      refine ⟨disciplined, ?_⟩
      intro x _
      rw [overlay_nil]
  idle u member returned := by
    rcases List.mem_append.mp member with member | new
    · exact inv.idle u member returned
    · obtain rfl := List.mem_singleton.mp new
      rfl

theorem Inv.acquire (inv : Inv script start s serial) (found : s.tasks[i]? = some t) {lock : L}
    {mode : Mode} {next : V lock → Script V R} (left : t.rest = some (.acquire lock mode next))
    (granted : free s.holdings (lock, mode) = true) :
    Inv script start { s with
      tasks := s.tasks.set i { t with
        held := t.held ++ [(lock, mode)], rest := some (next (s.cells lock)) } } serial where
  replay := inv.replay
  exclusive := by
    have grown := inv.exclusive.grant (holdings_of_task found) granted
    simpa only [System.holdings, List.map_set] using grown
  settled l settled := inv.settled l (settled_of_set found settled (List.mem_append_left _))
  follows u member := by
    rcases task_of_set member with rfl | ⟨j, -, other⟩
    · obtain ⟨⟨-, disciplined⟩, same⟩ := inv.follows t (List.mem_of_getElem? found) _ left
      have unwritten := settled_of_free granted
      have current := inv.settled lock unwritten
      intro rest now
      obtain rfl := Option.some.inj now
      refine ⟨disciplined _, ?_⟩
      intro x agrees
      have own : x lock = serial lock := agrees (lock, mode) (by simp)
      have before := same x fun h member => agrees h (List.mem_append_left _ member)
      have notMine := unwritten t.held (List.mem_of_getElem? (holdings_of_task found))
      rw [Script.run, overlay_of_not_mem notMine, own, ← current] at before
      rw [overlay_append (current.trans own.symm)]
      exact before
    · exact inv.follows u (List.mem_of_getElem? other)
  idle u member returned := by
    rcases task_of_set member with rfl | ⟨j, -, other⟩
    · cases returned
    · exact inv.idle u (List.mem_of_getElem? other) returned

theorem Inv.write (inv : Inv script start s serial) (found : s.tasks[i]? = some t) {lock : L}
    {value : V lock} {next : Script V R} (left : t.rest = some (.write lock value next)) :
    Inv script start { s with
      cells := Function.update s.cells lock value
      tasks := s.tasks.set i { t with rest := some next } } serial := by
  obtain ⟨⟨writes, disciplined⟩, same⟩ := inv.follows t (List.mem_of_getElem? found) _ left
  refine ⟨inv.replay, ?_, ?_, ?_, ?_⟩
  · have alone : ∀ j b, j ≠ i → s.holdings[j]? = some b → Compatible t.held b :=
      fun j b ne other => inv.exclusive i j _ _ ne.symm (holdings_of_task found) other
    have unchanged := inv.exclusive.set alone
    simpa only [System.holdings, List.map_set] using unchanged
  · intro l settled
    have ne : l ≠ lock := by
      rintro rfl
      exact not_mem_of_settled found settled writes
    have unchanged : Function.update s.cells lock value l = s.cells l :=
      Function.update_of_ne ne ..
    exact unchanged.trans (inv.settled l (settled_of_set found settled id))
  · intro u member rest now
    rcases task_of_set member with rfl | ⟨j, ne, other⟩
    · obtain rfl := Option.some.inj now
      refine ⟨disciplined, ?_⟩
      intro x agrees
      rw [same x agrees, Script.run, overlay_update writes]
    · obtain ⟨disciplined, same⟩ := inv.follows u (List.mem_of_getElem? other) rest now
      refine ⟨disciplined, ?_⟩
      intro x agrees
      have elsewhere := not_held_elsewhere inv.exclusive found ne other writes
      rw [overlay_update_of_not_mem fun mine => elsewhere _ mine rfl]
      exact same x agrees
  · intro u member returned
    rcases task_of_set member with rfl | ⟨j, -, other⟩
    · cases returned
    · exact inv.idle u (List.mem_of_getElem? other) returned

/-- A task that returns is the next one in the serial order. -/
theorem Inv.ret (inv : Inv script start s serial) (found : s.tasks[i]? = some t) {result : R}
    (left : t.rest = some (.ret result)) :
    Inv script start { s with
      tasks := s.tasks.set i { t with held := [], rest := none }
      log := s.log ++ [(t.operation, result)] } (overlay t.held s.cells serial) := by
  obtain ⟨-, same⟩ := inv.follows t (List.mem_of_getElem? found) _ left
  refine ⟨?_, ?_, ?_, ?_, ?_⟩
  · refine .snoc inv.replay ?_
    rw [same serial fun _ _ => rfl, Script.run]
  · have released := inv.exclusive.release i
    simpa only [System.holdings, List.map_set] using released
  · intro l settled
    by_cases mine : (l, .write) ∈ t.held
    · exact (overlay_of_mem mine).symm
    · rw [overlay_of_not_mem mine]
      exact inv.settled l (settled_of_set found settled fun writes => absurd writes mine)
  · intro u member rest now
    rcases task_of_set member with rfl | ⟨j, ne, other⟩
    · cases now
    · obtain ⟨disciplined, follows⟩ := inv.follows u (List.mem_of_getElem? other) rest now
      refine ⟨disciplined, ?_⟩
      intro x agrees
      apply follows
      intro h locked
      -- what the other one has locked, this one did not write
      have notMine : (h.1, .write) ∉ t.held := fun mine =>
        not_held_elsewhere inv.exclusive found ne other mine h locked rfl
      rw [agrees h locked, overlay_of_not_mem notMine]
  · intro u member returned
    rcases task_of_set member with rfl | ⟨j, -, other⟩
    · rfl
    · exact inv.idle u (List.mem_of_getElem? other) returned

/-- One access keeps the invariant; only a return moves the serial state on. -/
theorem Inv.step (disciplined : ∀ operation, (script operation).Disciplined [])
    (inv : Inv script start s serial) {action : Action O} {s' : System V R O}
    (taken : s.step script action = some s') : ∃ serial', Inv script start s' serial' := by
  cases action with
  | spawn operation =>
      cases taken
      exact ⟨serial, inv.spawn (disciplined operation)⟩
  | advance i =>
      simp only [System.step] at taken
      split at taken
      · cases taken
      · rename_i t found
        split at taken
        · cases taken
        · rename_i result left
          cases taken
          exact ⟨_, inv.ret found left⟩
        · rename_i lock mode next left
          split at taken
          · rename_i granted
            cases taken
            exact ⟨serial, inv.acquire found left granted⟩
          · cases taken
        · rename_i lock value next left
          cases taken
          exact ⟨serial, inv.write found left⟩

end Steps

theorem Inv.new (start : ∀ l, V l) : Inv script start (System.new start) start where
  replay := .nil
  exclusive := .nil
  settled _ _ := rfl
  follows t member := by cases member
  idle t member := by cases member

/-- **Strict two-phase locking.**  What a run of disciplined operations has done is what
those that have returned do one after the other, in the order in which they returned: in
every cell that nobody holds for writing, and in all of them once everyone has returned. -/
theorem serializable (disciplined : ∀ operation, (script operation).Disciplined [])
    (start : ∀ l, V l) (actions : List (Action O)) (s : System V R O)
    (run : exec (System.step script) (System.new start) actions = some s) :
    ∃ serial, Replay script start s.log serial ∧ (∀ l, s.Settled l → s.cells l = serial l) ∧
      ((∀ t ∈ s.tasks, t.rest = none) → s.cells = serial) := by
  have reached : ∃ serial, Inv script start s serial := by
    have anything : Meets (System.step script) (fun _ _ => True) (System.new start) actions :=
      meets_of_forall (fun _ _ _ => trivial) _
    refine exec_invariant (I := fun s => ∃ serial, Inv script start s serial) ?_
      ⟨start, .new script start⟩ anything run
    rintro s action s' ⟨serial, inv⟩ - taken
    exact inv.step disciplined taken
  obtain ⟨serial, inv⟩ := reached
  refine ⟨serial, inv.replay, inv.settled, ?_⟩
  intro returned
  funext l
  apply inv.settled
  intro held listed
  obtain ⟨t, member, rfl⟩ := List.mem_map.mp listed
  simp [inv.idle t member (returned t member)]

end

end Ursa.Theory.TwoPhase
