/-
# IndexProvider.Locks — the provider's locks under concurrent operations

A `Provider` keeps its head, its pending advertisements and its blockstore behind
three readers-writer locks.  Each operation takes the locks it needs one after the
other and holds them to its end, so what it does to the shared state becomes visible
when it returns.  Here every acquisition is a step of its own (`Action`), tasks on any
number of clones run in any interleaving, and waiting tasks are served in any order.

`add_chunk` takes the blockstore before the pending advertisements; `publish` takes the
pending advertisements and then, once it has found its own, the blockstore.  That pair
is the only way to a deadlock (`deadlock_iff`), and a run is free of deadlocks exactly
if no step completes it (`deadlock_free_iff`).
-/
import Ursa.Theory.Locks
import Ursa.IndexProvider.Chain

namespace Ursa.IndexProvider

set_option autoImplicit false

open Ursa.Theory (Outcome)
open Ursa.Theory.Run
open Ursa.Theory.Locks

variable {K : Type}

/-! ## Operations and the locks they take -/

inductive Lock where
  | head
  | tempAds
  | blockstore
  deriving DecidableEq, Repr

/-- An operation on a clone of the provider, with what the environment answers in it. -/
inductive Operation where
  | create (ad : Advertisement) (id : Nat)
  | addChunk (bytes : Bytes) (id : Nat) (fault : Option String)
  | publish (id : Nat) (faults : WriteFaults)
  | createAnnounceMsg (peerId : PeerId)
  /-- The `head` handler. -/
  | head
  /-- The `get_block` handler. -/
  | getBlock (cid : String)

section Model

variable (deps : Deps K) (p : Provider K)

/-- The locks an operation takes, in its order.  Some operations can end before the
first one: entries that do not decode, an address or a CID that does not parse. -/
def Operation.locks : Operation → List (Lock × Mode)
  | .create _ _ => [(.tempAds, .write)]
  | .addChunk bytes _ _ =>
      match deps.fromSlice bytes with
      | .error _ => []
      | .ok _ => [(.blockstore, .write), (.tempAds, .write)]
  | .publish _ _ => [(.head, .write), (.tempAds, .write), (.blockstore, .write)]
  | .createAnnounceMsg peerId =>
      match deps.multiaddrFromStr p.config.domain with
      | .error _ => []
      | .ok domain =>
          match deps.multiaddrFromStr (domain.toString ++ "/http/p2p/" ++ peerId.toBase58) with
          | .error _ => []
          | .ok _ => [(.head, .read)]
  | .head => [(.head, .read)]
  | .getBlock cid =>
      match deps.cidFromStr cid with
      | .error _ => []
      | .ok _ => [(.blockstore, .read)]

/-- What the operation does to the shared state. -/
def Operation.effect (s : Shared) : Operation → Shared
  | .create ad id => (IndexProvider.create ad id s).2
  | .addChunk bytes id fault => (IndexProvider.addChunk deps fault bytes id s).2
  | .publish id faults => (IndexProvider.publish deps p.clone faults id s).2
  | _ => s

structure Task where
  operation : Operation
  /-- How many of its locks it has taken. -/
  acquired : Nat
  returned : Bool

namespace Task

def held (t : Task) : List (Lock × Mode) :=
  if t.returned then [] else (t.operation.locks deps p).take t.acquired

/-- The lock the task asks for next.  A `publish` that holds the pending advertisements
asks for the blockstore only if its advertisement is among them. -/
def wants (s : Shared) (t : Task) : Option (Lock × Mode) :=
  if t.returned then none
  else
    match t.operation with
    | .publish id _ =>
        if t.acquired = 2 ∧ (s.tempAds id).isNone then none
        else (t.operation.locks deps p)[t.acquired]?
    | _ => (t.operation.locks deps p)[t.acquired]?

def claimant (s : Shared) (t : Task) : Claimant Lock where
  held := t.held deps p
  wants := t.wants deps p s

end Task

/-- One provider with the tasks that run on its clones. -/
structure Tasks where
  shared : Shared
  tasks : List Task

def Tasks.new (blockstore : Cid → Option Ipld) : Tasks :=
  { shared := Shared.new blockstore, tasks := [] }

inductive Action where
  | spawn (operation : Operation)
  /-- Task `i` gets the lock it asks for. -/
  | acquire (i : Nat)
  /-- Task `i` has all its locks, does its work, returns and releases them. -/
  | finish (i : Nat)

namespace Tasks

def holdings (s : Tasks) : List (List (Lock × Mode)) := s.tasks.map (Task.held deps p)

def claimants (s : Tasks) : List (Claimant Lock) := s.tasks.map (Task.claimant deps p s.shared)

def step (s : Tasks) : Action → Option Tasks
  | .spawn operation => some { s with tasks := s.tasks ++ [⟨operation, 0, false⟩] }
  | .acquire i =>
      match s.tasks[i]? with
      | none => none
      | some t =>
          match t.wants deps p s.shared with
          | none => none
          | some want =>
              if free (s.holdings deps p) want then
                some { s with tasks := s.tasks.set i { t with acquired := t.acquired + 1 } }
              else none
  | .finish i =>
      match s.tasks[i]? with
      | none => none
      | some t =>
          if t.returned || (t.wants deps p s.shared).isSome then none
          else some {
            shared := t.operation.effect deps p s.shared
            tasks := s.tasks.set i { t with returned := true } }

/-- Some tasks wait for each other in a circle. -/
def Deadlocked (s : Tasks) : Prop := Deadlock (s.claimants deps p)

end Tasks

/-! ## The pair that deadlocks -/

/-- A `publish` that holds the pending advertisements, found its own among them and
lacks the blockstore. -/
def Task.LacksBlockstore (s : Shared) (t : Task) : Prop :=
  t.returned = false ∧ t.acquired = 2 ∧
    ∃ id faults, t.operation = .publish id faults ∧ (s.tempAds id).isSome = true

/-- An `add_chunk` that holds the blockstore and lacks the pending advertisements. -/
def Task.LacksTempAds (t : Task) : Prop :=
  t.returned = false ∧ t.acquired = 1 ∧
    ∃ bytes id fault entries, t.operation = .addChunk bytes id fault ∧
      deps.fromSlice bytes = .ok entries

end Model

section Facts

variable {deps : Deps K} {p : Provider K} {s : Shared} {t : Task}

variable (deps p) in
theorem Task.LacksBlockstore.claims (lacks : t.LacksBlockstore s) :
    t.held deps p = [(.head, .write), (.tempAds, .write)] ∧
      t.wants deps p s = some (.blockstore, .write) := by
  obtain ⟨running, two, id, faults, operation, pending⟩ := lacks
  have present : ¬ (s.tempAds id).isNone = true := by simp [← Option.not_isSome, pending]
  simp [held, wants, running, two, operation, Operation.locks, present]

variable (p s) in
theorem Task.LacksTempAds.claims (lacks : t.LacksTempAds deps) :
    t.held deps p = [(.blockstore, .write)] ∧ t.wants deps p s = some (.tempAds, .write) := by
  obtain ⟨running, one, bytes, id, fault, entries, operation, decoded⟩ := lacks
  simp [held, wants, running, one, operation, Operation.locks, decoded]

theorem Task.wants_some {want : Lock × Mode} (wanted : t.wants deps p s = some want) :
    t.returned = false ∧ (t.operation.locks deps p)[t.acquired]? = some want ∧
      ∀ id faults, t.operation = .publish id faults → t.acquired = 2 →
        (s.tempAds id).isSome = true := by
  unfold wants at wanted
  split at wanted
  · cases wanted
  · rename_i running
    split at wanted
    · rename_i id faults operation
      split at wanted
      · cases wanted
      · rename_i asks
        refine ⟨by simpa using running, wanted, ?_⟩
        intro id' faults' same two
        cases operation.symm.trans same
        by_contra absent
        exact asks ⟨two, by simpa using absent⟩
    · rename_i other
      refine ⟨by simpa using running, wanted, ?_⟩
      intro id faults same
      exact absurd same (other id faults)

theorem Task.held_of_running (running : t.returned = false) :
    t.held deps p = (t.operation.locks deps p).take t.acquired := by
  simp [held, running]

/-- In a list that goes up, what comes after the first `n` is above all of them. -/
theorem lt_of_mem_take {rank : Lock → Nat} {locks : List (Lock × Mode)} {n : Nat}
    {want : Lock × Mode} (up : locks.Pairwise fun a b => rank a.1 < rank b.1)
    (next : locks[n]? = some want) : ∀ h ∈ locks.take n, rank h.1 < rank want.1 := by
  intro h earlier
  have later : want ∈ locks.drop n := by
    obtain ⟨bound, rfl⟩ := List.getElem?_eq_some_iff.mp next
    exact List.mem_drop_iff_getElem.mpr ⟨0, by simpa using bound, by simp⟩
  rw [← List.take_append_drop n locks] at up
  exact (List.pairwise_append.mp up).2.2 h earlier want later

/-- The order in which `add_chunk` and the first two steps of `publish` go. -/
def chunkRank : Lock → Nat
  | .blockstore => 0
  | .head => 1
  | .tempAds => 2

/-- The order in which `publish` goes. -/
def publishRank : Lock → Nat
  | .head => 0
  | .tempAds => 1
  | .blockstore => 2

variable (deps p) in
/-- Every operation but `publish` goes up in the order of `add_chunk`. -/
theorem Operation.locks_chunkRank (operation : Operation)
    (other : ∀ id faults, operation ≠ .publish id faults) :
    (operation.locks deps p).Pairwise fun a b => chunkRank a.1 < chunkRank b.1 := by
  cases operation with
  | publish id faults => exact absurd rfl (other id faults)
  | _ =>
      simp only [Operation.locks]
      repeat' split
      all_goals simp [chunkRank]

variable (deps p) in
/-- Every operation but `add_chunk` goes up in the order of `publish`. -/
theorem Operation.locks_publishRank (operation : Operation)
    (other : ∀ bytes id fault, operation ≠ .addChunk bytes id fault) :
    (operation.locks deps p).Pairwise fun a b => publishRank a.1 < publishRank b.1 := by
  cases operation with
  | addChunk bytes id fault => exact absurd rfl (other bytes id fault)
  | _ =>
      simp only [Operation.locks]
      repeat' split
      all_goals simp [publishRank]

theorem Task.lt_of_not_lacksBlockstore (not : ¬ t.LacksBlockstore s) {want : Lock × Mode}
    (wanted : t.wants deps p s = some want) :
    ∀ h ∈ t.held deps p, chunkRank h.1 < chunkRank want.1 := by
  obtain ⟨running, next, pending⟩ := wants_some wanted
  rw [held_of_running running]
  by_cases publishes : ∃ id faults, t.operation = .publish id faults
  · obtain ⟨id, faults, operation⟩ := publishes
    have notTwo : t.acquired ≠ 2 := by
      intro two
      exact not ⟨running, two, id, faults, operation, pending id faults operation two⟩
    -- Only the first two locks are left, and these go up in this order too.
    have firstTwo : [((.head, .write) : Lock × Mode), (.tempAds, .write)].Pairwise
        (fun a b => chunkRank a.1 < chunkRank b.1) := by simp [chunkRank]
    have bound : t.acquired < 2 := by
      have := (List.getElem?_eq_some_iff.mp next).1
      simp only [operation, Operation.locks, List.length_cons, List.length_nil] at this
      omega
    have split : t.operation.locks deps p =
        [(.head, .write), (.tempAds, .write)] ++ [(.blockstore, .write)] := by
      rw [operation]
      rfl
    rw [split, List.getElem?_append_left (by simpa using bound)] at next
    rw [split, List.take_append_of_le_length (by simpa using Nat.le_of_lt bound)]
    exact lt_of_mem_take firstTwo next
  · apply lt_of_mem_take (Operation.locks_chunkRank deps p t.operation ?_) next
    intro id faults same
    exact publishes ⟨id, faults, same⟩

theorem Task.lt_of_not_lacksTempAds (not : ¬ t.LacksTempAds deps) {want : Lock × Mode}
    (wanted : t.wants deps p s = some want) :
    ∀ h ∈ t.held deps p, publishRank h.1 < publishRank want.1 := by
  obtain ⟨running, next, -⟩ := wants_some wanted
  rw [held_of_running running]
  by_cases adds : ∃ bytes id fault, t.operation = .addChunk bytes id fault
  · obtain ⟨bytes, id, fault, operation⟩ := adds
    cases decoded : deps.fromSlice bytes with
    | error reason => simp [operation, Operation.locks, decoded] at next
    | ok entries =>
        -- It holds nothing: with one lock it would lack the other, with two it asks for none.
        have bound := (List.getElem?_eq_some_iff.mp next).1
        simp only [operation, Operation.locks, decoded, List.length_cons, List.length_nil] at bound
        have notOne : t.acquired ≠ 1 := by
          intro one
          exact not ⟨running, one, bytes, id, fault, entries, operation, decoded⟩
        have zero : t.acquired = 0 := by omega
        simp [zero]
  · apply lt_of_mem_take (Operation.locks_publishRank deps p t.operation ?_) next
    intro bytes id fault same
    exact adds ⟨bytes, id, fault, same⟩

/-- **Where a deadlock comes from**: a `publish` that lacks the blockstore and an
`add_chunk` that lacks the pending advertisements, each holding what the other lacks. -/
theorem deadlock_iff (s : Tasks) :
    s.Deadlocked deps p ↔
      (∃ t ∈ s.tasks, t.LacksBlockstore s.shared) ∧ ∃ t ∈ s.tasks, t.LacksTempAds deps := by
  constructor
  · intro deadlock
    constructor
    · by_contra none
      refine no_deadlock_of_order chunkRank ?_ deadlock
      intro c member want wanted
      obtain ⟨t, inTasks, rfl⟩ := List.mem_map.mp member
      exact Task.lt_of_not_lacksBlockstore (fun lacks => none ⟨t, inTasks, lacks⟩) wanted
    · by_contra none
      refine no_deadlock_of_order publishRank ?_ deadlock
      intro c member want wanted
      obtain ⟨t, inTasks, rfl⟩ := List.mem_map.mp member
      exact Task.lt_of_not_lacksTempAds (fun lacks => none ⟨t, inTasks, lacks⟩) wanted
  · rintro ⟨⟨t, inT, lacksBlockstore⟩, u, inU, lacksTempAds⟩
    obtain ⟨i, atI⟩ := List.getElem?_of_mem inT
    obtain ⟨j, atJ⟩ := List.getElem?_of_mem inU
    obtain ⟨heldT, wantsT⟩ := lacksBlockstore.claims deps p
    obtain ⟨heldU, wantsU⟩ := lacksTempAds.claims p s.shared
    have ne : i ≠ j := by
      rintro rfl
      cases atI.symm.trans atJ
      cases wantsT.symm.trans wantsU
    have claimT : (s.claimants deps p)[i]? = some (t.claimant deps p s.shared) := by
      simp [Tasks.claimants, atI]
    have claimU : (s.claimants deps p)[j]? = some (u.claimant deps p s.shared) := by
      simp [Tasks.claimants, atJ]
    apply deadlock_of_pair (i := i) (j := j)
    · exact ⟨ne, _, _, claimT, claimU, .blockstore, .write, .write, wantsT, by
        simp [Task.claimant, heldU], rfl⟩
    · exact ⟨ne.symm, _, _, claimU, claimT, .tempAds, .write, .write, wantsU, by
        simp [Task.claimant, heldT], rfl⟩

/-! ## Steps -/

theorem Tasks.step_cases {s s' : Tasks} {action : Action}
    (taken : s.step deps p action = some s') :
    (∃ operation, action = .spawn operation ∧
      s' = { s with tasks := s.tasks ++ [⟨operation, 0, false⟩] }) ∨
    (∃ i t want, action = .acquire i ∧ s.tasks[i]? = some t ∧
      t.wants deps p s.shared = some want ∧ free (s.holdings deps p) want = true ∧
      s' = { s with tasks := s.tasks.set i { t with acquired := t.acquired + 1 } }) ∨
    (∃ i t, action = .finish i ∧ s.tasks[i]? = some t ∧ t.returned = false ∧
      t.wants deps p s.shared = none ∧
      s' = {
        shared := t.operation.effect deps p s.shared
        tasks := s.tasks.set i { t with returned := true } }) := by
  cases action with
  | spawn operation => exact .inl ⟨operation, rfl, (Option.some.inj taken).symm⟩
  | acquire i =>
      simp only [step] at taken
      split at taken
      · cases taken
      · rename_i t found
        split at taken
        · cases taken
        · rename_i want wanted
          split at taken
          · rename_i granted
            exact .inr (.inl ⟨i, t, want, rfl, found, wanted, granted,
              (Option.some.inj taken).symm⟩)
          · cases taken
  | finish i =>
      simp only [step] at taken
      split at taken
      · cases taken
      · rename_i t found
        split at taken
        · cases taken
        · rename_i done
          simp only [Bool.or_eq_true, not_or, Bool.not_eq_true, Option.isSome_eq_false_iff,
            Option.isNone_iff_eq_none] at done
          exact .inr (.inr ⟨i, t, rfl, found, done.1, done.2, (Option.some.inj taken).symm⟩)

/-- Taking the next lock adds it to what the task holds. -/
theorem Task.held_acquire {want : Lock × Mode} (wanted : t.wants deps p s = some want) :
    held deps p { t with acquired := t.acquired + 1 } = t.held deps p ++ [want] := by
  obtain ⟨running, next, -⟩ := wants_some wanted
  simp only [held, running, Bool.false_eq_true, if_false, List.take_add_one, next,
    Option.toList_some]

/-- Locks are only granted when free, so no two tasks ever hold one in conflicting modes. -/
theorem exclusive_step {s s' : Tasks} {action : Action} (exclusive : Exclusive (s.holdings deps p))
    (taken : s.step deps p action = some s') : Exclusive (s'.holdings deps p) := by
  obtain ⟨operation, rfl, rfl⟩ | ⟨i, t, want, rfl, found, wanted, granted, rfl⟩ |
    ⟨i, t, rfl, found, running, done, rfl⟩ := Tasks.step_cases taken
  · have spawned := exclusive.spawn
    simpa [Tasks.holdings, Task.held] using spawned
  · have own : (s.holdings deps p)[i]? = some (t.held deps p) := by simp [Tasks.holdings, found]
    have grown := exclusive.grant own granted
    simpa only [Tasks.holdings, List.map_set, Task.held_acquire wanted] using grown
  · have released := exclusive.release i
    simpa [Tasks.holdings, List.map_set, Task.held] using released

/-- A `publish` lacks the blockstore after it took the pending advertisements. -/
theorem Task.lacksBlockstore_acquire {want : Lock × Mode} (wanted : t.wants deps p s = some want) :
    LacksBlockstore s { t with acquired := t.acquired + 1 } ↔
      want = (.tempAds, .write) ∧
        ∃ id faults, t.operation = .publish id faults ∧ (s.tempAds id).isSome = true := by
  obtain ⟨running, next, -⟩ := wants_some wanted
  constructor
  · rintro ⟨-, two, id, faults, operation, pending⟩
    have one : t.acquired = 1 := by simpa using two
    rw [operation, one] at next
    exact ⟨(Option.some.inj next).symm, id, faults, operation, pending⟩
  · rintro ⟨rfl, id, faults, operation, pending⟩
    have one : t.acquired = 1 := by
      rw [operation] at next
      obtain ⟨bound, at_⟩ := List.getElem?_eq_some_iff.mp next
      simp only [Operation.locks, List.length_cons, List.length_nil] at bound
      have : t.acquired = 0 ∨ t.acquired = 1 ∨ t.acquired = 2 := by omega
      rcases this with zero | one | two
      · simp [Operation.locks, zero] at next
      · exact one
      · simp [Operation.locks, two] at next
    exact ⟨running, by simp [one], id, faults, operation, pending⟩

/-- An `add_chunk` lacks the pending advertisements after it took the blockstore. -/
theorem Task.lacksTempAds_acquire {want : Lock × Mode} (wanted : t.wants deps p s = some want) :
    LacksTempAds deps { t with acquired := t.acquired + 1 } ↔
      want = (.blockstore, .write) ∧
        ∃ bytes id fault, t.operation = .addChunk bytes id fault := by
  obtain ⟨running, next, -⟩ := wants_some wanted
  constructor
  · rintro ⟨-, one, bytes, id, fault, entries, operation, decoded⟩
    have zero : t.acquired = 0 := by simpa using one
    have same : t.operation = .addChunk bytes id fault := operation
    simp only [same, zero, Operation.locks, decoded] at next
    exact ⟨(Option.some.inj next).symm, bytes, id, fault, same⟩
  · rintro ⟨rfl, bytes, id, fault, operation⟩
    cases decoded : deps.fromSlice bytes with
    | error reason => simp [operation, Operation.locks, decoded] at next
    | ok entries =>
        have zero : t.acquired = 0 := by
          have bound := (List.getElem?_eq_some_iff.mp next).1
          simp only [operation, Operation.locks, decoded, List.length_cons, List.length_nil] at bound
          have : t.acquired = 0 ∨ t.acquired = 1 := by omega
          rcases this with zero | one
          · exact zero
          · simp [operation, Operation.locks, decoded, one] at next
        exact ⟨running, by simp [zero], bytes, id, fault, entries, operation, decoded⟩

/-! ## Which steps lead to a deadlock -/

theorem mem_take_of_lt {locks : List (Lock × Mode)} {lock : Lock × Mode} {k n : Nat}
    (found : locks[k]? = some lock) (below : k < n) : lock ∈ locks.take n := by
  apply List.mem_of_getElem? (i := k)
  rw [List.getElem?_take_of_lt below]
  exact found

/-- A task that returns does not touch the pending advertisements unless it holds them. -/
theorem Task.tempAds_effect (running : t.returned = false) (done : t.wants deps p s = none) :
    (t.operation.effect deps p s).tempAds = s.tempAds ∨
      (Lock.tempAds, Mode.write) ∈ t.held deps p := by
  rw [held_of_running running]
  simp only [wants, running, Bool.false_eq_true, if_false] at done
  cases operation : t.operation with
  | create ad id =>
      right
      simp only [operation, Operation.locks, List.getElem?_eq_none_iff, List.length_cons,
        List.length_nil] at done
      exact mem_take_of_lt (k := 0) rfl (by omega)
  | addChunk bytes id fault =>
      cases decoded : deps.fromSlice bytes with
      | error reason =>
          left
          simp [Operation.effect, IndexProvider.addChunk, decoded]
      | ok entries =>
          right
          simp only [operation, Operation.locks, decoded, List.getElem?_eq_none_iff,
            List.length_cons, List.length_nil] at done
          simp only [Operation.locks, decoded]
          exact mem_take_of_lt (k := 1) rfl (by omega)
  | publish id faults =>
      right
      have two : 2 ≤ t.acquired := by
        simp only [operation, Operation.locks] at done
        split at done
        · omega
        · simp only [List.getElem?_eq_none_iff, List.length_cons, List.length_nil] at done
          omega
      exact mem_take_of_lt (k := 1) rfl (by omega)
  | _ =>
      left
      rfl

/-- While a `publish` lacks the blockstore, no other task that returns changes that. -/
theorem Task.LacksBlockstore.of_finish {s : Tasks} (exclusive : Exclusive (s.holdings deps p))
    {i j : Nat} {t u : Task} (found : s.tasks[i]? = some t) (running : t.returned = false)
    (done : t.wants deps p s.shared = none) (other : s.tasks[j]? = some u) (ne : j ≠ i)
    (lacks : u.LacksBlockstore (t.operation.effect deps p s.shared)) :
    u.LacksBlockstore s.shared := by
  have holds := (lacks.claims deps p).1
  have untouched : (t.operation.effect deps p s.shared).tempAds = s.shared.tempAds := by
    apply (tempAds_effect running done).resolve_right
    intro alsoHolds
    have clash := exclusive j i (u.held deps p) (t.held deps p) ne
      (by simp [Tasks.holdings, other]) (by simp [Tasks.holdings, found])
      .tempAds .write .write (by simp [holds]) alsoHolds
    cases clash
  obtain ⟨live, two, id, faults, operation, pending⟩ := lacks
  rw [untouched] at pending
  exact ⟨live, two, id, faults, operation, pending⟩

variable (deps p) in
/-- A `publish` of a pending advertisement takes the pending advertisements only while
no `add_chunk` lacks them, and an `add_chunk` takes the blockstore only while no such
`publish` lacks it. -/
def Orderly (s : Tasks) : Action → Prop
  | .acquire i =>
      ∀ t want, s.tasks[i]? = some t → t.wants deps p s.shared = some want →
        free (s.holdings deps p) want = true →
        (∀ id faults, t.operation = .publish id faults → want = (.tempAds, .write) →
          (s.shared.tempAds id).isSome = true → ∀ u ∈ s.tasks, ¬ u.LacksTempAds deps) ∧
        (∀ bytes id fault, t.operation = .addChunk bytes id fault → want = (.blockstore, .write) →
          ∀ u ∈ s.tasks, ¬ u.LacksBlockstore s.shared)
  | _ => True

/-- The tasks after one of them is replaced. -/
theorem mem_set_of_ne {tasks : List Task} {i : Nat} {t t' u : Task} (found : tasks[i]? = some t)
    (member : u ∈ tasks) (ne : u ≠ t) : u ∈ tasks.set i t' := by
  obtain ⟨j, other⟩ := List.getElem?_of_mem member
  have apart : i ≠ j := by
    rintro rfl
    exact ne (Option.some.inj (other.symm.trans found))
  apply List.mem_of_getElem? (i := j)
  rw [List.getElem?_set_ne apart]
  exact other

theorem mem_set_self {tasks : List Task} {i : Nat} {t : Task} (found : tasks[i]? = some t)
    (t' : Task) : t' ∈ tasks.set i t' :=
  List.mem_set (List.getElem?_eq_some_iff.mp found).1 t'

theorem no_deadlock_of_orderly {s s' : Tasks} {action : Action}
    (exclusive : Exclusive (s.holdings deps p)) (without : ¬ s.Deadlocked deps p)
    (orderly : Orderly deps p s action) (taken : s.step deps p action = some s') :
    ¬ s'.Deadlocked deps p := by
  rw [deadlock_iff] at without ⊢
  rintro ⟨⟨t', inT, lacksBlockstore⟩, u', inU, lacksTempAds⟩
  obtain ⟨operation, rfl, rfl⟩ | ⟨i, t, want, rfl, found, wanted, granted, rfl⟩ |
    ⟨i, t, rfl, found, running, done, rfl⟩ := Tasks.step_cases taken
  · -- A new task has no lock yet.
    rcases List.mem_append.mp inT with inT | new
    · rcases List.mem_append.mp inU with inU | new
      · exact without ⟨⟨t', inT, lacksBlockstore⟩, u', inU, lacksTempAds⟩
      · obtain rfl := List.mem_singleton.mp new
        cases lacksTempAds.2.1
    · obtain rfl := List.mem_singleton.mp new
      cases lacksBlockstore.2.1
  · obtain ⟨publishing, adding⟩ := orderly t want found wanted granted
    rcases List.mem_or_eq_of_mem_set inT with inT | rfl
    · rcases List.mem_or_eq_of_mem_set inU with inU | rfl
      · exact without ⟨⟨t', inT, lacksBlockstore⟩, u', inU, lacksTempAds⟩
      · obtain ⟨wantsIt, bytes, id, fault, operation⟩ :=
          (Task.lacksTempAds_acquire wanted).mp lacksTempAds
        exact adding bytes id fault operation wantsIt t' inT lacksBlockstore
    · obtain ⟨wantsIt, id, faults, operation, pending⟩ :=
        (Task.lacksBlockstore_acquire wanted).mp lacksBlockstore
      rcases List.mem_or_eq_of_mem_set inU with inU | rfl
      · exact publishing id faults operation wantsIt pending u' inU lacksTempAds
      · obtain ⟨wantsOther, -⟩ := (Task.lacksTempAds_acquire wanted).mp lacksTempAds
        cases wantsIt.symm.trans wantsOther
  · -- The task that returned is neither, and it left the pending advertisements alone.
    obtain ⟨j, other⟩ := List.getElem?_of_mem inT
    have ne : i ≠ j := by
      rintro rfl
      rw [List.getElem?_set_self (List.getElem?_eq_some_iff.mp found).1] at other
      cases other
      cases lacksBlockstore.1
    rw [List.getElem?_set_ne ne] at other
    have before := lacksBlockstore.of_finish exclusive found running done other ne.symm
    rcases List.mem_or_eq_of_mem_set inU with inU | rfl
    · exact without ⟨⟨t', List.mem_of_getElem? other, before⟩, u', inU, lacksTempAds⟩
    · cases lacksTempAds.1

theorem orderly_of_no_deadlock {s : Tasks} {action : Action}
    (without : ∀ s', s.step deps p action = some s' → ¬ s'.Deadlocked deps p) :
    Orderly deps p s action := by
  cases action with
  | spawn operation => trivial
  | finish i => trivial
  | acquire i =>
      intro t want found wanted granted
      have next := without { s with tasks := s.tasks.set i { t with acquired := t.acquired + 1 } }
        (by simp [Tasks.step, found, wanted, granted])
      rw [deadlock_iff] at next
      constructor
      · intro id faults operation wantsIt pending u member lacks
        have distinct : u ≠ t := by
          rintro rfl
          obtain ⟨-, -, bytes, id', fault, entries, other, -⟩ := lacks
          cases operation.symm.trans other
        exact next ⟨⟨_, mem_set_self found _,
            (Task.lacksBlockstore_acquire wanted).mpr ⟨wantsIt, id, faults, operation, pending⟩⟩,
          u, mem_set_of_ne found member distinct, lacks⟩
      · intro bytes id fault operation wantsIt u member lacks
        have distinct : u ≠ t := by
          rintro rfl
          obtain ⟨-, -, id', faults, other, -⟩ := lacks
          cases operation.symm.trans other
        exact next ⟨⟨u, mem_set_of_ne found member distinct, lacks⟩, _, mem_set_self found _,
          (Task.lacksTempAds_acquire wanted).mpr ⟨wantsIt, bytes, id, fault, operation⟩⟩

end Facts

/-- **Freedom from deadlock.**  No state of a run contains a circle of waiting tasks
exactly if every step of the run is orderly. -/
theorem deadlock_free_iff (deps : Deps K) (p : Provider K) (blockstore : Cid → Option Ipld)
    (actions : List Action) :
    Always (Tasks.step deps p) (fun s => ¬ s.Deadlocked deps p) (Tasks.new blockstore) actions ↔
      Meets (Tasks.step deps p) (Orderly deps p) (Tasks.new blockstore) actions := by
  have start : ¬ (Tasks.new blockstore).Deadlocked deps p := by
    rw [deadlock_iff]
    rintro ⟨⟨t, impossible, -⟩, -⟩
    cases impossible
  have assumed : Meets (Tasks.step deps p) (fun _ _ => True) (Tasks.new blockstore) actions :=
    meets_of_forall (fun _ _ _ => trivial) _
  refine always_iff_meets (I := fun s => Exclusive (s.holdings deps p)) ?_ ?_ .nil start assumed
  · intro s action s' exclusive _ taken
    exact exclusive_step exclusive taken
  · intro s action exclusive without _
    constructor
    · intro orderly s' taken
      exact no_deadlock_of_orderly exclusive without orderly taken
    · exact orderly_of_no_deadlock

/-- An advertisement is created; one task publishes it while another adds a chunk to it,
and each gets one of the two locks that both need. -/
def deadlockingActions : List Action :=
  [.spawn (.create sampleAd 7), .acquire 0, .finish 0,
    .spawn (.publish 7 .none), .acquire 1, .acquire 1,
    .spawn (.addChunk [0x81, 0x42, 0x12, 0x20] 7 none), .acquire 2]

theorem publish_and_addChunk_deadlock :
    ∃ s, exec (Tasks.step plainDeps sampleProvider) (Tasks.new fun _ => none)
        deadlockingActions = some s ∧
      s.Deadlocked plainDeps sampleProvider := by
  have tasks : (exec (Tasks.step plainDeps sampleProvider) (Tasks.new fun _ => none)
      deadlockingActions).map Tasks.tasks = some [⟨.create sampleAd 7, 1, true⟩,
        ⟨.publish 7 .none, 2, false⟩, ⟨.addChunk [0x81, 0x42, 0x12, 0x20] 7 none, 1, false⟩] := rfl
  have pending : (exec (Tasks.step plainDeps sampleProvider) (Tasks.new fun _ => none)
      deadlockingActions).map (fun s => (s.shared.tempAds 7).isSome) = some true := by decide +kernel
  have decoded : plainDeps.fromSlice [0x81, 0x42, 0x12, 0x20] = .ok [.bytes [0x12, 0x20]] := rfl
  obtain ⟨s, run, tasks⟩ := Option.map_eq_some_iff.mp tasks
  rw [run] at pending
  refine ⟨s, run, (deadlock_iff s).mpr ?_⟩
  rw [tasks]
  constructor
  · exact ⟨_, .tail _ (.head _), rfl, rfl, 7, .none, rfl, Option.some.inj pending⟩
  · exact ⟨_, .tail _ (.tail _ (.head _)), rfl, rfl, _, 7, none, _, rfl, decoded⟩

end Ursa.IndexProvider
