/-
# Theory.LinkedChain — backward-linked chains in a content-addressed store

Objects `O` are kept under addresses `C`; an object may link to the address of
its predecessor (`prev`).  `Walk prev get head entries` says that following the
links from `head` visits exactly `entries`, newest first, and stops at an object
without a link.

The walk is a function of the store and its starting point (`Walk.unique`), so a
walk that stops cannot come back to an address it has visited
(`Walk.nodup`): no acyclicity has to be assumed of the store.  What collision
freedom is needed for is growth: a `put` at the address of an object cannot
overwrite a different object of the chain (`Walk.put`).  `CollisionFree` is stated
of a partial address function, since not every object can be stored.

`follow` walks a chain from afar, one request after the other, and `Walk.follow` says when it
gets to the end.
-/
import Mathlib.Data.List.Nodup
import Mathlib.Logic.Function.Basic

namespace Ursa.Theory.LinkedChain

set_option autoImplicit false

universe u v

variable {C : Type u} {O : Type v} (prev : O → Option C)

/-- Following `prev` from `head` in `get` visits `entries`, newest first, and ends. -/
def Walk (get : C → Option O) : Option C → List (C × O) → Prop
  | head, [] => head = none
  | head, e :: rest => head = some e.1 ∧ get e.1 = some e.2 ∧ Walk get (prev e.2) rest

variable {prev} {get get' : C → Option O} {head : Option C} {entries : List (C × O)}

@[simp] theorem walk_nil_iff : Walk prev get head [] ↔ head = none := Iff.rfl

theorem Walk.get_eq (walk : Walk prev get head entries) :
    ∀ e ∈ entries, get e.1 = some e.2 := by
  induction entries generalizing head with
  | nil => simp
  | cons e rest ih =>
      intro x member
      rcases List.mem_cons.mp member with rfl | member
      · exact walk.2.1
      · exact ih walk.2.2 x member

/-- A walk only reads the addresses it visits. -/
theorem Walk.congr (walk : Walk prev get head entries)
    (same : ∀ e ∈ entries, get' e.1 = some e.2) : Walk prev get' head entries := by
  induction entries generalizing head with
  | nil => exact walk
  | cons e rest ih =>
      exact ⟨walk.1, same e (by simp), ih walk.2.2 fun x member => same x (by simp [member])⟩

/-- The store and the starting point determine the walk. -/
theorem Walk.unique {other : List (C × O)} (walk : Walk prev get head entries)
    (walk' : Walk prev get head other) : entries = other := by
  induction entries generalizing head other with
  | nil =>
      cases other with
      | nil => rfl
      | cons e rest =>
          have := walk.symm.trans walk'.1
          simp at this
  | cons e rest ih =>
      cases other with
      | nil =>
          have := walk.1.symm.trans walk'
          simp at this
      | cons e' rest' =>
          have address : e.1 = e'.1 := Option.some.inj (walk.1.symm.trans walk'.1)
          have object : e.2 = e'.2 := by
            have := walk'.2.1
            rw [← address, walk.2.1] at this
            exact Option.some.inj this
          obtain rfl : e = e' := Prod.ext address object
          rw [ih walk.2.2 walk'.2.2]

/-- The tail of a walk after a visited entry is the walk from that entry's link. -/
theorem Walk.tail {before after : List (C × O)} {e : C × O}
    (walk : Walk prev get head (before ++ e :: after)) :
    Walk prev get (some e.1) (e :: after) := by
  induction before generalizing head with
  | nil => exact ⟨rfl, walk.2⟩
  | cons x rest ih => exact ih walk.2.2

/-- **A walk that ends visits no address twice.** -/
theorem Walk.nodup (walk : Walk prev get head entries) : (entries.map Prod.fst).Nodup := by
  induction entries generalizing head with
  | nil => simp
  | cons e rest ih =>
      rw [List.map_cons, List.nodup_cons]
      refine ⟨?_, ih walk.2.2⟩
      intro member
      obtain ⟨x, member, same⟩ := List.mem_map.mp member
      obtain ⟨before, after, split⟩ := List.mem_iff_append.mp member
      -- From the second visit the walk would have to be the whole walk again.
      have first : Walk prev get (some e.1) (e :: rest) := ⟨rfl, walk.2⟩
      have second : Walk prev get (some x.1) (x :: after) := by
        have inner := walk.2.2
        rw [split] at inner
        exact inner.tail
      rw [same] at second
      have lengths := congrArg List.length (first.unique second)
      have shorter := congrArg List.length split
      simp at lengths shorter
      omega

/-- Only the last entry of a walk has no link. -/
theorem Walk.prev_eq_none_iff {before after : List (C × O)} {e : C × O}
    (walk : Walk prev get head (before ++ e :: after)) : prev e.2 = none ↔ after = [] := by
  have rest := walk.tail.2.2
  cases after with
  | nil => simpa using rest
  | cons x after =>
      have : prev e.2 = some x.1 := rest.1
      simp [this]

section Put

variable [DecidableEq C]

/-- Two objects with the same address are the same object.  An object may have no
address at all: not everything can be stored. -/
def CollisionFree (address : O → Option C) : Prop :=
  ∀ o o' c, address o = some c → address o' = some c → o = o'

variable {address : O → Option C}

/-- What `get` holds at its own address, `get'` holds too. -/
def Keeps (address : O → Option C) (get get' : C → Option O) : Prop :=
  ∀ o c, address o = some c → get c = some o → get' c = some o

omit [DecidableEq C] in
theorem Keeps.refl : Keeps address get get := fun _ _ _ => id

omit [DecidableEq C] in
theorem Keeps.trans {get'' : C → Option O} (first : Keeps address get get')
    (second : Keeps address get' get'') : Keeps address get get'' :=
  fun o c own stored => second o c own (first o c own stored)

/-- Putting an object under its address replaces nothing that sits at its own. -/
theorem Keeps.put (collisionFree : CollisionFree address) {o : O} {c : C}
    (own : address o = some c) : Keeps address get (Function.update get c (some o)) := by
  intro o' c' own' stored
  by_cases same : c' = c
  · subst same
    rw [Function.update_self, collisionFree _ _ c' own' own]
  · rw [Function.update_of_ne same]
    exact stored

omit [DecidableEq C] in
theorem Walk.keep (walk : Walk prev get head entries)
    (addressed : ∀ e ∈ entries, address e.2 = some e.1) (keeps : Keeps address get get') :
    Walk prev get' head entries :=
  walk.congr fun e member => keeps e.2 e.1 (addressed e member) (walk.get_eq e member)

/-- Putting an object under its address leaves every walk whose entries sit at
their own addresses as it was. -/
theorem Walk.put (collisionFree : CollisionFree address)
    (walk : Walk prev get head entries) (addressed : ∀ e ∈ entries, address e.2 = some e.1)
    {o : O} {c : C} (own : address o = some c) :
    Walk prev (Function.update get c (some o)) head entries :=
  walk.keep addressed (.put collisionFree own)

/-- Putting an object that links to the head of a walk extends the walk by it. -/
theorem Walk.put_cons (collisionFree : CollisionFree address)
    (walk : Walk prev get head entries) (addressed : ∀ e ∈ entries, address e.2 = some e.1)
    {o : O} {c : C} (own : address o = some c) (links : prev o = head) :
    Walk prev (Function.update get c (some o)) (some c) ((c, o) :: entries) := by
  refine ⟨rfl, Function.update_self .., ?_⟩
  show Walk prev _ (prev o) entries
  rw [links]
  exact walk.put collisionFree addressed own

end Put

/-! ## Following a chain from afar -/

section Follow

/-- Ask for one object after the other, from `head` on; `n` counts the requests, and the answer
to a request may depend on its number. -/
def follow (prev : O → Option C) (fetch : Nat → C → Option O) :
    Nat → Nat → Option C → Option (List (C × O) × Nat)
  | _, n, none => some ([], n)
  | 0, _, some _ => none
  | fuel + 1, n, some c =>
      match fetch n c with
      | none => none
      | some o => (follow prev fetch fuel (n + 1) (prev o)).map fun r => ((c, o) :: r.1, r.2)

/-- Where every request for an object of the walk is answered with it, the walk is followed to
its end. -/
theorem Walk.follow {fuel : Nat} (walk : Walk prev get head entries)
    (fetch : Nat → C → Option O) (answers : ∀ n, ∀ e ∈ entries, fetch n e.1 = some e.2)
    (enough : entries.length ≤ fuel) (n : Nat) :
    follow prev fetch fuel n head = some (entries, n + entries.length) := by
  induction entries generalizing head fuel n with
  | nil =>
      obtain rfl : head = none := walk
      cases fuel <;> rfl
  | cons e rest ih =>
      obtain ⟨own, others⟩ := List.forall_mem_cons.mp fun e member => fun n => answers n e member
      cases fuel with
      | zero => simp at enough
      | succ fuel =>
          have later := ih walk.2.2 (fun n e member => others e member n)
            (Nat.le_of_succ_le_succ enough) (n + 1)
          rw [walk.1, LinkedChain.follow, own n]
          simp only [later, Option.map_some, List.length_cons]
          rw [Nat.add_assoc, Nat.add_comm 1]

end Follow

end Ursa.Theory.LinkedChain
