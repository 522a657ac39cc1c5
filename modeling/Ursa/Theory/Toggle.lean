/-
# Theory.Toggle — a set that announces its changes

A set of keys changes by single insertions of keys that are not in it and single removals
of keys that are.  Each change is announced: `(key, true)` for an insertion, `(key, false)`
for a removal.  `Follows trace S` says that a trace of announcements can be trusted: key by
key it alternates, starting with an insertion, and the last word on a key is an insertion
exactly for the members of `S`.

How far the announcements have travelled does not matter: a trace that follows the set
alternates in each of its beginnings (`Alternates.of_append`).  Over all keys, there is one
insertion more than there are removals for each member (`Follows.card`).
-/
import Mathlib.Data.Finset.Card

namespace Ursa.Theory.Toggle

set_option autoImplicit false

universe u

/-! ## Alternation -/

/-- `b`, then its opposite, then `b` again, and so on. -/
def Alternates : Bool → List Bool → Prop
  | _, [] => True
  | b, x :: rest => x = b ∧ Alternates (!b) rest

theorem Alternates.of_append {b : Bool} {first second : List Bool}
    (alternates : Alternates b (first ++ second)) : Alternates b first := by
  induction first generalizing b with
  | nil => trivial
  | cons x first ih => exact ⟨alternates.1, ih alternates.2⟩

/-- What may come next is the opposite of what came last. -/
theorem alternates_snoc {b x : Bool} {l : List Bool} (alternates : Alternates b l)
    (next : x = (l.getLast?.map (!·)).getD b) : Alternates b (l ++ [x]) := by
  induction l generalizing b with
  | nil =>
      subst next
      exact ⟨rfl, trivial⟩
  | cons y l ih =>
      obtain ⟨rfl, rest⟩ := alternates
      refine ⟨rfl, ih rest ?_⟩
      rw [next, List.getLast?_cons]
      cases l.getLast? <;> rfl

/-- What came last is the opposite of what came before it. -/
theorem Alternates.last {b x : Bool} {l : List Bool} (alternates : Alternates b (l ++ [x])) :
    x = (l.getLast?.map (!·)).getD b := by
  induction l generalizing b with
  | nil => exact alternates.1
  | cons y l ih =>
      obtain ⟨rfl, rest⟩ := alternates
      rw [ih rest, List.getLast?_cons]
      cases l.getLast? <;> rfl

/-! ## Announcements -/

section Announcements

variable {α : Type u} [DecidableEq α]

/-- What a trace says about one key. -/
def marks (a : α) (trace : List (α × Bool)) : List Bool :=
  (trace.filter fun m => m.1 = a).map Prod.snd

@[simp] theorem marks_append (a : α) (first second : List (α × Bool)) :
    marks a (first ++ second) = marks a first ++ marks a second := by
  simp [marks]

@[simp] theorem marks_own (a : α) (b : Bool) : marks a [(a, b)] = [b] := by
  simp [marks]

theorem marks_other {a c : α} (b : Bool) (other : c ≠ a) : marks a [(c, b)] = [] := by
  simp [marks, other]

structure Follows (trace : List (α × Bool)) (S : Finset α) : Prop where
  alternates : ∀ a, Alternates true (marks a trace)
  last : ∀ a, (marks a trace).getLast? = some true ↔ a ∈ S

variable {trace : List (α × Bool)} {S : Finset α}

theorem follows_nil : Follows ([] : List (α × Bool)) ∅ where
  alternates _ := trivial
  last a := by simp [marks]

/-- An insertion that is announced. -/
theorem Follows.insert (follows : Follows trace S) {a : α} (absent : a ∉ S) :
    Follows (trace ++ [(a, true)]) (insert a S) where
  alternates c := by
    by_cases own : a = c
    · subst own
      rw [marks_append, marks_own]
      refine alternates_snoc (follows.alternates a) ?_
      have notIn : (marks a trace).getLast? ≠ some true := fun last => absent ((follows.last a).mp last)
      cases said : (marks a trace).getLast? with
      | none => rfl
      | some b =>
          cases b with
          | true => exact absurd said notIn
          | false => rfl
    · rw [marks_append, marks_other true own, List.append_nil]
      exact follows.alternates c
  last c := by
    by_cases own : a = c
    · subst own
      simp
    · rw [marks_append, marks_other true own, List.append_nil, follows.last c, Finset.mem_insert]
      exact ⟨.inr, fun member => member.resolve_left fun same => own same.symm⟩

/-- A removal that is announced. -/
theorem Follows.erase (follows : Follows trace S) {a : α} (present : a ∈ S) :
    Follows (trace ++ [(a, false)]) (S.erase a) where
  alternates c := by
    by_cases own : a = c
    · subst own
      rw [marks_append, marks_own]
      refine alternates_snoc (follows.alternates a) ?_
      rw [(follows.last a).mpr present]
      rfl
    · rw [marks_append, marks_other false own, List.append_nil]
      exact follows.alternates c
  last c := by
    by_cases own : a = c
    · subst own
      simp
    · rw [marks_append, marks_other false own, List.append_nil, follows.last c, Finset.mem_erase]
      exact ⟨fun member => ⟨fun same => own same.symm, member⟩, And.right⟩

/-- Without its last announcement, a trace follows the set as it was before it. -/
theorem Follows.of_snoc {a : α} {b : Bool} (follows : Follows (trace ++ [(a, b)]) S) :
    Follows trace (if b then S.erase a else Insert.insert a S) ∧ (a ∈ S ↔ b = true) := by
  have opposite : b = ((marks a trace).getLast?.map (!·)).getD true := by
    have alternates := follows.alternates a
    rw [marks_append, marks_own] at alternates
    exact alternates.last
  have own : a ∈ S ↔ b = true := by
    rw [← follows.last a, marks_append, marks_own]
    simp
  refine ⟨⟨fun c => ?_, fun c => ?_⟩, own⟩
  · have alternates := follows.alternates c
    rw [marks_append] at alternates
    exact alternates.of_append
  · by_cases same : a = c
    · subst same
      cases last : (marks a trace).getLast? with
      | none =>
          rw [last] at opposite
          subst opposite
          simp
      | some x =>
          rw [last] at opposite
          subst opposite
          cases x <;> simp
    · have others := follows.last c
      rw [marks_append, marks_other b same, List.append_nil] at others
      rw [others]
      cases b
      · simp [Ne.symm same]
      · simp [Ne.symm same]

/-- Insertions less removals are the members. -/
theorem Follows.card (follows : Follows trace S) :
    (S.card : Int) = trace.countP (·.2) - trace.countP (!·.2) := by
  induction trace using List.reverseRecOn generalizing S with
  | nil =>
      have empty : S = ∅ := Finset.eq_empty_of_forall_notMem fun a member => by
        simpa [marks] using (follows.last a).mpr member
      simp [empty]
  | append_singleton trace m ih =>
      obtain ⟨a, b⟩ := m
      obtain ⟨before, own⟩ := follows.of_snoc
      have counted := ih before
      simp only [List.countP_append]
      cases b with
      | true =>
          have one := Finset.card_erase_add_one (own.mpr rfl)
          simp at counted ⊢
          omega
      | false =>
          have absent : a ∉ S := fun member => Bool.noConfusion (own.mp member)
          have one := Finset.card_insert_of_notMem absent
          simp at counted ⊢
          omega

end Announcements

end Ursa.Theory.Toggle
