/-
# Theory.LiveSearch — a search one turn at a time, while the graph grows

`turn` is one turn of the search of `Theory.Worklist`; between two turns others may act on
the graph.  What they do may make more vertices visitable, but a visit that succeeds keeps
on succeeding with the same entry and links (`Extends`).

* What the search maintains survives both its own turns and the growth (`Inv.turn`,
  `Inv.extends`), so a search that ends has found what there is at its end.
* Where everything reachable can be visited from the start, the growth makes no difference
  to it (`turn_of_extends`): it does not fail (`turn_of_total`), and every turn leaves it
  with less to do (`work_turn`).
-/
import Ursa.Theory.Worklist

namespace Ursa.Theory.Worklist

set_option autoImplicit false

universe u v w

variable {V : Type u} {α : Type v} {ε : Type w} [DecidableEq V]

/-- A search between two turns. -/
structure Scan (V : Type u) (α : Type v) where
  current : List V
  visited : List V
  res : List α
  deriving DecidableEq

namespace Scan

def start (root : V) : Scan V α := { current := [root], visited := [], res := [] }

/-- One turn: the search goes on, or returns. -/
def turn (visit : V → Outcome ε (α × List V)) (k : Nat) (w : Scan V α) :
    Outcome ε (Scan V α ⊕ List α) :=
  match pick k w.current with
  | none => .ok (.inr w.res)
  | some (v, rest) =>
      if v ∈ w.visited then .ok (.inl { w with current := rest })
      else
        match visit v with
        | .ok (entry, links) => .ok (.inl ⟨links ∪ rest, v :: w.visited, w.res ++ [entry]⟩)
        | .err e => .err e
        | .panic message => .panic message
        | .diverge => .diverge

end Scan

variable {visit visit' : V → Outcome ε (α × List V)} {order : Nat → List V → Nat}

/-- The search is its turns. -/
theorem search_succ (fuel n : Nat) (w : Scan V α) :
    search visit order (fuel + 1) n w.current w.visited w.res =
      match w.turn visit (order n w.current) with
      | .ok (.inr res) => .ok res
      | .ok (.inl w') => search visit order fuel (n + 1) w'.current w'.visited w'.res
      | .err e => .err e
      | .panic message => .panic message
      | .diverge => .diverge := by
  cases picked : pick (order n w.current) w.current with
  | none => simp [search, Scan.turn, picked]
  | some taken =>
      by_cases seen : taken.1 ∈ w.visited
      · simp [search, Scan.turn, picked, seen]
      · cases visits : visit taken.1 <;> simp [search, Scan.turn, picked, seen, visits]

/-! ## What a turn keeps -/

abbrev ScanInv (visit : V → Outcome ε (α × List V)) (root : V) (w : Scan V α) : Prop :=
  Inv visit root w.current w.visited w.res

/-- What a turn can do, to a search that goes on and to one that does not. -/
theorem turn_cases (visit : V → Outcome ε (α × List V)) (k : Nat) (w : Scan V α) :
    (w.current = [] ∧ w.turn visit k = .ok (.inr w.res)) ∨
    (∃ v rest, List.Perm (v :: rest) w.current ∧ v ∈ w.visited ∧
      w.turn visit k = .ok (.inl { w with current := rest })) ∨
    ∃ v rest, List.Perm (v :: rest) w.current ∧ v ∉ w.visited ∧
      ((∃ entry links, visit v = .ok (entry, links) ∧
        w.turn visit k = .ok (.inl ⟨links ∪ rest, v :: w.visited, w.res ++ [entry]⟩)) ∨
      ((∀ entry, visit v ≠ .ok entry) ∧ ∀ next, w.turn visit k ≠ .ok next)) := by
  cases picked : pick k w.current with
  | none =>
      exact .inl ⟨pick_eq_none_iff.mp picked, by simp [Scan.turn, picked]⟩
  | some taken =>
      obtain ⟨v, rest⟩ := taken
      have perm := perm_of_pick picked
      by_cases seen : v ∈ w.visited
      · exact .inr (.inl ⟨v, rest, perm, seen, by simp [Scan.turn, picked, seen]⟩)
      · refine .inr (.inr ⟨v, rest, perm, seen, ?_⟩)
        cases visits : visit v with
        | ok entry => exact .inl ⟨entry.1, entry.2, rfl, by simp [Scan.turn, picked, seen, visits]⟩
        | err e => exact .inr ⟨nofun, by simp [Scan.turn, picked, seen, visits]⟩
        | panic m => exact .inr ⟨nofun, by simp [Scan.turn, picked, seen, visits]⟩
        | diverge => exact .inr ⟨nofun, by simp [Scan.turn, picked, seen, visits]⟩

variable {root : V} {w w' : Scan V α} {k : Nat}

theorem Inv.turn (inv : ScanInv visit root w) (turned : w.turn visit k = .ok (.inl w')) :
    ScanInv visit root w' := by
  rcases turn_cases visit k w with ⟨-, ended⟩ | ⟨v, rest, perm, seen, skipped⟩ |
    ⟨v, rest, perm, fresh, ⟨entry, links, visits, advanced⟩ | ⟨-, fails⟩⟩
  · cases ended.symm.trans turned
  · cases skipped.symm.trans turned
    exact inv.skip perm seen
  · cases advanced.symm.trans turned
    exact inv.advance perm fresh visits
  · exact absurd turned (fails _)

/-- A search that returns has found everything. -/
theorem Inv.ends {res : List α} (inv : ScanInv visit root w)
    (turned : w.turn visit k = .ok (.inr res)) : ∃ seen, Found visit root seen res := by
  rcases turn_cases visit k w with ⟨empty, ended⟩ | ⟨v, rest, perm, seen, skipped⟩ |
    ⟨v, rest, perm, fresh, ⟨entry, links, visits, advanced⟩ | ⟨-, fails⟩⟩
  · cases ended.symm.trans turned
    rw [ScanInv, empty] at inv
    exact inv.found
  · cases skipped.symm.trans turned
  · cases advanced.symm.trans turned
  · exact absurd turned (fails _)

/-! ## What growth keeps -/

/-- Visits that succeed go on to succeed, with the same result. -/
def Extends (visit visit' : V → Outcome ε (α × List V)) : Prop :=
  ∀ v entry, visit v = .ok entry → visit' v = .ok entry

omit [DecidableEq V] in
theorem Extends.edge (ext : Extends visit visit') {a b : V} (edge : Edge (expand visit) a b) :
    Edge (expand visit') a b := by
  obtain ⟨links, expands, member⟩ := edge
  refine ⟨links, ?_, member⟩
  unfold expand at expands ⊢
  split at expands
  · rename_i entry visits
    rw [ext a entry visits]
    exact expands
  · cases expands

omit [DecidableEq V] in
theorem Inv.visits (inv : ScanInv visit root w) {v : V} (seen : v ∈ w.visited) :
    ∃ entry, visit v = .ok entry := by
  obtain ⟨i, bound, rfl⟩ := List.mem_iff_getElem.mp (List.mem_reverse.mpr seen)
  obtain ⟨links, visits⟩ := inv.entries.get bound (inv.entries.length_eq ▸ bound)
  exact ⟨_, visits⟩

omit [DecidableEq V] in
theorem Inv.extends (inv : ScanInv visit root w) (ext : Extends visit visit') :
    ScanInv visit' root w where
  reach v member := Relation.ReflTransGen.mono (fun _ _ => ext.edge) _ _ (inv.reach v member)
  closed a b seen edge := by
    obtain ⟨entry, visits⟩ := inv.visits seen
    have same : expand visit' a = expand visit a := by
      simp [expand, visits, ext a entry visits]
    obtain ⟨links, expands, member⟩ := edge
    exact inv.closed a b seen ⟨links, same.symm.trans expands, member⟩
  first := inv.first
  nodup := inv.nodup
  entries := inv.entries.imp fun v _ ⟨links, visits⟩ => ⟨links, ext v _ visits⟩

/-! ## Where everything can be visited from the start -/

/-- Everything reachable can be visited. -/
def Total (visit : V → Outcome ε (α × List V)) (root : V) : Prop :=
  ∀ v, Reach (expand visit) root v → ∃ entry, visit v = .ok entry

theorem turn_of_extends (inv : ScanInv visit root w) (total : Total visit root)
    (ext : Extends visit visit') : w.turn visit' k = w.turn visit k := by
  unfold Scan.turn
  split
  · rfl
  · rename_i v rest picked
    obtain ⟨entry, visits⟩ :=
      total v (inv.reach v (.inl ((perm_of_pick picked).subset List.mem_cons_self)))
    rw [visits, ext v entry visits]

theorem turn_of_total (inv : ScanInv visit root w) (total : Total visit root) :
    ∃ next, w.turn visit k = .ok next := by
  rcases turn_cases visit k w with ⟨-, ended⟩ | ⟨v, rest, -, -, skipped⟩ |
    ⟨v, rest, perm, -, ⟨entry, links, -, advanced⟩ | ⟨stuck, -⟩⟩
  · exact ⟨_, ended⟩
  · exact ⟨_, skipped⟩
  · exact ⟨_, advanced⟩
  · obtain ⟨entry, visits⟩ := total v (inv.reach v (.inl (perm.subset List.mem_cons_self)))
    exact absurd visits (stuck entry)

/-- What a search has still to do, in turns. -/
def work (visit : V → Outcome ε (α × List V)) (U : Finset V) (w : Scan V α) : Nat :=
  w.current.length + ∑ v ∈ U.filter (· ∉ w.visited), fanout visit v

theorem work_turn {U : Finset V} (finite : ∀ v entry, visit v = .ok entry → v ∈ U)
    (turned : w.turn visit k = .ok (.inl w')) : work visit U w' < work visit U w := by
  rcases turn_cases visit k w with ⟨-, ended⟩ | ⟨v, rest, perm, seen, skipped⟩ |
    ⟨v, rest, perm, fresh, ⟨entry, links, visits, advanced⟩ | ⟨-, fails⟩⟩
  · cases ended.symm.trans turned
  · cases skipped.symm.trans turned
    have length : rest.length + 1 = w.current.length := perm.length_eq
    simp only [work]
    omega
  · cases advanced.symm.trans turned
    have length : rest.length + 1 = w.current.length := perm.length_eq
    have less := remaining_advance rest (finite v _ visits) fresh visits
    simp only [work]
    omega
  · exact absurd turned (fails _)

end Ursa.Theory.Worklist
