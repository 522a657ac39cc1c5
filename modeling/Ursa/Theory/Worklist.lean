/-
# Theory.Worklist — graph search over a worklist popped in any order

A graph is given by a fallible `visit`: visiting a vertex yields an entry and the
vertices it links to, or fails.  `search` keeps a set `current` of vertices still
to be visited, takes one of them out (which one is the caller's `order`, an
arbitrary function of the step number and of the set), visits it unless it has
been visited before, and adds its links to the set.

* `search_ok` — a search that ends well visited exactly the reachable vertices,
  each once, the root first.
* `search_fails` — a search that fails met a reachable vertex whose visit fails; one that meets
  none, and ends, succeeds (`search_succeeds`).
* `search_terminates` — on a finite graph it ends, cycles or not: every pop
  removes a pending vertex, and only a first visit adds any, so pending vertices
  plus the links of unvisited vertices go down at every step.

None of the three depends on the order.  Which failure a search meets first does:
`exists_failing_order` leads it along a shortest path to a vertex that fails.  Two searches
of one order can be compared: what one finds, a search finds whose visits agree and succeed
more often (`search_mono`).

Two notions are for loops that keep no record of what they visited: on an acyclic graph
they end too (`wellFounded_of_acyclic`), and they meet a vertex once for every route of
links to it (`follow`).
-/
import Ursa.Theory.Outcome
import Mathlib.Logic.Relation
import Mathlib.Data.List.Nodup
import Mathlib.Data.List.Perm.Basic
import Mathlib.Algebra.BigOperators.Group.Finset.Basic
import Mathlib.Data.Fintype.Card
import Mathlib.Data.Set.Finite.Basic

namespace Ursa.Theory.Worklist

set_option autoImplicit false

universe u v w

/-! ## Reachability -/

section Reach

variable {V : Type u} (next : V → Option (List V))

/-- `a` can be expanded and links to `b`. -/
def Edge (a b : V) : Prop := ∃ links, next a = some links ∧ b ∈ links

/-- Reachability through vertices that can be expanded. -/
abbrev Reach : V → V → Prop := Relation.ReflTransGen (Edge next)

variable {next}

/-- A set that holds the root and the links of its members holds everything reachable. -/
theorem Reach.mem_of_closed {S : V → Prop} {root v : V} (start : S root)
    (closed : ∀ a b, S a → Edge next a b → S b) (reach : Reach next root v) : S v := by
  induction reach with
  | refl => exact start
  | tail _ edge ih => exact closed _ _ ih edge

/-- Reachability only depends on the expansion of reachable vertices. -/
theorem Reach.congr {next' : V → Option (List V)} {root : V}
    (same : ∀ v, Reach next root v → next' v = next v) (v : V) :
    Reach next' root v ↔ Reach next root v := by
  constructor
  · intro reach
    induction reach with
    | refl => exact .refl
    | tail _ edge ih =>
        obtain ⟨links, expands, member⟩ := edge
        exact ih.tail ⟨links, (same _ ih).symm.trans expands, member⟩
  · intro reach
    induction reach with
    | refl => exact .refl
    | tail before edge ih =>
        obtain ⟨links, expands, member⟩ := edge
        exact ih.tail ⟨links, (same _ before).trans expands, member⟩

/-- With finitely many vertices to expand and no cycle, following links ends. -/
theorem wellFounded_of_acyclic (U : Finset V) (finite : ∀ v links, next v = some links → v ∈ U)
    (acyclic : ∀ v, ¬ Relation.TransGen (Edge next) v v) :
    WellFounded fun b a => Edge next a b := by
  have below : WellFounded fun b a : U => Relation.TransGen (Edge next) a.1 b.1 := by
    have : IsTrans U (fun b a => Relation.TransGen (Edge next) a.1 b.1) :=
      ⟨fun _ _ _ first second => second.trans first⟩
    have : Std.Irrefl (fun b a : U => Relation.TransGen (Edge next) a.1 b.1) :=
      ⟨fun v => acyclic v.1⟩
    exact Finite.wellFounded_of_trans_of_irrefl _
  have outside : ∀ v, v ∉ U → Acc (fun b a => Edge next a b) v := by
    intro v absent
    constructor
    rintro b ⟨links, expands, -⟩
    exact absurd (finite v links expands) absent
  have inside : ∀ v : U, Acc (fun b a => Edge next a b) v.1 := by
    intro v
    induction v using below.induction with
    | _ v ih =>
        constructor
        intro b edge
        by_cases member : b ∈ U
        · exact ih ⟨b, member⟩ (.single edge)
        · exact outside b member
  constructor
  intro v
  by_cases member : v ∈ U
  · exact inside ⟨v, member⟩
  · exact outside v member

/-- A number that goes down along every link rules out cycles. -/
theorem acyclic_of_rank (rank : V → Nat) (down : ∀ a b, Edge next a b → rank b < rank a) (v : V) :
    ¬ Relation.TransGen (Edge next) v v := by
  have below : ∀ w, Relation.TransGen (Edge next) v w → rank w < rank v := by
    intro w path
    induction path with
    | single edge => exact down _ _ edge
    | tail _ edge ih => exact Nat.lt_trans (down _ _ edge) ih
  intro cycle
  exact Nat.lt_irrefl _ (below v cycle)

end Reach

/-! ## Routes -/

section Routes

variable {V : Type u} (next : V → Option (List V))

/-- Follow the links at these positions, one after the other. -/
def follow : V → List Nat → Option V
  | v, [] => some v
  | v, i :: route => ((next v).bind fun links => links[i]?).bind fun w => follow w route

/-- The first position chooses among several vertices. -/
def followAny (vs : List V) : List Nat → Option V
  | [] => none
  | i :: route => vs[i]?.bind fun v => follow next v route

variable {next}

theorem follow_cons {v : V} {links : List V} (expands : next v = some links) (i : Nat)
    (route : List Nat) : follow next v (i :: route) = followAny next links (i :: route) := by
  simp [follow, followAny, expands]

theorem follow_cons_of_none {v : V} (stuck : next v = none) (i : Nat) (route : List Nat) :
    follow next v (i :: route) = none := by
  simp [follow, stuck]

/-- One more vertex at the end of the list is one more choice. -/
theorem followAny_snoc {vs : List V} {v w : V} {route : List Nat} :
    followAny next (vs ++ [v]) route = some w ↔
      followAny next vs route = some w ∨
        ∃ rest, route = vs.length :: rest ∧ follow next v rest = some w := by
  cases route with
  | nil => simp [followAny]
  | cons i rest =>
      simp only [followAny, List.cons.injEq]
      rcases Nat.lt_trichotomy i vs.length with before | rfl | after
      · rw [List.getElem?_append_left before]
        constructor
        · exact .inl
        · rintro (old | ⟨rest', ⟨rfl, -⟩, -⟩)
          · exact old
          · omega
      · simp
      · have beyond : vs.length + 1 ≤ i := after
        rw [List.getElem?_eq_none (by simpa using beyond), List.getElem?_eq_none (by omega)]
        constructor
        · rintro ⟨⟩
        · rintro (⟨⟨⟩⟩ | ⟨rest', ⟨rfl, -⟩, -⟩)
          omega

/-- What can be reached is what some route leads to. -/
theorem reach_iff_follow {a v : V} : Reach next a v ↔ ∃ route, follow next a route = some v := by
  constructor
  · intro reach
    induction reach using Relation.ReflTransGen.head_induction_on with
    | refl => exact ⟨[], rfl⟩
    | head edge _ ih =>
        obtain ⟨links, expands, member⟩ := edge
        obtain ⟨route, leads⟩ := ih
        obtain ⟨i, bound, rfl⟩ := List.mem_iff_getElem.mp member
        refine ⟨i :: route, ?_⟩
        simp [follow, expands, bound, leads]
  · rintro ⟨route, leads⟩
    induction route generalizing a with
    | nil =>
        cases leads
        exact .refl
    | cons i route ih =>
        obtain ⟨b, link, rest⟩ := Option.bind_eq_some_iff.mp leads
        obtain ⟨links, expands, at_i⟩ := Option.bind_eq_some_iff.mp link
        exact .head ⟨links, expands, List.mem_of_getElem? at_i⟩ (ih rest)

end Routes

/-! ## Taking any element out of a set -/

section Pick

variable {α : Type u}

/-- Take out the element at position `k` (modulo the length). -/
def pick (k : Nat) (l : List α) : Option (α × List α) :=
  match l[k % l.length]? with
  | none => none
  | some a => some (a, l.eraseIdx (k % l.length))

theorem pick_eq_none_iff {k : Nat} {l : List α} : pick k l = none ↔ l = [] := by
  cases l with
  | nil => simp [pick]
  | cons a rest =>
      have bound : k % (a :: rest).length < (a :: rest).length := Nat.mod_lt _ (by simp)
      unfold pick
      rw [List.getElem?_eq_getElem bound]
      simp

theorem perm_of_pick {k : Nat} {l rest : List α} {a : α} (picked : pick k l = some (a, rest)) :
    List.Perm (a :: rest) l := by
  unfold pick at picked
  split at picked
  · cases picked
  · rename_i b found
    cases picked
    obtain ⟨bound, rfl⟩ := List.getElem?_eq_some_iff.mp found
    exact List.getElem_cons_eraseIdx_perm bound

end Pick

/-! ## The search -/

section Search

variable {V : Type u} {α : Type v} {ε : Type w} [DecidableEq V]
variable (visit : V → Outcome ε (α × List V))

/-- The links of a vertex whose visit succeeds. -/
def expand (v : V) : Option (List V) :=
  match visit v with
  | .ok entry => some entry.2
  | _ => none

variable (order : Nat → List V → Nat)

/-- The loop: `n` counts its turns, `current` is the set of pending vertices. -/
def search : Nat → Nat → List V → List V → List α → Outcome ε (List α)
  | 0, _, _, _, _ => .diverge
  | fuel + 1, n, current, visited, res =>
      match pick (order n current) current with
      | none => .ok res
      | some (v, rest) =>
          if v ∈ visited then search fuel (n + 1) rest visited res
          else
            match visit v with
            | .ok (entry, links) =>
                search fuel (n + 1) (links ∪ rest) (v :: visited) (res ++ [entry])
            | .err e => .err e
            | .panic message => .panic message
            | .diverge => .diverge

/-- What the loop maintains: everything pending or visited is reachable, the links
of what was visited are accounted for, and `res` lists the visits in order. -/
structure Inv (root : V) (current visited : List V) (res : List α) : Prop where
  reach : ∀ v, v ∈ current ∨ v ∈ visited → Reach (expand visit) root v
  closed : ∀ a b, a ∈ visited → Edge (expand visit) a b → b ∈ current ∨ b ∈ visited
  first : visited = [] ∧ current = [root] ∨ visited.getLast? = some root
  nodup : visited.Nodup
  entries : List.Forall₂ (fun v a => ∃ links, visit v = .ok (a, links)) visited.reverse res

variable {visit order}

omit [DecidableEq V] in
theorem inv_start (root : V) : Inv visit root [root] [] [] where
  reach v member := by
    obtain rfl : v = root := by simpa using member
    exact .refl
  closed a b member := by simp at member
  first := .inl ⟨rfl, rfl⟩
  nodup := List.nodup_nil
  entries := .nil

omit [DecidableEq V] in
/-- A pending vertex that was visited before is dropped. -/
theorem Inv.skip {root a : V} {current rest visited : List V} {res : List α}
    (inv : Inv visit root current visited res) (perm : List.Perm (a :: rest) current)
    (seen : a ∈ visited) : Inv visit root rest visited res where
  reach v member := inv.reach v (member.imp_left fun h => perm.subset (List.mem_cons_of_mem _ h))
  closed x y visitedX edge := by
    rcases inv.closed x y visitedX edge with pending | done
    · rcases List.mem_cons.mp (perm.symm.subset pending) with rfl | member
      · exact .inr seen
      · exact .inl member
    · exact .inr done
  first := by
    rcases inv.first with ⟨none, -⟩ | last
    · rw [none] at seen
      exact absurd seen List.not_mem_nil
    · exact .inr last
  nodup := inv.nodup
  entries := inv.entries

/-- A first visit moves a vertex from pending to visited and adds its links. -/
theorem Inv.advance {root a : V} {current rest visited links : List V} {res : List α} {entry : α}
    (inv : Inv visit root current visited res) (perm : List.Perm (a :: rest) current)
    (fresh : a ∉ visited) (visits : visit a = .ok (entry, links)) :
    Inv visit root (links ∪ rest) (a :: visited) (res ++ [entry]) where
  reach v member := by
    have reachA : Reach (expand visit) root a := inv.reach a (.inl (perm.subset (by simp)))
    have edgeA : expand visit a = some links := by simp [expand, visits]
    rcases member with pending | done
    · rcases List.mem_union_iff.mp pending with link | old
      · exact reachA.tail ⟨links, edgeA, link⟩
      · exact inv.reach v (.inl (perm.subset (List.mem_cons_of_mem _ old)))
    · rcases List.mem_cons.mp done with rfl | done
      · exact reachA
      · exact inv.reach v (.inr done)
  closed x y visitedX edge := by
    rcases List.mem_cons.mp visitedX with rfl | visitedX
    · obtain ⟨links', expands, member⟩ := edge
      have : links' = links := by
        have := expands.symm
        simpa [expand, visits] using this
      subst this
      exact .inl (List.mem_union_iff.mpr (.inl member))
    · rcases inv.closed x y visitedX edge with pending | done
      · rcases List.mem_cons.mp (perm.symm.subset pending) with rfl | member
        · exact .inr (by simp)
        · exact .inl (List.mem_union_iff.mpr (.inr member))
      · exact .inr (List.mem_cons_of_mem _ done)
  first := by
    right
    rcases inv.first with ⟨rfl, only⟩ | last
    · rw [only] at perm
      have : a = root := by
        have := perm.subset (List.mem_cons_self : a ∈ a :: rest)
        simpa using this
      simp [this]
    · rw [List.getLast?_cons, last]
      rfl
  nodup := List.nodup_cons.mpr ⟨fresh, inv.nodup⟩
  entries := by
    rw [List.reverse_cons]
    exact List.rel_append inv.entries (.cons ⟨links, visits⟩ .nil)

/-- What a finished search returns: the entries of `seen`, which lists the
reachable vertices, each once and the root first. -/
structure Found (visit : V → Outcome ε (α × List V)) (root : V) (seen : List V)
    (res : List α) : Prop where
  nodup : seen.Nodup
  mem_iff : ∀ v, v ∈ seen ↔ Reach (expand visit) root v
  head : seen.head? = some root
  entries : List.Forall₂ (fun v a => ∃ links, visit v = .ok (a, links)) seen res

omit [DecidableEq V] in
/-- Nothing is pending: everything reachable was visited. -/
theorem Inv.found {root : V} {visited : List V} {res : List α}
    (inv : Inv visit root [] visited res) : ∃ seen, Found visit root seen res := by
  have last : visited.getLast? = some root := by
    rcases inv.first with ⟨-, impossible⟩ | last
    · simp at impossible
    · exact last
  have rootSeen : root ∈ visited := List.mem_of_getLast? last
  refine ⟨visited.reverse, List.nodup_reverse.mpr inv.nodup, fun v => ?_, ?_, inv.entries⟩
  · rw [List.mem_reverse]
    refine ⟨fun seen => inv.reach v (.inr seen), ?_⟩
    intro reach
    exact Reach.mem_of_closed (S := (· ∈ visited)) rootSeen
      (fun a b seen edge => (inv.closed a b seen edge).resolve_left List.not_mem_nil) reach
  · rw [List.head?_reverse, last]

theorem search_ok {root : V} {fuel n : Nat} {current visited : List V} {res out : List α}
    (inv : Inv visit root current visited res)
    (ends : search visit order fuel n current visited res = .ok out) :
    ∃ seen, Found visit root seen out := by
  induction fuel generalizing n current visited res with
  | zero => simp [search] at ends
  | succ fuel ih =>
      simp only [search] at ends
      split at ends
      · rename_i empty
        obtain rfl := pick_eq_none_iff.mp empty
        cases ends
        exact inv.found
      · rename_i a rest picked
        have perm := perm_of_pick picked
        split at ends
        · rename_i seen
          exact ih (inv.skip perm seen) ends
        · rename_i fresh
          split at ends
          · rename_i entry links visits
            exact ih (inv.advance perm fresh visits) ends
          all_goals cases ends

/-- A search that fails failed at a reachable vertex, with that vertex's failure. -/
theorem search_fails {root : V} {fuel n : Nat} {current visited : List V} {res : List α}
    (inv : Inv visit root current visited res) :
    (∀ e, search visit order fuel n current visited res = .err e →
      ∃ v, Reach (expand visit) root v ∧ visit v = .err e) ∧
    (∀ m, search visit order fuel n current visited res = .panic m →
      ∃ v, Reach (expand visit) root v ∧ visit v = .panic m) := by
  induction fuel generalizing n current visited res with
  | zero => simp [search]
  | succ fuel ih =>
      simp only [search]
      split
      · simp
      · rename_i a rest picked
        have perm := perm_of_pick picked
        have reachA := inv.reach a (.inl (perm.subset (by simp)))
        split
        · rename_i seen
          exact ih (inv.skip perm seen)
        · rename_i fresh
          split
          · rename_i entry links visits
            exact ih (inv.advance perm fresh visits)
          · rename_i e visits
            refine ⟨?_, fun m impossible => by cases impossible⟩
            intro e' same
            cases same
            exact ⟨a, reachA, visits⟩
          · rename_i m visits
            refine ⟨fun e impossible => (by cases impossible), ?_⟩
            intro m' same
            cases same
            exact ⟨a, reachA, visits⟩
          · simp

/-- A search that ends has succeeded if every visit that it can make does. -/
theorem search_succeeds {root : V} {fuel n : Nat} {current visited : List V} {res : List α}
    (inv : Inv visit root current visited res)
    (visits : ∀ v, Reach (expand visit) root v → ∃ entry, visit v = .ok entry)
    (ends : search visit order fuel n current visited res ≠ .diverge) :
    ∃ out, search visit order fuel n current visited res = .ok out := by
  have fails : (∀ e, search visit order fuel n current visited res = .err e →
        ∃ v, Reach (expand visit) root v ∧ visit v = .err e) ∧
      (∀ m, search visit order fuel n current visited res = .panic m →
        ∃ v, Reach (expand visit) root v ∧ visit v = .panic m) := search_fails inv
  cases result : search visit order fuel n current visited res with
  | ok out => exact ⟨out, rfl⟩
  | err e =>
      obtain ⟨v, reach, failed⟩ := fails.1 e result
      obtain ⟨entry, visited⟩ := visits v reach
      cases failed.symm.trans visited
  | panic m =>
      obtain ⟨v, reach, failed⟩ := fails.2 m result
      obtain ⟨entry, visited⟩ := visits v reach
      cases failed.symm.trans visited
  | diverge => exact absurd result ends

/-! ## Termination -/

/-- How many links visiting `v` can add. -/
def fanout (visit : V → Outcome ε (α × List V)) (v : V) : Nat :=
  ((expand visit v).getD []).length

theorem length_union_le (l₁ l₂ : List V) : (l₁ ∪ l₂).length ≤ l₁.length + l₂.length := by
  induction l₁ with
  | nil => simp
  | cons a rest ih =>
      rw [List.cons_union]
      have grown : ((rest ∪ l₂).insert a).length ≤ (rest ∪ l₂).length + 1 := by
        rw [List.length_insert]
        split <;> omega
      simp only [List.length_cons]
      omega

/-- What is pending and what can still be added go down with a first visit. -/
theorem remaining_advance {U : Finset V} {a : V} (rest : List V) {visited links : List V} {entry : α}
    (inside : a ∈ U) (fresh : a ∉ visited) (visits : visit a = .ok (entry, links)) :
    (links ∪ rest).length + ∑ v ∈ U.filter (· ∉ a :: visited), fanout visit v <
      (rest.length + 1) + ∑ v ∈ U.filter (· ∉ visited), fanout visit v := by
  -- The visited vertex leaves the sum and takes its links with it.
  have inU : a ∈ U.filter (· ∉ visited) := Finset.mem_filter.mpr ⟨inside, fresh⟩
  have remaining : U.filter (· ∉ a :: visited) = (U.filter (· ∉ visited)).erase a := by
    ext x
    simp only [Finset.mem_filter, Finset.mem_erase, List.mem_cons, not_or]
    tauto
  have split := Finset.add_sum_erase _ (fanout visit) inU
  have own : fanout visit a = links.length := by simp [fanout, expand, visits]
  have added := length_union_le links rest
  rw [remaining]
  omega

/-- **Termination.**  With the vertices whose visit succeeds inside a finite set,
the search ends as soon as the fuel exceeds the pending vertices plus all the
links that unvisited vertices can still add. -/
theorem search_terminates (U : Finset V) (finite : ∀ v entry, visit v = .ok entry → v ∈ U)
    (total : ∀ v, visit v ≠ .diverge) {fuel n : Nat} {current visited : List V} {res : List α}
    (enough : current.length + ∑ v ∈ U.filter (· ∉ visited), fanout visit v < fuel) :
    search visit order fuel n current visited res ≠ .diverge := by
  induction fuel generalizing n current visited res with
  | zero => omega
  | succ fuel ih =>
      simp only [search]
      split
      · simp
      · rename_i a rest picked
        have length : rest.length + 1 = current.length := (perm_of_pick picked).length_eq
        split
        · exact ih (by omega)
        · rename_i fresh
          split
          · rename_i entry links visits
            apply ih
            have less := remaining_advance rest (finite a _ visits) fresh visits
            omega
          · simp
          · simp
          · rename_i visits
            exact absurd visits (total a)

/-- A search that has ended does not change with more turns. -/
theorem search_add {fuel n : Nat} {current visited : List V} {res : List α}
    (ended : search visit order fuel n current visited res ≠ .diverge) (more : Nat) :
    search visit order (fuel + more) n current visited res =
      search visit order fuel n current visited res := by
  induction fuel generalizing n current visited res with
  | zero => exact absurd rfl ended
  | succ fuel ih =>
      rw [Nat.add_right_comm]
      simp only [search] at ended ⊢
      split
      · rfl
      · rename_i a rest picked
        simp only [picked] at ended
        split
        · rename_i seen
          rw [if_pos seen] at ended
          exact ih ended
        · rename_i fresh
          rw [if_neg fresh] at ended
          split
          · rename_i entry links visits
            simp only [visits] at ended
            exact ih ended
          all_goals rfl

/-! ## Visits that succeed more often -/

omit [DecidableEq V] in
theorem Found.visit_ok {root v : V} {seen : List V} {res : List α} (found : Found visit root seen res)
    (member : v ∈ seen) : ∃ entry, visit v = .ok entry := by
  obtain ⟨-, -, -, entries⟩ := found
  induction entries with
  | nil => cases member
  | cons visits _ ih =>
      rcases List.mem_cons.mp member with rfl | later
      · obtain ⟨links, visits⟩ := visits
        exact ⟨_, visits⟩
      · exact ih later

variable {visit' : V → Outcome ε (α × List V)}

omit [DecidableEq V] in
/-- Visits that succeed more often reach more. -/
theorem Reach.of_agree (agree : ∀ v entry, visit v = .ok entry → visit' v = .ok entry) {a b : V}
    (reach : Reach (expand visit) a b) : Reach (expand visit') a b := by
  refine Relation.ReflTransGen.mono ?_ _ _ reach
  rintro v w ⟨refs, expands, member⟩
  refine ⟨refs, ?_, member⟩
  unfold expand at expands ⊢
  split at expands
  · rename_i visits
    rw [agree v _ visits]
    exact expands
  · cases expands

omit [DecidableEq V] in
/-- What one visit finds, another finds that agrees with it where it succeeds. -/
theorem Found.mono {root : V} {seen : List V} {res : List α} (found : Found visit root seen res)
    (agree : ∀ v entry, visit v = .ok entry → visit' v = .ok entry) :
    Found visit' root seen res where
  nodup := found.nodup
  head := found.head
  entries := found.entries.imp fun v _ ⟨links, visits⟩ => ⟨links, agree v _ visits⟩
  mem_iff v := by
    rw [found.mem_iff]
    refine (Reach.congr ?_ v).symm
    intro w reach
    obtain ⟨entry, visits⟩ := found.visit_ok ((found.mem_iff w).mpr reach)
    simp only [expand, visits, agree w entry visits]

/-- A search that succeeds does so with visits that succeed more often. -/
theorem search_mono (agree : ∀ v entry, visit v = .ok entry → visit' v = .ok entry) {fuel n : Nat}
    {current visited : List V} {res out : List α}
    (ends : search visit order fuel n current visited res = .ok out) :
    search visit' order fuel n current visited res = .ok out := by
  induction fuel generalizing n current visited res with
  | zero => simp [search] at ends
  | succ fuel ih =>
      simp only [search] at ends ⊢
      split at ends
      · exact ends
      · rename_i a rest picked
        split at ends
        · rename_i seen
          rw [if_pos seen]
          exact ih ends
        · rename_i fresh
          rw [if_neg fresh]
          split at ends
          · rename_i entry links visits
            rw [agree a _ visits]
            exact ih ends
          all_goals cases ends

/-! ## An order that meets a failure -/

/-- The order only matters from the present turn on. -/
theorem search_congr {order' : Nat → List V → Nat} {fuel n : Nat} {current visited : List V}
    {res : List α} (same : ∀ k, n ≤ k → order' k = order k) :
    search visit order' fuel n current visited res =
      search visit order fuel n current visited res := by
  induction fuel generalizing n current visited res with
  | zero => rfl
  | succ fuel ih =>
      have later : ∀ k, n + 1 ≤ k → order' k = order k := fun k after => same k (by omega)
      simp only [search, same n (Nat.le_refl n)]
      split
      · rfl
      · split
        · exact ih later
        · split
          · exact ih later
          all_goals rfl

theorem pick_idxOf {a : V} {l : List V} (member : a ∈ l) :
    ∃ rest, pick (l.idxOf a) l = some (a, rest) := by
  have bound : l.idxOf a < l.length := List.idxOf_lt_length_of_mem member
  refine ⟨l.eraseIdx (l.idxOf a), ?_⟩
  simp [pick, Nat.mod_eq_of_lt bound, bound]

/-- `v` is reached from `a` through this many links. -/
def ReachIn (next : V → Option (List V)) : Nat → V → V → Prop
  | 0, a, v => a = v
  | k + 1, a, v => ∃ b, Edge next a b ∧ ReachIn next k b v

omit [DecidableEq V] in
theorem exists_reachIn {next : V → Option (List V)} {a v : V} (reach : Reach next a v) :
    ∃ k, ReachIn next k a v := by
  induction reach using Relation.ReflTransGen.head_induction_on with
  | refl => exact ⟨0, rfl⟩
  | head edge _ ih =>
      obtain ⟨k, path⟩ := ih
      exact ⟨k + 1, _, edge, path⟩

/-- A search that comes to this vertex ends so. -/
def FailsWith (visit : V → Outcome ε (α × List V)) (bad : V) (out : Outcome ε (List α)) : Prop :=
  (∃ e, visit bad = .err e ∧ out = .err e) ∨ ∃ m, visit bad = .panic m ∧ out = .panic m

/-- Along a shortest path nothing has been visited before: what was visited is farther
from its end than what is pending. -/
theorem fails_along {bad : V} {out : Outcome ε (List α)} (fails : FailsWith visit bad out) {k : Nat} {a : V}
    (path : ReachIn (expand visit) k a bad)
    (shortest : ∀ j < k, ¬ ReachIn (expand visit) j a bad) {current visited : List V}
    (pending : a ∈ current) (far : ∀ v ∈ visited, ∀ j ≤ k, ¬ ReachIn (expand visit) j v bad)
    {fuel : Nat} (enough : k < fuel) (n : Nat) (res : List α) :
    ∃ order, search visit order fuel n current visited res = out := by
  have fresh : a ∉ visited := fun seen => far a seen k (Nat.le_refl k) path
  obtain ⟨rest, picked⟩ := pick_idxOf pending
  induction k generalizing a current visited fuel n res rest with
  | zero =>
      obtain rfl : a = bad := path
      obtain ⟨fuel, rfl⟩ : ∃ f, fuel = f + 1 := ⟨fuel - 1, by omega⟩
      refine ⟨fun _ l => l.idxOf a, ?_⟩
      rcases fails with ⟨e, visits, rfl⟩ | ⟨m, visits, rfl⟩
      · simp only [search, picked, if_neg fresh, visits]
      · simp only [search, picked, if_neg fresh, visits]
  | succ k ih =>
      obtain ⟨b, ⟨links, expands, member⟩, path⟩ := path
      obtain ⟨fuel, rfl⟩ : ∃ f, fuel = f + 1 := ⟨fuel - 1, by omega⟩
      obtain ⟨entry, visits⟩ : ∃ entry, visit a = .ok (entry, links) := by
        unfold expand at expands
        split at expands
        · rename_i entry visits
          cases expands
          exact ⟨entry.1, visits⟩
        · cases expands
      have shortest' : ∀ j < k, ¬ ReachIn (expand visit) j b bad := by
        intro j less shorter
        exact shortest (j + 1) (by omega) ⟨b, ⟨links, expands, member⟩, shorter⟩
      have far' : ∀ v ∈ a :: visited, ∀ j ≤ k, ¬ ReachIn (expand visit) j v bad := by
        intro v seen j less
        rcases List.mem_cons.mp seen with rfl | old
        · exact shortest j (by omega)
        · exact far v old j (by omega)
      have pending' : b ∈ links ∪ rest := List.mem_union_iff.mpr (.inl member)
      obtain ⟨rest', picked'⟩ := pick_idxOf pending'
      have fresh' : b ∉ a :: visited := fun seen => far' b seen k (Nat.le_refl k) path
      have enough' : k < fuel := by omega
      obtain ⟨order, ends⟩ := ih path shortest' pending' far' enough' (n + 1) (res ++ [entry])
        fresh' rest' picked'
      refine ⟨fun t l => if t = n then l.idxOf a else order t l, ?_⟩
      have later : ∀ t, n + 1 ≤ t → (fun l => if t = n then l.idxOf a else order t l) = order t := by
        intro t after
        funext l
        rw [if_neg (by omega)]
      simp only [search, if_true, picked, if_neg fresh, visits]
      rw [← ends]
      exact search_congr later

/-- **Some order meets the failure** of a vertex that can be reached. -/
theorem exists_failing_order {root bad : V} {out : Outcome ε (List α)}
    (reach : Reach (expand visit) root bad) (fails : FailsWith visit bad out) :
    ∃ order enough, ∀ fuel, enough ≤ fuel → search visit order fuel 0 [root] [] [] = out := by
  classical
  have paths := exists_reachIn reach
  have nothing : ∀ v ∈ ([] : List V), ∀ j ≤ Nat.find paths, ¬ ReachIn (expand visit) j v bad :=
    fun _ impossible => absurd impossible List.not_mem_nil
  obtain ⟨order, ends⟩ := fails_along fails (Nat.find_spec paths)
    (fun j less => Nat.find_min paths less) (List.mem_singleton_self root) nothing
    (Nat.lt_succ_self _) 0 []
  refine ⟨order, Nat.find paths + 1, ?_⟩
  intro fuel least
  obtain ⟨more, rfl⟩ := Nat.exists_eq_add_of_le least
  rw [search_add _ more]
  · exact ends
  · rw [ends]
    rcases fails with ⟨e, -, rfl⟩ | ⟨m, -, rfl⟩
    · simp
    · simp

end Search

end Ursa.Theory.Worklist
