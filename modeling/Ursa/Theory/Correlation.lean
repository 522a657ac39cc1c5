/-
# Theory.Correlation — answers that find their requester by a request id

Requests are sent under ids, each with the sender that waits for the answer; answers
come back in any order, carrying an id.  A table keeps the waiting senders by id
(`Table.step`): an answer for an id in the table takes the sender out and is sent to it,
any other answer is dropped.

With fresh ids, over any history of sends and answers:

* `pending_iff` — the table holds exactly the requests that have had no answer since
  they were sent;
* `mem_replies_iff` — what was sent to a sender is the first answer that carried the id
  of its own request;
* `count_replies_le` — nobody is sent more replies than it made requests.
-/
import Mathlib.Data.List.Induction
import Mathlib.Data.List.Nodup
import Mathlib.Data.List.Perm.Subperm
import Mathlib.Logic.Function.Basic

namespace Ursa.Theory.Correlation

set_option autoImplicit false

universe u v w

inductive Event (ι : Type u) (σ : Type v) (α : Type w) where
  | sent (id : ι) (sender : σ)
  | answered (id : ι) (answer : α)

variable {ι : Type u} {σ : Type v} {α : Type w}

/-- A request waits: it was sent and has had no answer since. -/
def Open (history : List (Event ι σ α)) (id : ι) (sender : σ) : Prop :=
  ∃ before after, history = before ++ .sent id sender :: after ∧ ∀ a, .answered id a ∉ after

/-- `answer` is the first one that carried the id of a request of `sender`. -/
def Answered (history : List (Event ι σ α)) (id : ι) (sender : σ) (answer : α) : Prop :=
  ∃ before between after,
    history = before ++ .sent id sender :: (between ++ .answered id answer :: after) ∧
      ∀ a, .answered id a ∉ between

def Event.sentId : Event ι σ α → Option ι
  | .sent id _ => some id
  | .answered _ _ => none

/-- No id is used for two requests. -/
def Fresh (history : List (Event ι σ α)) : Prop := (history.filterMap Event.sentId).Nodup

/-! ## The table -/

structure Table (ι : Type u) (σ : Type v) (α : Type w) where
  pending : ι → Option σ
  /-- The answers that were sent, oldest first, each with the id that brought it. -/
  replies : List (ι × σ × α)

variable [DecidableEq ι]

namespace Table

def empty : Table ι σ α := { pending := fun _ => none, replies := [] }

def step (t : Table ι σ α) : Event ι σ α → Table ι σ α
  | .sent id sender => { t with pending := Function.update t.pending id (some sender) }
  | .answered id answer =>
      match t.pending id with
      | some sender =>
          { pending := Function.update t.pending id none
            replies := t.replies ++ [(id, sender, answer)] }
      | none => t

/-- The table after a history. -/
def after (history : List (Event ι σ α)) : Table ι σ α := history.foldl step empty

theorem after_snoc (history : List (Event ι σ α)) (event : Event ι σ α) :
    after (history ++ [event]) = (after history).step event := by
  simp [after, List.foldl_append]

end Table

/-! ## One more event -/

section Snoc

variable {history : List (Event ι σ α)} {id id' : ι} {sender sender' : σ} {answer answer' : α}

omit [DecidableEq ι] in
/-- A history with one more event is cut inside the old one, or at the new event. -/
theorem snoc_eq_cut {last event : Event ι σ α} {before after : List (Event ι σ α)}
    (same : history ++ [last] = before ++ event :: after) :
    (after = [] ∧ last = event ∧ history = before) ∨
      ∃ rest, after = rest ++ [last] ∧ history = before ++ event :: rest := by
  rcases List.eq_nil_or_concat after with rfl | ⟨rest, e, rfl⟩
  · obtain ⟨front, back⟩ := List.append_inj' same rfl
    exact .inl ⟨rfl, by simpa using back, front⟩
  · rw [List.concat_eq_append, ← List.cons_append, ← List.append_assoc] at same
    obtain ⟨front, back⟩ := List.append_inj' same rfl
    obtain rfl : last = e := by simpa using back
    exact .inr ⟨rest, List.concat_eq_append .., front⟩

omit [DecidableEq ι] in
theorem open_snoc_sent (fresh : Fresh (history ++ [.sent id' sender'])) :
    Open (history ++ [.sent id' sender']) id sender ↔
      (id = id' ∧ sender = sender') ∨ (id ≠ id' ∧ Open history id sender) := by
  constructor
  · rintro ⟨before, after, same, unanswered⟩
    rcases snoc_eq_cut same with ⟨-, last, -⟩ | ⟨rest, rfl, rfl⟩
    · cases last
      exact .inl ⟨rfl, rfl⟩
    · refine .inr ⟨?_, before, rest, rfl, fun a member => unanswered a (by simp [member])⟩
      rintro rfl
      simp [Fresh, Event.sentId, List.nodup_append] at fresh
  · rintro (⟨rfl, rfl⟩ | ⟨ne, before, after, rfl, unanswered⟩)
    · exact ⟨history, [], rfl, by simp⟩
    · exact ⟨before, after ++ [.sent id' sender'], by simp, by simpa using unanswered⟩

omit [DecidableEq ι] in
theorem open_snoc_answered :
    Open (history ++ [.answered id' answer']) id sender ↔
      id ≠ id' ∧ Open history id sender := by
  constructor
  · rintro ⟨before, after, same, unanswered⟩
    rcases snoc_eq_cut same with ⟨-, last, -⟩ | ⟨rest, rfl, rfl⟩
    · cases last
    · refine ⟨?_, before, rest, rfl, fun a member => unanswered a (by simp [member])⟩
      rintro rfl
      exact unanswered answer' (by simp)
  · rintro ⟨ne, before, after, rfl, unanswered⟩
    refine ⟨before, after ++ [.answered id' answer'], by simp, ?_⟩
    intro a member
    rcases List.mem_append.mp member with old | new
    · exact unanswered a old
    · rw [List.mem_singleton] at new
      cases new
      exact ne rfl

omit [DecidableEq ι] in
theorem answered_snoc_sent :
    Answered (history ++ [.sent id' sender']) id sender answer ↔
      Answered history id sender answer := by
  constructor
  · rintro ⟨before, between, after, same, unanswered⟩
    rw [← List.cons_append, ← List.append_assoc] at same
    rcases snoc_eq_cut same with ⟨-, last, -⟩ | ⟨rest, rfl, rfl⟩
    · cases last
    · exact ⟨before, between, rest, by simp, unanswered⟩
  · rintro ⟨before, between, after, rfl, unanswered⟩
    exact ⟨before, between, after ++ [.sent id' sender'], by simp, unanswered⟩

omit [DecidableEq ι] in
theorem answered_snoc_answered :
    Answered (history ++ [.answered id' answer']) id sender answer ↔
      Answered history id sender answer ∨
        (id = id' ∧ answer = answer' ∧ Open history id sender) := by
  constructor
  · rintro ⟨before, between, after, same, unanswered⟩
    rw [← List.cons_append, ← List.append_assoc] at same
    rcases snoc_eq_cut same with ⟨-, last, rfl⟩ | ⟨rest, rfl, rfl⟩
    · cases last
      exact .inr ⟨rfl, rfl, before, between, rfl, unanswered⟩
    · exact .inl ⟨before, between, rest, by simp, unanswered⟩
  · rintro (⟨before, between, after, rfl, unanswered⟩ | ⟨rfl, rfl, before, after, rfl, unanswered⟩)
    · exact ⟨before, between, after ++ [.answered id' answer'], by simp, unanswered⟩
    · exact ⟨before, after, [], by simp, unanswered⟩

omit [DecidableEq ι] in
theorem Fresh.of_snoc {event : Event ι σ α} (fresh : Fresh (history ++ [event])) :
    Fresh history := by
  rw [Fresh, List.filterMap_append] at fresh
  exact fresh.of_append_left

end Snoc

/-! ## What the table holds and has sent -/

section Exact

variable {history : List (Event ι σ α)}

/-- **The table holds exactly the open requests.** -/
theorem pending_iff (fresh : Fresh history) (id : ι) (sender : σ) :
    (Table.after history).pending id = some sender ↔ Open history id sender := by
  induction history using List.reverseRecOn with
  | nil =>
      constructor
      · intro impossible
        cases impossible
      · rintro ⟨before, after, impossible, -⟩
        simp at impossible
  | append_singleton history event ih =>
      have before := ih fresh.of_snoc
      rw [Table.after_snoc]
      cases event with
      | sent id' sender' =>
          rw [open_snoc_sent fresh, ← before, Table.step]
          by_cases same : id = id'
          · subst same
            simp [eq_comm]
          · simp [same]
      | answered id' answer' =>
          rw [open_snoc_answered, ← before, Table.step]
          by_cases same : id = id'
          · subst same
            cases waiting : (Table.after history).pending id <;> simp [waiting]
          · cases waiting : (Table.after history).pending id' <;> simp [same]

/-- **Every reply is the first answer to the requester's own request**, and every such
answer was sent. -/
theorem mem_replies_iff (fresh : Fresh history) (id : ι) (sender : σ) (answer : α) :
    (id, sender, answer) ∈ (Table.after history).replies ↔ Answered history id sender answer := by
  induction history using List.reverseRecOn with
  | nil =>
      constructor
      · intro impossible
        cases impossible
      · rintro ⟨before, between, after, impossible, -⟩
        simp at impossible
  | append_singleton history event ih =>
      have earlier := ih fresh.of_snoc
      have waits := pending_iff fresh.of_snoc id sender
      rw [Table.after_snoc]
      cases event with
      | sent id' sender' =>
          rw [answered_snoc_sent, ← earlier]
          rfl
      | answered id' answer' =>
          rw [answered_snoc_answered, ← earlier, ← waits, Table.step]
          cases waiting : (Table.after history).pending id' with
          | none =>
              constructor
              · exact .inl
              · rintro (old | ⟨rfl, -, here⟩)
                · exact old
                · rw [waiting] at here
                  cases here
          | some sender' =>
              simp only [List.mem_append, List.mem_singleton, Prod.mk.injEq]
              constructor
              · rintro (old | ⟨rfl, rfl, rfl⟩)
                · exact .inl old
                · exact .inr ⟨rfl, rfl, waiting⟩
              · rintro (old | ⟨rfl, rfl, here⟩)
                · exact .inl old
                · rw [waiting] at here
                  exact .inr ⟨rfl, (Option.some.inj here).symm, rfl⟩

omit [DecidableEq ι] in
theorem Answered.sent {id : ι} {sender : σ} {answer : α}
    (answered : Answered history id sender answer) : .sent id sender ∈ history := by
  obtain ⟨before, between, after, rfl, -⟩ := answered
  simp

/-- A request that has been answered is not in the table, and no id brings two replies. -/
theorem replied_once (fresh : Fresh history) :
    (∀ r ∈ (Table.after history).replies, (Table.after history).pending r.1 = none) ∧
      ((Table.after history).replies.map Prod.fst).Nodup := by
  induction history using List.reverseRecOn with
  | nil => exact ⟨fun _ impossible => absurd impossible List.not_mem_nil, List.nodup_nil⟩
  | append_singleton history event ih =>
      obtain ⟨closed, distinct⟩ := ih fresh.of_snoc
      rw [Table.after_snoc]
      cases event with
      | sent id' sender' =>
          refine ⟨?_, distinct⟩
          intro r replied
          -- The new id is fresh, so it is not the one that was answered.
          have sent := ((mem_replies_iff fresh.of_snoc r.1 r.2.1 r.2.2).mp replied).sent
          have ne : r.1 ≠ id' := by
            rintro rfl
            rw [Fresh, List.filterMap_append] at fresh
            have used : r.1 ∈ history.filterMap Event.sentId := List.mem_filterMap.mpr ⟨_, sent, rfl⟩
            exact List.disjoint_of_nodup_append fresh used (by simp [Event.sentId])
          simp only [Table.step, Function.update_of_ne ne]
          exact closed r replied
      | answered id' answer' =>
          rw [Table.step]
          cases waiting : (Table.after history).pending id' with
          | none => exact ⟨closed, distinct⟩
          | some sender' =>
              constructor
              · intro r replied
                by_cases same : r.1 = id'
                · simp [same]
                · simp only [Function.update_of_ne same]
                  rcases List.mem_append.mp replied with old | new
                  · exact closed r old
                  · rw [List.mem_singleton.mp new] at same
                    exact absurd rfl same
              · rw [List.map_append]
                apply List.Nodup.append distinct (by simp)
                intro id member own
                obtain ⟨r, replied, rfl⟩ := List.mem_map.mp member
                have same : r.1 = id' := by simpa using own
                have gone := closed r replied
                rw [same, waiting] at gone
                cases gone

/-- The requests of one sender. -/
def Event.sentBy [DecidableEq σ] (sender : σ) : Event ι σ α → Option ι
  | .sent id sender' => if sender' = sender then some id else none
  | .answered _ _ => none

/-- **Nobody is sent more replies than it made requests.** -/
theorem count_replies_le [DecidableEq σ] (fresh : Fresh history) (sender : σ) :
    ((Table.after history).replies.filter fun r => r.2.1 = sender).length ≤
      (history.filterMap (Event.sentBy sender)).length := by
  let own := (Table.after history).replies.filter fun r => decide (r.2.1 = sender)
  have distinct : (own.map Prod.fst).Nodup :=
    (replied_once fresh).2.sublist (List.filter_sublist.map Prod.fst)
  have within : own.map Prod.fst ⊆ history.filterMap (Event.sentBy sender) := by
    intro id member
    obtain ⟨r, listed, rfl⟩ := List.mem_map.mp member
    obtain ⟨replied, isOwn⟩ := List.mem_filter.mp listed
    have sent := ((mem_replies_iff fresh r.1 r.2.1 r.2.2).mp replied).sent
    exact List.mem_filterMap.mpr ⟨_, sent, by simpa [Event.sentBy] using isOwn⟩
  have shorter := (distinct.subperm within).length_le
  rwa [List.length_map] at shorter

end Exact

end Ursa.Theory.Correlation
