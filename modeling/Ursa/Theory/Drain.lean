/-
# Theory.Drain — queues worked off until something is passed on

A poller has queues of items.  Of some items something is passed on (`forward`); the others
are taken in (`absorb`).  `drain` works a queue off until an item is passed on or none is
left, and says what it passes on, what is left and what it has become.

* `drain_cases` — which items it takes, and what they do.
* `filterMap_drain` — nothing that is to be passed on is lost, repeated or overtaken.
* `log_drain` — neither is what is taken in.

`log_foldl_of` is the same for any steps that write a log: it ends with what each step added.
-/
import Mathlib.Data.List.Basic

namespace Ursa.Theory.Drain

set_option autoImplicit false

universe u v w x

section Log

variable {σ : Type u} {ι : Type v} {ε : Type w} {step : σ → ι → σ} (log : σ → List ε)
  {entries : ι → List ε}

/-- Steps that keep `I` and add entries to a log leave a log of all these entries. -/
theorem log_foldl_of {I : σ → Prop} (keeps : ∀ s i, I s → I (step s i))
    (adds : ∀ s i, I s → log (step s i) = log s ++ entries i) (inputs : List ι) {s : σ} (holds : I s) :
    log (inputs.foldl step s) = log s ++ inputs.flatMap entries := by
  induction inputs generalizing s with
  | nil => simp
  | cons i rest ih =>
      rw [List.foldl_cons, ih (keeps s i holds), adds s i holds, List.flatMap_cons,
        List.append_assoc]

theorem log_foldl (adds : ∀ s i, log (step s i) = log s ++ entries i) (inputs : List ι) (s : σ) :
    log (inputs.foldl step s) = log s ++ inputs.flatMap entries :=
  log_foldl_of log (I := fun _ => True) (fun _ _ _ => trivial) (fun s i _ => adds s i) inputs trivial

end Log

section Queue

variable {α : Type u} {β : Type v} {σ : Type w} (forward : α → Option β) (absorb : σ → α → σ)

def drain : List α → σ → Option β × List α × σ
  | [], s => (none, [], s)
  | a :: rest, s =>
      match forward a with
      | some b => (some b, rest, s)
      | none => drain rest (absorb s a)

/-- Either all items are taken in, or those before the first one that is passed on. -/
theorem drain_cases (queue : List α) (s : σ) :
    ((∀ a ∈ queue, forward a = none) ∧
      drain forward absorb queue s = (none, [], queue.foldl absorb s)) ∨
    ∃ taken a b rest, queue = taken ++ a :: rest ∧ (∀ c ∈ taken, forward c = none) ∧
      forward a = some b ∧
      drain forward absorb queue s = (some b, rest, taken.foldl absorb s) := by
  induction queue generalizing s with
  | nil => exact .inl ⟨by simp, rfl⟩
  | cons a rest ih =>
      cases passed : forward a with
      | some b => exact .inr ⟨[], a, b, rest, rfl, by simp, passed, by simp [drain, passed]⟩
      | none =>
          have next : drain forward absorb (a :: rest) s = drain forward absorb rest (absorb s a) := by
            simp [drain, passed]
          rcases ih (absorb s a) with ⟨all, ended⟩ | ⟨taken, c, b, rest', rfl, before, own, ended⟩
          · exact .inl ⟨List.forall_mem_cons.mpr ⟨passed, all⟩, next.trans ended⟩
          · exact .inr ⟨a :: taken, c, b, rest', rfl, List.forall_mem_cons.mpr ⟨passed, before⟩, own,
              next.trans ended⟩

/-- What is passed on comes first in what was to be passed on. -/
theorem filterMap_drain (queue : List α) (s : σ) :
    (drain forward absorb queue s).1.toList ++
      (drain forward absorb queue s).2.1.filterMap forward = queue.filterMap forward := by
  rcases drain_cases forward absorb queue s with ⟨all, ended⟩ |
    ⟨taken, a, b, rest, rfl, before, own, ended⟩
  · rw [ended, List.filterMap_eq_nil_iff.mpr all]
    rfl
  · rw [ended, List.filterMap_append, List.filterMap_eq_nil_iff.mpr before,
      List.filterMap_cons_some own]
    rfl

/-- Where items that are taken in add entries to a log, and the others have none, what is in
the log and what is left make up what was there before. -/
theorem log_drain {ε : Type x} (log : σ → List ε) {entries : α → List ε}
    (adds : ∀ s a, log (absorb s a) = log s ++ entries a)
    (nothing : ∀ a b, forward a = some b → entries a = []) (queue : List α) (s : σ) :
    log (drain forward absorb queue s).2.2 ++ (drain forward absorb queue s).2.1.flatMap entries =
      log s ++ queue.flatMap entries := by
  have folded : ∀ taken : List α, log (taken.foldl absorb s) = log s ++ taken.flatMap entries :=
    fun taken => log_foldl log adds taken s
  rcases drain_cases forward absorb queue s with ⟨-, ended⟩ |
    ⟨taken, a, b, rest, rfl, -, own, ended⟩
  · rw [ended, folded]
    simp
  · rw [ended, folded, List.flatMap_append, List.flatMap_cons, nothing a b own, List.nil_append,
      List.append_assoc]

/-- What taking an item in does not change, working the queue off does not. -/
theorem drain_keeps {γ : Type x} (f : σ → γ) (keeps : ∀ s a, f (absorb s a) = f s) (queue : List α)
    (s : σ) : f (drain forward absorb queue s).2.2 = f s := by
  induction queue generalizing s with
  | nil => rfl
  | cons a rest ih =>
      rw [drain]
      split
      · rfl
      · rw [ih, keeps]

/-- Where nothing is passed on, nothing is left. -/
theorem drain_none (queue : List α) (s : σ) (nothing : (drain forward absorb queue s).1 = none) :
    (drain forward absorb queue s).2.1 = [] := by
  rcases drain_cases forward absorb queue s with ⟨-, ended⟩ |
    ⟨taken, a, b, rest, rfl, -, -, ended⟩
  · rw [ended]
  · rw [ended] at nothing
    cases nothing

end Queue

end Ursa.Theory.Drain
