/-
# Theory.Run — finite runs of a partial step function

`step s i` is the state after input `i`, or `none` when the system cannot take
`i` in `s`.  A run is a list of inputs that are all taken (`exec`); a state is
reached when some run ends in it.

Two predicates speak about a whole run rather than about its end:

* `Meets step cond s inputs` — every step of the run satisfies `cond` at the
  state it is taken from.  Assumptions on the environment, and the condition
  under which a property holds, are of this kind.
* `Always step P s inputs` — `P` holds in every state the run passes through.

`exec_invariant` is the one induction behind every safety result: what every
admissible step preserves, every reached state satisfies.
-/
import Mathlib.Data.List.Basic

namespace Ursa.Theory.Run

set_option autoImplicit false

universe u v

variable {σ : Type u} {ι : Type v} (step : σ → ι → Option σ)

/-- Take the inputs in order. -/
def exec : σ → List ι → Option σ
  | s, [] => some s
  | s, i :: rest => (step s i).bind fun t => exec t rest

theorem exec_cons_iff {s t : σ} {i : ι} {rest : List ι} :
    exec step s (i :: rest) = some t ↔ ∃ m, step s i = some m ∧ exec step m rest = some t := by
  simp [exec, Option.bind_eq_some_iff]

theorem exec_append_iff {s t : σ} {first second : List ι} :
    exec step s (first ++ second) = some t ↔
      ∃ m, exec step s first = some m ∧ exec step m second = some t := by
  induction first generalizing s with
  | nil => simp [exec]
  | cons i rest ih =>
      simp only [List.cons_append, exec_cons_iff, ih]
      constructor
      · rintro ⟨m, taken, n, run, later⟩
        exact ⟨n, ⟨m, taken, run⟩, later⟩
      · rintro ⟨n, ⟨m, taken, run⟩, later⟩
        exact ⟨m, taken, n, run, later⟩

/-- Every step of the run meets `cond` at the state it is taken from. -/
def Meets (cond : σ → ι → Prop) : σ → List ι → Prop
  | _, [] => True
  | s, i :: rest => cond s i ∧ ∀ t, step s i = some t → Meets cond t rest

/-- `P` holds in every state the run passes through, the first and the last included. -/
def Always (P : σ → Prop) : σ → List ι → Prop
  | s, [] => P s
  | s, i :: rest => P s ∧ ∀ t, step s i = some t → Always P t rest

variable {step}

theorem Meets.mono {cond cond' : σ → ι → Prop} (weaker : ∀ s i, cond s i → cond' s i) {s : σ}
    {inputs : List ι} (meets : Meets step cond s inputs) : Meets step cond' s inputs := by
  induction inputs generalizing s with
  | nil => trivial
  | cons i rest ih => exact ⟨weaker s i meets.1, fun t taken => ih (meets.2 t taken)⟩

/-- A condition on the inputs alone. -/
theorem meets_of_forall {cond : σ → ι → Prop} {inputs : List ι}
    (all : ∀ i ∈ inputs, ∀ s, cond s i) (s : σ) : Meets step cond s inputs := by
  induction inputs generalizing s with
  | nil => trivial
  | cons i rest ih =>
      exact ⟨all i (by simp) s, fun t _ => ih (fun i member => all i (by simp [member])) t⟩

theorem Meets.and {cond cond' : σ → ι → Prop} {s : σ} {inputs : List ι}
    (meets : Meets step cond s inputs) (meets' : Meets step cond' s inputs) :
    Meets step (fun s i => cond s i ∧ cond' s i) s inputs := by
  induction inputs generalizing s with
  | nil => trivial
  | cons i rest ih =>
      exact ⟨⟨meets.1, meets'.1⟩, fun t taken => ih (meets.2 t taken) (meets'.2 t taken)⟩

/-- **The invariant rule.**  An invariant kept by every step that meets `cond`
holds at the end of every run whose steps all meet `cond`. -/
theorem exec_invariant {I : σ → Prop} {cond : σ → ι → Prop}
    (keeps : ∀ s i t, I s → cond s i → step s i = some t → I t) {s t : σ} {inputs : List ι}
    (start : I s) (meets : Meets step cond s inputs) (run : exec step s inputs = some t) :
    I t := by
  induction inputs generalizing s with
  | nil =>
      cases run
      exact start
  | cons i rest ih =>
      obtain ⟨m, taken, run⟩ := (exec_cons_iff step).mp run
      exact ih (keeps s i m start meets.1 taken) (meets.2 m taken) run

/-- A potential that pays for some of the inputs bounds how often they are taken. -/
theorem exec_potential {I : σ → Prop} {cond : σ → ι → Prop} {potential : σ → Nat} {paid : ι → Bool}
    (pays : ∀ s i t, I s → cond s i → step s i = some t →
      I t ∧ potential t + (if paid i then 1 else 0) ≤ potential s)
    {s t : σ} {inputs : List ι} (start : I s) (meets : Meets step cond s inputs)
    (run : exec step s inputs = some t) :
    I t ∧ potential t + inputs.countP paid ≤ potential s := by
  induction inputs generalizing s with
  | nil =>
      cases run
      exact ⟨start, Nat.le_refl _⟩
  | cons i rest ih =>
      obtain ⟨m, taken, later⟩ := (exec_cons_iff step).mp run
      obtain ⟨kept, once⟩ := pays s i m start meets.1 taken
      obtain ⟨ended, often⟩ := ih kept (meets.2 m taken) later
      refine ⟨ended, ?_⟩
      rw [List.countP_cons]
      omega

/-- The same rule for every state passed on the way. -/
theorem always_of_invariant {I P : σ → Prop} {cond : σ → ι → Prop}
    (keeps : ∀ s i t, I s → cond s i → step s i = some t → I t)
    (gives : ∀ s, I s → P s) {s : σ} {inputs : List ι}
    (start : I s) (meets : Meets step cond s inputs) : Always step P s inputs := by
  induction inputs generalizing s with
  | nil => exact gives s start
  | cons i rest ih =>
      exact ⟨gives s start, fun t taken => ih (keeps s i t start meets.1 taken) (meets.2 t taken)⟩

/-- **An exact condition.**  Where a step from a good state leads to a good state
exactly if it meets `cond`, a run stays good exactly if all its steps meet `cond`. -/
theorem always_iff_meets {I P : σ → Prop} {assumed cond : σ → ι → Prop}
    (keeps : ∀ s i t, I s → assumed s i → step s i = some t → I t)
    (exact : ∀ s i, I s → P s → assumed s i → (cond s i ↔ ∀ t, step s i = some t → P t)) {s : σ}
    {inputs : List ι} (start : I s) (good : P s) (assumption : Meets step assumed s inputs) :
    Always step P s inputs ↔ Meets step cond s inputs := by
  induction inputs generalizing s with
  | nil => exact ⟨fun _ => trivial, fun _ => good⟩
  | cons i rest ih =>
      have here := exact s i start good assumption.1
      have after := fun t taken => ih (keeps s i t start assumption.1 taken)
      constructor
      · rintro ⟨-, later⟩
        have next : ∀ t, step s i = some t → P t := by
          intro t taken
          cases rest with
          | nil => exact later t taken
          | cons _ _ => exact (later t taken).1
        exact ⟨here.mpr next, fun t taken =>
          (after t taken (next t taken) (assumption.2 t taken)).mp (later t taken)⟩
      · rintro ⟨meets, later⟩
        have next := here.mp meets
        exact ⟨good, fun t taken =>
          (after t taken (next t taken) (assumption.2 t taken)).mpr (later t taken)⟩

/-- **Equivalent conditions.**  Two conditions that agree on every step from a good
state hold of the same runs, as long as the steps that meet them lead to good states. -/
theorem Meets.congr {I : σ → Prop} {assumed cond cond' : σ → ι → Prop}
    (keeps : ∀ s i t, I s → assumed s i → cond' s i → step s i = some t → I t)
    (same : ∀ s i, I s → assumed s i → (cond s i ↔ cond' s i)) {s : σ} {inputs : List ι}
    (start : I s) (assumption : Meets step assumed s inputs) :
    Meets step cond s inputs ↔ Meets step cond' s inputs := by
  induction inputs generalizing s with
  | nil => exact Iff.rfl
  | cons i rest ih =>
      have here := same s i start assumption.1
      constructor
      · rintro ⟨meets, later⟩
        exact ⟨here.mp meets, fun t taken =>
          (ih (keeps s i t start assumption.1 (here.mp meets) taken)
            (assumption.2 t taken)).mp (later t taken)⟩
      · rintro ⟨meets, later⟩
        exact ⟨here.mpr meets, fun t taken =>
          (ih (keeps s i t start assumption.1 meets taken)
            (assumption.2 t taken)).mpr (later t taken)⟩

/-- **A history of the inputs.**  If every step appends to a log what its input stands
for, the log at the end of a run is what all its inputs stand for. -/
theorem exec_log {α : Type*} {log : σ → List α} {entries : ι → List α}
    (appends : ∀ s i t, step s i = some t → log t = log s ++ entries i) {s t : σ}
    {inputs : List ι} (run : exec step s inputs = some t) :
    log t = log s ++ inputs.flatMap entries := by
  induction inputs generalizing s with
  | nil =>
      cases run
      simp
  | cons i rest ih =>
      obtain ⟨m, taken, run⟩ := (exec_cons_iff step).mp run
      rw [ih run, appends s i m taken, List.flatMap_cons, List.append_assoc]

/-- A log to which every step adds at most what its input stands for, and may lose entries,
never has more, and nothing out of order. -/
theorem exec_sublog {α : Type*} {log : σ → List α} {entries : ι → List α}
    (adds : ∀ s i t, step s i = some t → (log t).Sublist (log s ++ entries i)) {s t : σ}
    {inputs : List ι} (run : exec step s inputs = some t) :
    (log t).Sublist (log s ++ inputs.flatMap entries) := by
  induction inputs generalizing s with
  | nil =>
      cases run
      simp
  | cons i rest ih =>
      obtain ⟨m, taken, run⟩ := (exec_cons_iff step).mp run
      rw [List.flatMap_cons, ← List.append_assoc]
      exact (ih run).trans ((adds s i m taken).append_right _)

/-- **When nothing is lost.**  Such a log is complete exactly if no step loses anything. -/
theorem exec_log_iff {α : Type*} {log : σ → List α} {entries : ι → List α} {keeps : σ → ι → Prop}
    (adds : ∀ s i t, step s i = some t → (log t).Sublist (log s ++ entries i))
    (exact : ∀ s i t, step s i = some t → (log t = log s ++ entries i ↔ keeps s i)) {s t : σ}
    {inputs : List ι} (run : exec step s inputs = some t) :
    log t = log s ++ inputs.flatMap entries ↔ Meets step keeps s inputs := by
  induction inputs generalizing s with
  | nil =>
      cases run
      simp [Meets]
  | cons i rest ih =>
      obtain ⟨m, taken, run⟩ := (exec_cons_iff step).mp run
      rw [List.flatMap_cons, ← List.append_assoc]
      constructor
      · intro complete
        have later := (exec_sublog adds run).length_le
        have first := (adds s i m taken).length_le
        simp only [complete, List.length_append] at later first
        -- What the first step lost could not come back.
        have whole : log m = log s ++ entries i := by
          refine (adds s i m taken).eq_of_length ?_
          rw [List.length_append]
          omega
        refine ⟨(exact s i m taken).mp whole, ?_⟩
        intro m' taken'
        obtain rfl := Option.some.inj (taken.symm.trans taken')
        exact (ih run).mp (by rw [complete, whole])
      · rintro ⟨kept, later⟩
        rw [← (exact s i m taken).mpr kept]
        exact (ih run).mpr (later m taken)

/-- **Simulation by a history.**  If every step is matched by what its input stands for,
acting on an abstract state, a run is matched by what all its inputs stand for. -/
theorem exec_simulates {τ α : Type*} {R : σ → τ → Prop} {act : τ → α → τ} {events : ι → List α}
    (simulates : ∀ s i t x, R s x → step s i = some t → R t ((events i).foldl act x)) {s t : σ}
    {x : τ} {inputs : List ι} (start : R s x) (run : exec step s inputs = some t) :
    R t ((inputs.flatMap events).foldl act x) := by
  induction inputs generalizing s x with
  | nil =>
      cases run
      exact start
  | cons i rest ih =>
      obtain ⟨m, taken, run⟩ := (exec_cons_iff step).mp run
      rw [List.flatMap_cons, List.foldl_append]
      exact ih (simulates s i m x start taken) run

/-! ## Inputs that do not matter -/

/-- **Purging.**  Some inputs are followed alike from states that look alike, and the others
do not change how a state looks.  Then a run looks as if the others had not been there. -/
theorem foldl_purge {act : σ → ι → σ} {matters : ι → Bool} {R : σ → σ → Prop} {inputs : List ι}
    (followed : ∀ s t, ∀ i ∈ inputs, matters i = true → R s t → R (act s i) (act t i))
    (ignored : ∀ s t, ∀ i ∈ inputs, matters i = false → R s t → R (act s i) t) {s t : σ}
    (start : R s t) : R (inputs.foldl act s) ((inputs.filter matters).foldl act t) := by
  induction inputs generalizing s t with
  | nil => exact start
  | cons i rest ih =>
      have later := fun s t =>
        @ih (fun s t j member => followed s t j (List.mem_cons_of_mem i member))
          (fun s t j member => ignored s t j (List.mem_cons_of_mem i member)) s t
      cases kind : matters i with
      | true =>
          rw [List.filter_cons_of_pos kind]
          exact later _ _ (followed s t i List.mem_cons_self kind start)
      | false =>
          rw [List.filter_cons_of_neg (by simp [kind])]
          exact later _ _ (ignored s t i List.mem_cons_self kind start)

/-- The invariant rule for a step that is always taken. -/
theorem foldl_invariant {act : σ → ι → σ} {I : σ → Prop} {cond : ι → Prop}
    (keeps : ∀ s i, I s → cond i → I (act s i)) {s : σ} (start : I s) {inputs : List ι}
    (meets : ∀ i ∈ inputs, cond i) : I (inputs.foldl act s) := by
  induction inputs generalizing s with
  | nil => exact start
  | cons i rest ih =>
      obtain ⟨first, others⟩ := List.forall_mem_cons.mp meets
      exact ih (keeps s i start first) others

/-! ## Checking a run -/

/-- Run a check at every step: `Meets` for a condition that can be computed. -/
def passes (step : σ → ι → Option σ) (check : σ → ι → Bool) : σ → List ι → Bool
  | _, [] => true
  | s, i :: rest =>
      check s i && match step s i with
        | some t => passes step check t rest
        | none => true

theorem meets_of_passes {cond : σ → ι → Prop} {check : σ → ι → Bool}
    (sound : ∀ s i, check s i = true → cond s i) {s : σ} {inputs : List ι}
    (passed : passes step check s inputs = true) : Meets step cond s inputs := by
  induction inputs generalizing s with
  | nil => trivial
  | cons i rest ih =>
      simp only [passes, Bool.and_eq_true] at passed
      refine ⟨sound s i passed.1, fun t taken => ih ?_⟩
      simpa only [taken] using passed.2

end Ursa.Theory.Run
