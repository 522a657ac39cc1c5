/-
# Identity.Isolation — two names, two keys?

Sequences of `new`, `load` and `loadOrNew` for two names in one directory.  A `Ledger` is the
file system together with what was created last under each name.

Two names that are single components are isolated in every sequence exactly if their stems
differ (`names_are_isolated_iff`).  `set_extension` takes what follows the last dot of a name
for an extension and drops it, so `node.1` and `node.2` share `node.pem`.
-/
import Ursa.Identity.KeyFiles
import Ursa.Theory.Run

namespace Ursa.Identity

set_option autoImplicit false

open Ursa.Theory (Outcome)
open Ursa.Theory.Run (foldl_invariant foldl_purge)

variable {K : Type} {lib : KeyLib K}

/-! ## Sequences of calls -/

/-- A call of `IdentityManager`, with what key generation would yield. -/
inductive Call (K : Type) where
  | new (generated : K)
  | load
  | loadOrNew (generated : K)

structure Request (K : Type) where
  name : String
  call : Call K

/-- The file system after a call. -/
def Call.after (lib : KeyLib K) (name : String) (dir : Path) (fs : FileSystem) : Call K → FileSystem
  | .new generated => (IdentityManager.new lib name dir generated fs).2
  | .load => fs
  | .loadOrNew generated => (IdentityManager.loadOrNew lib name dir generated fs).2

/-- The keypair a call creates: it is generated, saved and returned. -/
def Call.creates (lib : KeyLib K) (name : String) (dir : Path) (fs : FileSystem) : Call K → Option K
  | .new generated => if (IdentityManager.new lib name dir generated fs).1.isOk then some generated else none
  | .load => none
  | .loadOrNew generated =>
      match IdentityManager.load lib name dir fs with
      | .ok none =>
          if (IdentityManager.new lib name dir generated fs).1.isOk then some generated else none
      | _ => none

structure Ledger (K : Type) where
  fs : FileSystem
  /-- What was created last under a name. -/
  created : String → Option K

def Ledger.take (lib : KeyLib K) (dir : Path) (s : Ledger K) (r : Request K) : Ledger K where
  fs := r.call.after lib r.name dir s.fs
  created :=
    match r.call.creates lib r.name dir s.fs with
    | some k => Function.update s.created r.name (some k)
    | none => s.created

/-- A sequence of calls, when nothing was created yet. -/
def Ledger.run (lib : KeyLib K) (dir : Path) (fs : FileSystem) (requests : List (Request K)) :
    Ledger K :=
  requests.foldl (Ledger.take lib dir) { fs, created := fun _ => none }

/-- What the name `own` has a right to after a sequence of calls. -/
structure Isolated (lib : KeyLib K) (dir : Path) (own other : String) (fs : FileSystem)
    (requests : List (Request K)) : Prop where
  /-- A call for the other name leaves the key file as it is. -/
  unchanged : ∀ call : Call K,
    (Ledger.run lib dir fs (requests ++ [⟨other, call⟩])).fs.entries (keyPath own dir) =
      (Ledger.run lib dir fs requests).fs.entries (keyPath own dir)
  /-- Loading returns what was created last. -/
  latest : ∀ k, (Ledger.run lib dir fs requests).created own = some k →
    IdentityManager.load lib own dir (Ledger.run lib dir fs requests).fs =
      .ok (some { name := own, dir, identity := .ed25519 k })
  /-- Loading returns what it would if there were only the calls for this name. -/
  alone : IdentityManager.load lib own dir (Ledger.run lib dir fs requests).fs =
    IdentityManager.load lib own dir
      (Ledger.run lib dir fs (requests.filter fun r => r.name = own)).fs

/-! ## One call -/

/-- A call touches only the key file of its own name. -/
theorem after_elsewhere (lib : KeyLib K) {name : String} {dir path : Path}
    (elsewhere : path ≠ keyPath name dir) (fs : FileSystem) (call : Call K) :
    AgreeAt path (call.after lib name dir fs) fs := by
  cases call with
  | new generated =>
      simp only [Call.after, new_snd]
      exact save_elsewhere lib generated elsewhere fs
  | load => exact .refl path fs
  | loadOrNew generated => exact loadOrNew_elsewhere lib elsewhere generated fs

/-- A call cannot tell two file systems apart that agree at its key file. -/
theorem after_agree {name : String} {dir : Path} {fs fs' : FileSystem}
    (agree : AgreeAt (keyPath name dir) fs fs') (call : Call K) :
    AgreeAt (keyPath name dir) (call.after lib name dir fs) (call.after lib name dir fs') := by
  cases call with
  | new generated =>
      simp only [Call.after, new_snd]
      exact save_agree generated agree
  | load => exact agree
  | loadOrNew generated =>
      simp only [Call.after, loadOrNew_eq, load_congr agree.entry]
      cases Keypair.load lib (keyPath name dir) fs' with
      | err e =>
          dsimp only
          rw [new_snd, new_snd]
          exact save_agree generated agree
      | _ => exact agree

/-- What is created can be saved, and lies in the file. -/
theorem saveable_of_creates {name : String} {dir : Path} {fs : FileSystem} {call : Call K} {k : K}
    (creates : call.creates lib name dir fs = some k) :
    Saveable fs (keyPath name dir) ∧
      call.after lib name dir fs = fs.setFile (keyPath name dir) (keyFile lib k) := by
  have fresh : ∀ generated, (if (IdentityManager.new lib name dir generated fs).1.isOk then
      some generated else none) = some k → Saveable fs (keyPath name dir) ∧ generated = k := by
    intro generated made
    split at made
    · rename_i ok
      obtain ⟨im, isOk⟩ := Outcome.isOk_iff.mp ok
      cases made
      exact ⟨saveable_of_new (Prod.ext isOk rfl), rfl⟩
    · cases made
  cases call with
  | new generated =>
      obtain ⟨saveable, rfl⟩ := fresh generated creates
      exact ⟨saveable, congrArg Prod.snd (new_of_saveable generated saveable)⟩
  | load => cases creates
  | loadOrNew generated =>
      simp only [Call.creates] at creates
      split at creates
      · rename_i absent
        obtain ⟨saveable, rfl⟩ := fresh generated creates
        refine ⟨saveable, ?_⟩
        rw [Call.after, IdentityManager.loadOrNew, absent]
        exact congrArg Prod.snd (new_of_saveable generated saveable)
      · cases creates

/-! ## Sequences -/

/-- What was created last under the name lies in its file and can be saved over. -/
def Recorded (lib : KeyLib K) (dir : Path) (name : String) (s : Ledger K) : Prop :=
  ∀ k, s.created name = some k →
    s.fs.entries (keyPath name dir) = some (.file (keyFile lib k)) ∧ Saveable s.fs (keyPath name dir)

/-- A call for the name itself. -/
theorem recorded_own (lawful : lib.Lawful) {dir : Path} {name : String} {s : Ledger K} (call : Call K)
    (recorded : Recorded lib dir name s) : Recorded lib dir name (s.take lib dir ⟨name, call⟩) := by
  cases creates : call.creates lib name dir s.fs with
  | some k =>
      obtain ⟨saveable, after⟩ := saveable_of_creates creates
      intro k' isLast
      simp only [Ledger.take, creates, Function.update_self, Option.some.injEq] at isLast
      subst isLast
      simp only [Ledger.take, after]
      exact ⟨setFile_entries _ _ _, saveable_setFile k saveable⟩
  | none =>
      intro k isLast
      simp only [Ledger.take, creates] at isLast
      obtain ⟨there, saveable⟩ := recorded k isLast
      -- Where a key lies, `new` would have created one, and the others do not write.
      have still : call.after lib name dir s.fs = s.fs := by
        cases call with
        | new generated =>
            rw [Call.creates, new_of_saveable generated saveable] at creates
            cases creates
        | load => rfl
        | loadOrNew generated => rw [Call.after, loadOrNew_eq, load_keyFile lawful there]
      simp only [Ledger.take, still]
      exact ⟨there, saveable⟩

/-- A call for a name with another key file. -/
theorem recorded_other {dir : Path} {name other : String} {s : Ledger K} (call : Call K)
    (apart : keyPath name dir ≠ keyPath other dir) (recorded : Recorded lib dir name s) :
    Recorded lib dir name (s.take lib dir ⟨other, call⟩) := by
  have agree := after_elsewhere lib apart s.fs call
  have names : name ≠ other := fun same => apart (same ▸ rfl)
  have created : (s.take lib dir ⟨other, call⟩).created name = s.created name := by
    simp only [Ledger.take]
    cases call.creates lib other dir s.fs with
    | some k => exact Function.update_of_ne names _ _
    | none => rfl
  intro k isLast
  obtain ⟨there, saveable⟩ := recorded k (created ▸ isLast)
  exact ⟨agree.entry.trans there, agree.symm.saveable saveable⟩

/-- Two names with different key files are isolated in every sequence of calls. -/
theorem isolated_of_apart (lawful : lib.Lawful) {dir : Path} {own other : String}
    (apart : keyPath own dir ≠ keyPath other dir) (fs : FileSystem) {requests : List (Request K)}
    (only : ∀ r ∈ requests, r.name = own ∨ r.name = other) :
    Isolated lib dir own other fs requests where
  unchanged call := by
    rw [Ledger.run, List.foldl_append]
    exact (after_elsewhere lib apart _ call).entry
  latest k isLast := by
    have keeps : ∀ (s : Ledger K) (r : Request K), Recorded lib dir own s →
        r.name = own ∨ r.name = other → Recorded lib dir own (s.take lib dir r) := by
      rintro s ⟨name, call⟩ recorded (rfl | rfl)
      · exact recorded_own lawful call recorded
      · exact recorded_other call apart recorded
    have start : Recorded lib dir own { fs, created := fun _ => none } := by
      intro k isLast
      cases isLast
    have final : Recorded lib dir own (Ledger.run lib dir fs requests) :=
      foldl_invariant keeps start only
    rw [IdentityManager.load, load_keyFile lawful (final k isLast).1]
  alone := by
    have final : AgreeAt (keyPath own dir) (Ledger.run lib dir fs requests).fs
        (Ledger.run lib dir fs (requests.filter fun r => r.name = own)).fs := by
      refine foldl_purge (R := fun s t : Ledger K => AgreeAt (keyPath own dir) s.fs t.fs) ?_ ?_
        (.refl _ fs)
      · intro s t r member matters agree
        obtain ⟨name, call⟩ := r
        obtain rfl : name = own := by simpa using matters
        exact after_agree agree call
      · intro s t r member ignored agree
        obtain ⟨name, call⟩ := r
        obtain rfl : name = other := (only _ member).resolve_left (by simpa using ignored)
        exact (after_elsewhere lib apart s.fs call).trans agree
    rw [IdentityManager.load, IdentityManager.load, load_congr final.entry]

/-- **When names are isolated.**  Two names that are single components get along in every
sequence of calls, from every file system, exactly if their stems differ. -/
theorem names_are_isolated_iff [Nonempty K] (lawful : lib.Lawful) (dir : Path) {a b : String}
    (component : SingleComponent a) (component' : SingleComponent b) :
    (∀ (fs : FileSystem) (requests : List (Request K)),
      (∀ r ∈ requests, r.name = a ∨ r.name = b) →
        Isolated lib dir a b fs requests ∧ Isolated lib dir b a fs requests) ↔
      fileStem (DagCbor.utf8 a) ≠ fileStem (DagCbor.utf8 b) := by
  rw [Ne, ← keyPath_eq_iff component component' dir]
  constructor
  · intro isolated same
    obtain ⟨k⟩ := ‹Nonempty K›
    -- The first key of `b` appears where that of `a` would be.
    obtain ⟨⟨unchanged, -, -⟩, -⟩ := isolated emptyDisk [] fun _ member => absurd member List.not_mem_nil
    have made : (IdentityManager.new lib b dir k emptyDisk).2 = _ :=
      congrArg Prod.snd (new_of_saveable k (saveable_emptyDisk component' dir))
    have appears := unchanged (.new k)
    rw [same] at appears
    simp only [Ledger.run, List.nil_append, List.foldl_cons, List.foldl_nil, Ledger.take, Call.after,
      made, setFile_entries] at appears
    cases appears
  · intro apart fs requests only
    exact ⟨isolated_of_apart lawful apart fs only,
      isolated_of_apart lawful (Ne.symm apart) fs fun r member => (only r member).symm⟩

/-- A key that is created where saving succeeds. -/
theorem take_new {dir : Path} {name : String} {s : Ledger K} (k : K)
    (saveable : Saveable s.fs (keyPath name dir)) :
    s.take lib dir ⟨name, .new k⟩ =
      { fs := s.fs.setFile (keyPath name dir) (keyFile lib k)
        created := Function.update s.created name (some k) } := by
  simp [Ledger.take, Call.after, Call.creates, new_of_saveable k saveable, Outcome.isOk]

/-- Two keys that are created on an empty disk. -/
theorem run_new_new (lib : KeyLib K) {a b : String} {dir : Path} (component : SingleComponent a)
    (component' : SingleComponent b) (k k' : K) :
    Ledger.run lib dir emptyDisk [⟨a, .new k⟩, ⟨b, .new k'⟩] =
      { fs := (emptyDisk.setFile (keyPath a dir) (keyFile lib k)).setFile (keyPath b dir)
          (keyFile lib k')
        created := Function.update (Function.update (fun _ => none) a (some k)) b (some k') } := by
  have free := saveable_emptyDisk component dir
  have taken : Saveable (emptyDisk.setFile (keyPath a dir) (keyFile lib k)) (keyPath b dir) := by
    by_cases same : keyPath b dir = keyPath a dir
    · rw [same]
      exact saveable_setFile k free
    · exact (setFile_elsewhere same _ _).symm.saveable (saveable_emptyDisk component' dir)
  rw [Ledger.run, List.foldl_cons, take_new k free, List.foldl_cons, take_new k' taken,
    List.foldl_nil]

theorem peer_component : SingleComponent "peer" where
  nonempty := by decide +kernel
  noSeparator := by decide +kernel
  notDot := by decide +kernel
  notDots := by decide +kernel

/-- Names without a dot are their own stems: each loads the key that was created under it. -/
theorem names_are_isolated_node :
    Isolated plainKeys keysDir "node" "peer" emptyDisk
        [⟨"node", .new sampleKey⟩, ⟨"peer", .new otherKey⟩] ∧
      ∀ name k, (name, k) ∈ [("node", sampleKey), ("peer", otherKey)] →
        IdentityManager.load plainKeys name keysDir (Ledger.run plainKeys keysDir emptyDisk
            [⟨"node", .new sampleKey⟩, ⟨"peer", .new otherKey⟩]).fs =
          .ok (some { name, dir := keysDir, identity := .ed25519 k }) := by
  have : Nonempty { b : Bytes // b.length = 64 } := ⟨sampleKey⟩
  have stems : fileStem (DagCbor.utf8 "node") ≠ fileStem (DagCbor.utf8 "peer") := by decide +kernel
  obtain ⟨node, peer⟩ :=
    (names_are_isolated_iff plainKeys_lawful keysDir node_component peer_component).mpr stems
      emptyDisk [⟨"node", .new sampleKey⟩, ⟨"peer", .new otherKey⟩] (by simp)
  have ran : Ledger.run plainKeys keysDir emptyDisk
      [⟨"node", .new sampleKey⟩, ⟨"peer", .new otherKey⟩] = _ :=
    run_new_new plainKeys node_component peer_component sampleKey otherKey
  refine ⟨node, ?_⟩
  intro name k created
  simp only [List.mem_cons, Prod.mk.injEq, List.not_mem_nil, or_false] at created
  rcases created with ⟨rfl, rfl⟩ | ⟨rfl, rfl⟩
  · exact node.latest _ (by rw [ran]; rfl)
  · exact peer.latest _ (by rw [ran]; rfl)

/-- Two keys for one path: the second is loaded under the first name. -/
theorem run_shared (lib : KeyLib K) {a b : String} {dir : Path} (component : SingleComponent a)
    (component' : SingleComponent b) (same : keyPath a dir = keyPath b dir) (names : a ≠ b)
    (k k' : K) :
    (Ledger.run lib dir emptyDisk [⟨a, .new k⟩, ⟨b, .new k'⟩]).fs.entries (keyPath a dir) =
        some (.file (keyFile lib k')) ∧
      (Ledger.run lib dir emptyDisk [⟨a, .new k⟩, ⟨b, .new k'⟩]).created a = some k := by
  rw [run_new_new lib component component']
  constructor
  · rw [same, setFile_entries]
  · dsimp only
    rw [Function.update_of_ne names, Function.update_self]

/-- `node.1` and `node.2` have one key file between them. -/
theorem dotted_names_share_a_key :
    SingleComponent "node.1" ∧ SingleComponent "node.2" ∧
      (Ledger.run plainKeys keysDir emptyDisk
        [⟨"node.1", .new sampleKey⟩, ⟨"node.2", .new otherKey⟩]).created "node.1" = some sampleKey ∧
      IdentityManager.load plainKeys "node.1" keysDir (Ledger.run plainKeys keysDir emptyDisk
          [⟨"node.1", .new sampleKey⟩, ⟨"node.2", .new otherKey⟩]).fs =
        .ok (some { name := "node.1", dir := keysDir, identity := .ed25519 otherKey }) ∧
      ¬ Isolated plainKeys keysDir "node.1" "node.2" emptyDisk
          [⟨"node.1", .new sampleKey⟩, ⟨"node.2", .new otherKey⟩] := by
  have first : SingleComponent "node.1" := ⟨by decide +kernel, by decide +kernel, by decide +kernel,
    by decide +kernel⟩
  have second : SingleComponent "node.2" := ⟨by decide +kernel, by decide +kernel, by decide +kernel,
    by decide +kernel⟩
  have same : keyPath "node.1" keysDir = keyPath "node.2" keysDir := by decide +kernel
  obtain ⟨entry, created⟩ := run_shared plainKeys first second same (by decide) sampleKey otherKey
  have loaded : IdentityManager.load plainKeys "node.1" keysDir (Ledger.run plainKeys keysDir emptyDisk
      [⟨"node.1", .new sampleKey⟩, ⟨"node.2", .new otherKey⟩]).fs =
        .ok (some { name := "node.1", dir := keysDir, identity := .ed25519 otherKey }) := by
    rw [IdentityManager.load, load_keyFile plainKeys_lawful entry]
  refine ⟨first, second, created, loaded, fun isolated => ?_⟩
  have latest := loaded.symm.trans (isolated.latest sampleKey created)
  simp only [Outcome.ok.injEq, Option.some.injEq, IdentityManager.mk.injEq, Keypair.ed25519.injEq,
    true_and, and_true] at latest
  exact absurd latest (by decide)

end Ursa.Identity
