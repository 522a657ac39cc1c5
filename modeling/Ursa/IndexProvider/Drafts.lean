/-
# IndexProvider.Drafts — what an advertisement is made of, from `create` to `publish`

Three operations fill an advertisement in at different times, and the chunks of many
advertisements grow interleaved in one blockstore, where equal chunks coincide.  `Draft`
says what a pending advertisement is meant to be: what `create` was given, and the
payloads that `add_chunk` took under its id, newest first.  A `Journal` watches a run of
the provider and keeps the drafts from the results of the calls; the code never sees it.

`Refines` relates the two in every state of every run: the pending advertisements are
the drafts, each draft's payloads are what a walk from its `Entries` link finds, and what
`publish` stored is a draft linked to the head before it and signed.

* `pending_ads_do_not_mix` — what is found under an advertisement is what was added
  under its own id.
* `published_ads_verify` — every stored advertisement opens under the provider's key to
  the digest of its own fields.
-/
import Ursa.IndexProvider.Chain

namespace Ursa.IndexProvider

set_option autoImplicit false

open Ursa.Theory (Outcome)
open Ursa.Theory.Run
open Ursa.Theory.LinkedChain

variable {K : Type}

/-! ## Drafts -/

structure Draft where
  /-- The advertisement as it was handed to `create`. -/
  source : Advertisement
  /-- The payloads that were added, newest first, each with the `Entries` it left. -/
  added : List (Bytes × Option Ipld)

namespace Draft

/-- What the last successful `add_chunk` left in `Entries`. -/
def link (d : Draft) : Option Ipld := d.added.head?.bind Prod.snd

/-- The pending advertisement. -/
def ad (d : Draft) : Advertisement := { d.source with entries := d.link }

end Draft

/-- A successful `publish`: the draft, the head before it, and what was stored where. -/
structure Publication where
  id : Nat
  draft : Draft
  head : Option Cid
  cid : Cid
  ad : Advertisement

structure Journal (K : Type) where
  world : World K
  drafts : Nat → Option Draft
  /-- Newest first. -/
  publications : List Publication

namespace Journal

def new (p : Provider K) (blockstore : Cid → Option Ipld) : Journal K :=
  { world := World.new p blockstore, drafts := fun _ => none, publications := [] }

/-- What an observer of the call notes; `w` is the provider after it. -/
def note (deps : Deps K) (j : Journal K) (w : World K) : Call → Journal K
  | .clone _ => { j with world := w }
  | .create _ ad id =>
      { j with world := w, drafts := Function.update j.drafts id (some { source := ad, added := [] }) }
  | .addChunk _ bytes id fault =>
      if (addChunk deps fault bytes id j.world.shared).1.isOk then
        let link := (w.shared.tempAds id).bind Advertisement.entries
        { j with
          world := w
          drafts := Function.update j.drafts id
            ((j.drafts id).map fun d => { d with added := (bytes, link) :: d.added }) }
      else { j with world := w }
  | .publish k id faults =>
      { world := w
        drafts := Function.update j.drafts id none
        publications :=
          match j.world.clones[k]?, j.drafts id, w.shared.published with
          | some p, some draft, (cid, ad) :: _ =>
              if (publish deps p faults id j.world.shared).1.isOk then
                { id, draft, head := j.world.shared.head, cid, ad } :: j.publications
              else j.publications
          | _, _, _ => j.publications }

def step (deps : Deps K) (j : Journal K) (call : Call) : Option (Journal K) :=
  (j.world.step deps call).map fun w => j.note deps w call

theorem note_world (deps : Deps K) (j : Journal K) (w : World K) (call : Call) :
    (j.note deps w call).world = w := by
  cases call with
  | addChunk k bytes id fault =>
      simp only [note]
      split <;> rfl
  | _ => rfl

/-- The journal only watches: every run of the provider is watched by one. -/
theorem of_run {deps : Deps K} {j : Journal K} {calls : List Call} {w : World K}
    (run : exec (World.step deps) j.world calls = some w) :
    ∃ j', exec (step deps) j calls = some j' ∧ j'.world = w := by
  induction calls generalizing j with
  | nil => exact ⟨j, rfl, Option.some.inj run⟩
  | cons call rest ih =>
      obtain ⟨m, moved, run⟩ := (exec_cons_iff _).mp run
      have taken : j.step deps call = some (j.note deps m call) := by simp [step, moved]
      obtain ⟨j', later, same⟩ := ih (j := j.note deps m call) (by rw [note_world]; exact run)
      exact ⟨j', (exec_cons_iff _).mpr ⟨_, taken, later⟩, same⟩

end Journal

/-! ## The invariant -/

section Invariant

variable (deps : Deps K) (p : Provider K)

/-- A walk from the draft's link finds its payloads, decoded, newest first. -/
def Draft.Filled (blockstore : Cid → Option Ipld) (d : Draft) : Prop :=
  ∃ link chunks, d.link = Option.map Ipld.link link ∧ EntryChain deps blockstore link chunks ∧
    List.Forall₂ (fun a (c : Cid × EntryChunk) => deps.fromSlice a.1 = .ok c.2.entries)
      d.added chunks

structure Publication.Sound (blockstore : Cid → Option Ipld) (r : Publication) : Prop where
  addressed : deps.objCid r.ad.toIpld = some r.cid
  stored : blockstore r.cid = some r.ad.toIpld
  sealed : r.draft.ad.seal deps p.keypair r.head = .ok r.ad
  filled : r.draft.Filled deps blockstore

structure Refines (j : Journal K) : Prop where
  clones : ∀ q ∈ j.world.clones, q = p
  pending : ∀ id, j.world.shared.tempAds id = (j.drafts id).map Draft.ad
  filled : ∀ id d, j.drafts id = some d → d.Filled deps j.world.shared.blockstore
  recorded : j.publications.map (fun r => (r.cid, r.ad)) = j.world.shared.published
  sound : ∀ r ∈ j.publications, r.Sound deps p j.world.shared.blockstore
  /-- Nothing was published before the first publication. -/
  headless : j.publications = [] → j.world.shared.head = none
  oldest : ∀ r, j.publications.getLast? = some r → r.head = none

end Invariant

section Steps

variable {deps : Deps K} {p : Provider K} {j : Journal K}

theorem Draft.Filled.keep {blockstore blockstore' : Cid → Option Ipld} {d : Draft}
    (filled : d.Filled deps blockstore) (keeps : Keeps deps.objCid blockstore blockstore') :
    d.Filled deps blockstore' := by
  obtain ⟨link, chunks, own, chain, decoded⟩ := filled
  exact ⟨link, chunks, own, chain.keep keeps, decoded⟩

/-- Adding a payload puts its chunk in front. -/
theorem Draft.Filled.add (collisionFree : CollisionFree deps.objCid)
    {blockstore : Cid → Option Ipld} {d : Draft} (filled : d.Filled deps blockstore) {bytes : Bytes}
    {entries : List Ipld} {cid : Cid} (decoded : deps.fromSlice bytes = .ok entries)
    (own : deps.objCid (EntryChunk.new entries d.link).toIpld = some cid) :
    Draft.Filled deps (Function.update blockstore cid (some (EntryChunk.new entries d.link).toIpld))
      { d with added := (bytes, some (.link cid)) :: d.added } := by
  obtain ⟨link, chunks, same, chain, earlier⟩ := filled
  refine ⟨some cid, (cid, EntryChunk.new entries d.link) :: chunks, rfl, ?_, .cons decoded earlier⟩
  apply chain.cons collisionFree own
  rw [EntryChunk.new, same, Ipld.asLink_map_link]

theorem Publication.Sound.keep {blockstore blockstore' : Cid → Option Ipld} {r : Publication}
    (sound : r.Sound deps p blockstore) (keeps : Keeps deps.objCid blockstore blockstore') :
    r.Sound deps p blockstore' :=
  ⟨sound.addressed, keeps _ _ sound.addressed sound.stored, sound.sealed, sound.filled.keep keeps⟩

namespace Refines

theorem start (deps : Deps K) (p : Provider K) (blockstore : Cid → Option Ipld) :
    Refines deps p (Journal.new p blockstore) where
  clones q member := by simpa [Journal.new, World.new] using member
  pending id := rfl
  filled id d impossible := by simp [Journal.new] at impossible
  recorded := rfl
  sound r impossible := by simp [Journal.new] at impossible
  headless _ := rfl
  oldest r impossible := by simp [Journal.new] at impossible

theorem clone (refines : Refines deps p j) {k : Nat} {w : World K}
    (moved : j.world.step deps (.clone k) = some w) : Refines deps p (j.note deps w (.clone k)) := by
  obtain ⟨q, found, rfl⟩ := Option.map_eq_some_iff.mp moved
  refine ⟨?_, refines.pending, refines.filled, refines.recorded, refines.sound, refines.headless,
    refines.oldest⟩
  intro q' member
  rcases List.mem_append.mp member with old | new
  · exact refines.clones q' old
  · rw [List.mem_singleton.mp new]
    exact refines.clones q (List.mem_of_getElem? found)

theorem create (refines : Refines deps p j) {k id : Nat} {ad : Advertisement} {w : World K}
    (moved : j.world.step deps (.create k ad id) = some w) :
    Refines deps p (j.note deps w (.create k ad id)) := by
  obtain ⟨q, found, rfl⟩ := Option.map_eq_some_iff.mp moved
  refine ⟨refines.clones, ?_, ?_, refines.recorded, refines.sound, refines.headless,
    refines.oldest⟩
  · intro id'
    by_cases own : id' = id
    · subst own
      simp [Journal.note, IndexProvider.create, Draft.ad, Draft.link]
    · simp [Journal.note, IndexProvider.create, Function.update_of_ne own, refines.pending id']
  · intro id' d found
    by_cases own : id' = id
    · subst own
      simp only [Journal.note, Function.update_self, Option.some.injEq] at found
      subst found
      exact ⟨none, [], rfl, .nil, .nil⟩
    · simp only [Journal.note, Function.update_of_ne own] at found
      exact refines.filled id' d found

theorem addChunk (collisionFree : CollisionFree deps.objCid) (refines : Refines deps p j)
    {k id : Nat} {bytes : Bytes} {fault : Option String} {w : World K}
    (moved : j.world.step deps (.addChunk k bytes id fault) = some w) :
    Refines deps p (j.note deps w (.addChunk k bytes id fault)) := by
  obtain ⟨q, found, rfl⟩ := Option.map_eq_some_iff.mp moved
  rcases addChunk_cases deps fault bytes id j.world.shared with
    ⟨entries, ad, cid, decoded, pending, -, own, result⟩ | ⟨failed, unchanged⟩
  · obtain ⟨d, drafted, rfl⟩ := Option.map_eq_some_iff.mp ((refines.pending id).symm.trans pending)
    have keeps : Keeps deps.objCid j.world.shared.blockstore
        (Function.update j.world.shared.blockstore cid (some (EntryChunk.new entries d.link).toIpld)) :=
      .put collisionFree own
    simp only [Journal.note, result, Outcome.isOk, if_true, Function.update_self, Option.bind_some]
    refine ⟨refines.clones, ?_, ?_, refines.recorded, fun r member => (refines.sound r member).keep keeps,
      refines.headless, refines.oldest⟩
    · intro id'
      by_cases same : id' = id
      · subst same
        simp [drafted, Draft.ad, Draft.link]
      · simp [Function.update_of_ne same, refines.pending id']
    · intro id' d' listed
      by_cases same : id' = id
      · subst same
        simp only [Function.update_self, drafted, Option.map_some, Option.some.injEq] at listed
        subst listed
        exact (refines.filled id' d drafted).add collisionFree decoded own
      · simp only [Function.update_of_ne same] at listed
        exact (refines.filled id' d' listed).keep keeps
  · have notOk : (IndexProvider.addChunk deps fault bytes id j.world.shared).1.isOk = false := by
      cases outcome : (IndexProvider.addChunk deps fault bytes id j.world.shared).1 with
      | ok value => exact absurd outcome failed
      | _ => rfl
    simp only [Journal.note, notOk, Bool.false_eq_true, if_false, unchanged]
    exact ⟨refines.clones, refines.pending, refines.filled, refines.recorded, refines.sound,
      refines.headless, refines.oldest⟩

/-- What is left of the drafts when one of them is gone. -/
theorem pending_removed (refines : Refines deps p j) (id id' : Nat) :
    Function.update j.world.shared.tempAds id none id' =
      (Function.update j.drafts id none id').map Draft.ad := by
  by_cases same : id' = id
  · subst same
    simp
  · simp [Function.update_of_ne same, refines.pending id']

theorem filled_removed (refines : Refines deps p j) {id id' : Nat} {d : Draft}
    (found : Function.update j.drafts id none id' = some d) :
    d.Filled deps j.world.shared.blockstore := by
  by_cases same : id' = id
  · subst same
    simp at found
  · rw [Function.update_of_ne same] at found
    exact refines.filled id' d found

/-- A `publish` that fails loses the head and the draft, and publishes nothing. -/
theorem failedPublish (refines : Refines deps p j) (id : Nat) :
    Refines deps p
      { j with
        world := { j.world with shared := { j.world.shared with
          head := none, tempAds := Function.update j.world.shared.tempAds id none } }
        drafts := Function.update j.drafts id none } :=
  ⟨refines.clones, refines.pending_removed id, fun _ _ => refines.filled_removed, refines.recorded,
    refines.sound, fun _ => rfl, refines.oldest⟩

theorem publish (collisionFree : CollisionFree deps.objCid) (refines : Refines deps p j)
    {k id : Nat} {faults : WriteFaults} {w : World K}
    (moved : j.world.step deps (.publish k id faults) = some w) :
    Refines deps p (j.note deps w (.publish k id faults)) := by
  obtain ⟨q, found, rfl⟩ := Option.map_eq_some_iff.mp moved
  obtain rfl := refines.clones q (List.mem_of_getElem? found)
  rcases publish_cases deps q faults id j.world.shared with
    ⟨ad, cid, publishes, result⟩ | ⟨absent, result⟩ | ⟨-, -, e, result⟩
  · obtain ⟨pending, listed, sealed⟩ := publishes.sealed
    obtain ⟨d, drafted, rfl⟩ := Option.map_eq_some_iff.mp ((refines.pending id).symm.trans listed)
    have keeps : Keeps deps.objCid j.world.shared.blockstore
        (Function.update j.world.shared.blockstore cid (some ad.toIpld)) :=
      .put collisionFree publishes.addressed
    have sound : Publication.Sound deps q
        (Function.update j.world.shared.blockstore cid (some ad.toIpld))
        { id, draft := d, head := j.world.shared.head, cid, ad } :=
      ⟨publishes.addressed, Function.update_self .., sealed, (refines.filled id d drafted).keep keeps⟩
    simp only [Journal.note, result, found, drafted, afterPublish, Outcome.isOk, if_true]
    refine ⟨refines.clones, refines.pending_removed id,
      fun _ _ there => (refines.filled_removed there).keep keeps, ?_, ?_, by simp, ?_⟩
    · simp [refines.recorded]
    · intro r member
      rcases List.mem_cons.mp member with rfl | member
      · exact sound
      · exact (refines.sound r member).keep keeps
    · intro r last
      cases earlier : j.publications with
      | nil =>
          rw [earlier, List.getLast?_singleton, Option.some.injEq] at last
          rw [← last]
          exact refines.headless earlier
      | cons r' rest =>
          rw [earlier, List.getLast?_cons_cons, ← earlier] at last
          exact refines.oldest r last
  · -- the id is not pending: nothing is removed
    have nothing : Function.update j.world.shared.tempAds id none = j.world.shared.tempAds := by
      rw [← absent, Function.update_eq_self]
    have failed := refines.failedPublish id
    rw [nothing] at failed
    have undrafted : j.drafts id = none := by
      have := refines.pending id
      rwa [absent, eq_comm, Option.map_eq_none_iff] at this
    simpa only [Journal.note, result, found, undrafted] using failed
  · have failed := refines.failedPublish id
    have notes : (j.note deps { j.world with shared := (IndexProvider.publish deps q faults id
        j.world.shared).2 } (.publish k id faults)).publications = j.publications := by
      simp only [Journal.note, found]
      split
      · rename_i same _ _
        cases same
        simp [result, Outcome.isOk]
      · rfl
    simp only [Journal.note, result] at notes ⊢
    rw [notes]
    exact failed

theorem step (collisionFree : CollisionFree deps.objCid) (refines : Refines deps p j) {call : Call}
    {j' : Journal K} (taken : j.step deps call = some j') : Refines deps p j' := by
  obtain ⟨w, moved, rfl⟩ := Option.map_eq_some_iff.mp taken
  cases call with
  | clone k => exact refines.clone moved
  | create k ad id => exact refines.create moved
  | addChunk k bytes id fault => exact refines.addChunk collisionFree moved
  | publish k id faults => exact refines.publish collisionFree moved

end Refines

/-- The provider refines its drafts in every state of every run. -/
theorem refines_of_run (collisionFree : CollisionFree deps.objCid)
    {blockstore : Cid → Option Ipld} {calls : List Call}
    (run : exec (Journal.step deps) (Journal.new p blockstore) calls = some j) :
    Refines deps p j := by
  refine exec_invariant (I := Refines deps p) ?_ (.start deps p blockstore)
    (meets_of_forall (fun _ _ _ => trivial) _) run
  intro j call j' refines _ taken
  exact refines.step collisionFree taken

/-! ## Pending advertisements do not mix -/

/-- The payload of an `add_chunk`. -/
def Call.Carries (P : Bytes → Prop) : Call → Prop
  | .addChunk _ bytes _ _ => P bytes
  | _ => True

/-- Every payload of a draft was carried by some call. -/
theorem payloads_of_run {P : Bytes → Prop} {blockstore : Cid → Option Ipld} {calls : List Call}
    (carried : ∀ call ∈ calls, call.Carries P)
    (run : exec (Journal.step deps) (Journal.new p blockstore) calls = some j) :
    (∀ id d, j.drafts id = some d → ∀ a ∈ d.added, P a.1) ∧
      ∀ r ∈ j.publications, ∀ a ∈ r.draft.added, P a.1 := by
  refine exec_invariant (I := fun j : Journal K =>
    (∀ id d, j.drafts id = some d → ∀ a ∈ d.added, P a.1) ∧
      ∀ r ∈ j.publications, ∀ a ∈ r.draft.added, P a.1) ?_ ?_
    (meets_of_forall (fun call member _ => carried call member) _) run
  · rintro j call j' ⟨drafts, publications⟩ carries taken
    obtain ⟨w, moved, rfl⟩ := Option.map_eq_some_iff.mp taken
    -- A draft is new, or grows by the payload of this call, or is as it was.
    have updated : ∀ {id : Nat} {new : Option Draft}, (∀ d, new = some d → ∀ a ∈ d.added, P a.1) →
        ∀ id' d, Function.update j.drafts id new id' = some d → ∀ a ∈ d.added, P a.1 := by
      intro id new holds id' d found
      by_cases same : id' = id
      · subst same
        rw [Function.update_self] at found
        exact holds d found
      · rw [Function.update_of_ne same] at found
        exact drafts id' d found
    cases call with
    | clone k => exact ⟨drafts, publications⟩
    | create k ad id =>
        refine ⟨updated ?_, publications⟩
        intro d new
        cases new
        simp
    | addChunk k bytes id fault =>
        simp only [Journal.note]
        split
        · refine ⟨updated ?_, publications⟩
          intro d new
          obtain ⟨d', found, rfl⟩ := Option.map_eq_some_iff.mp new
          exact List.forall_mem_cons.mpr ⟨carries, drafts id d' found⟩
        · exact ⟨drafts, publications⟩
    | publish k id faults =>
        simp only [Journal.note]
        refine ⟨updated (by simp), ?_⟩
        split
        · rename_i found _
          split
          · exact List.forall_mem_cons.mpr ⟨drafts id _ found, publications⟩
          · exact publications
        · exact publications
  · exact ⟨by simp [Journal.new], by simp [Journal.new]⟩

/-- `from_slice` inverts `to_vec` on lists of byte strings. -/
def ReadsBack (deps : Deps K) : Prop :=
  ∀ (entries : List Bytes) bytes, deps.toVec (entries.map .bytes) = .ok bytes →
    deps.fromSlice bytes = .ok (entries.map .bytes)

/-- The payload is an encoded list of byte strings. -/
def Encoded (deps : Deps K) (bytes : Bytes) : Prop :=
  ∃ entries : List Bytes, deps.toVec (entries.map .bytes) = .ok bytes

/-- The lists that were encoded into the payloads added to a draft, newest first. -/
def Draft.Lists (deps : Deps K) (d : Draft) (lists : List (List Bytes)) : Prop :=
  List.Forall₂ (fun a (entries : List Bytes) => deps.toVec (entries.map .bytes) = .ok a.1)
    d.added lists

/-- Walking from the advertisement's `Entries` link through `Next` meets chunks with
these lists of entries, no chunk twice, and ends there. -/
def Yields (deps : Deps K) (blockstore : Cid → Option Ipld) (ad : Advertisement)
    (lists : List (List Bytes)) : Prop :=
  ∃ chunks, EntryChain deps blockstore (ad.entries.bind Ipld.asLink) chunks ∧
    (chunks.map Prod.fst).Nodup ∧
    chunks.map (fun c => c.2.entries) = lists.map fun entries => entries.map .bytes

theorem lists_of_decoded (readsBack : ReadsBack deps) {added : List (Bytes × Option Ipld)}
    {chunks : List (Cid × EntryChunk)}
    (decoded : List.Forall₂ (fun a (c : Cid × EntryChunk) =>
      deps.fromSlice a.1 = .ok c.2.entries) added chunks)
    (encoded : ∀ a ∈ added, Encoded deps a.1) :
    ∃ lists : List (List Bytes),
      List.Forall₂ (fun a (entries : List Bytes) => deps.toVec (entries.map .bytes) = .ok a.1)
        added lists ∧
      chunks.map (fun c => c.2.entries) = lists.map fun entries => entries.map .bytes := by
  induction decoded with
  | nil => exact ⟨[], .nil, rfl⟩
  | @cons a c added chunks here _ ih =>
      obtain ⟨entries, written⟩ := encoded a (by simp)
      obtain ⟨lists, listed, same⟩ := ih fun a member => encoded a (by simp [member])
      have own : c.2.entries = entries.map Ipld.bytes :=
        Except.ok.inj (here.symm.trans (readsBack entries a.1 written))
      exact ⟨entries :: lists, .cons written listed, by rw [List.map_cons, List.map_cons, own, same]⟩

theorem Draft.Filled.yields (readsBack : ReadsBack deps) {blockstore : Cid → Option Ipld}
    {d : Draft} (filled : d.Filled deps blockstore) (encoded : ∀ a ∈ d.added, Encoded deps a.1)
    {ad : Advertisement} (own : ad.entries = d.link) :
    ∃ lists, d.Lists deps lists ∧ Yields deps blockstore ad lists := by
  obtain ⟨link, chunks, linked, chain, decoded⟩ := filled
  obtain ⟨lists, listed, same⟩ := lists_of_decoded readsBack decoded encoded
  refine ⟨lists, listed, chunks, ?_, ?_, same⟩
  · rw [own, linked, Ipld.asLink_map_link]
    exact chain
  · have distinct := chain.walk.nodup
    rwa [List.map_map] at distinct

end Steps

/-- **Pending advertisements do not mix.**  After any calls whose payloads are encoded
lists of entries, walking from the `Entries` link of an advertisement, pending or
published, finds the lists that were added under its own id since it was created, newest
first, and nothing else; and an `add_chunk` that returns an error changes nothing. -/
theorem pending_ads_do_not_mix (deps : Deps K) (collisionFree : CollisionFree deps.objCid)
    (readsBack : ReadsBack deps) (p : Provider K) (blockstore : Cid → Option Ipld)
    (calls : List Call) (encoded : ∀ call ∈ calls, call.Carries (Encoded deps)) (w : World K)
    (run : exec (World.step deps) (World.new p blockstore) calls = some w) :
    ∃ j, exec (Journal.step deps) (Journal.new p blockstore) calls = some j ∧ j.world = w ∧
      (∀ id ad, w.shared.tempAds id = some ad → ∃ d lists, j.drafts id = some d ∧
        d.Lists deps lists ∧ Yields deps w.shared.blockstore ad lists) ∧
      (∀ e ∈ w.shared.published, ∃ r ∈ j.publications, (r.cid, r.ad) = e ∧
        ∃ lists, r.draft.Lists deps lists ∧ Yields deps w.shared.blockstore e.2 lists) ∧
      ∀ bytes id fault, (addChunk deps fault bytes id w.shared).1.IsErr →
        (addChunk deps fault bytes id w.shared).2 = w.shared := by
  obtain ⟨j, watched, rfl⟩ := Journal.of_run (j := Journal.new p blockstore) run
  have refines := refines_of_run collisionFree watched
  obtain ⟨drafts, publications⟩ := payloads_of_run encoded watched
  refine ⟨j, watched, rfl, ?_, ?_, ?_⟩
  · intro id ad pending
    obtain ⟨d, drafted, rfl⟩ := Option.map_eq_some_iff.mp ((refines.pending id).symm.trans pending)
    obtain ⟨lists, listed, yields⟩ :=
      (refines.filled id d drafted).yields readsBack (drafts id d drafted)
        (rfl : d.ad.entries = d.link)
    exact ⟨d, lists, drafted, listed, yields⟩
  · intro e published
    rw [← refines.recorded] at published
    obtain ⟨r, member, same⟩ := List.mem_map.mp published
    have sound := refines.sound r member
    obtain ⟨sig, sealed⟩ := Advertisement.seal_eq sound.sealed
    have own : r.ad.entries = r.draft.link := by rw [sealed]; rfl
    obtain ⟨lists, listed, yields⟩ :=
      sound.filled.yields readsBack (publications r member) own
    refine ⟨r, member, same, lists, listed, ?_⟩
    rw [← same]
    exact yields
  · intro bytes id fault failed
    rcases addChunk_cases deps fault bytes id j.world.shared with
      ⟨entries, ad, cid, -, -, -, -, result⟩ | ⟨-, unchanged⟩
    · rw [result] at failed
      exact absurd failed (Outcome.isErr_ok ())
    · exact unchanged

theorem plainDeps_readsBack : ReadsBack plainDeps := by
  intro entries bytes written
  have read : DagCbor.fromSlice bytes = .ok (.list (entries.map .bytes)) :=
    DagCbor.fromSlice_toVec written
  simp only [plainDeps, read]

/-- Two advertisements are filled in turn, with one list in common; the first one is
published, and a list for it comes too late. -/
def interleavedCalls : List Call :=
  [.create 0 sampleAd 7, .create 0 sampleAd 8, .addChunk 0 [0x81, 0x42, 0x12, 0x20] 7 none,
    .addChunk 0 [0x81, 0x42, 0x12, 0x20] 8 none, .addChunk 0 [0x80] 7 none, .publish 0 7 .none,
    .addChunk 0 [0x80] 7 none]

theorem interleavedCalls_encoded :
    ∀ call ∈ interleavedCalls, call.Carries (Encoded plainDeps) := by
  have one : Encoded plainDeps [0x81, 0x42, 0x12, 0x20] := ⟨[[0x12, 0x20]], rfl⟩
  have empty : Encoded plainDeps [0x80] := ⟨[], rfl⟩
  simp [interleavedCalls, Call.Carries, one, empty]

theorem pending_ads_do_not_mix_sample :
    ∃ w, exec (World.step plainDeps) (World.new sampleProvider fun _ => none) interleavedCalls =
        some w ∧
      (w.shared.tempAds 8).isSome = true ∧ w.shared.published.length = 1 ∧
      ∀ ad, w.shared.tempAds 8 = some ad →
        ∃ lists, Yields plainDeps w.shared.blockstore ad lists := by
  have evaluated : (exec (World.step plainDeps) (World.new sampleProvider fun _ => none)
      interleavedCalls).map (fun w => ((w.shared.tempAds 8).isSome, w.shared.published.length)) =
      some (true, 1) := by decide +kernel
  obtain ⟨w, run, facts⟩ := Option.map_eq_some_iff.mp evaluated
  simp only [Prod.mk.injEq] at facts
  obtain ⟨j, -, -, pending, -, -⟩ := pending_ads_do_not_mix plainDeps plainDeps_collisionFree
    plainDeps_readsBack sampleProvider _ interleavedCalls interleavedCalls_encoded w run
  refine ⟨w, run, facts.1, facts.2, ?_⟩
  intro ad found
  obtain ⟨d, lists, -, -, yields⟩ := pending 8 ad found
  exact ⟨lists, yields⟩

/-! ## Published advertisements verify -/

section Verify

variable {deps : Deps K}

/-- The published advertisement, as a reader of the blockstore finds it. -/
structure Publication.Verifies {P : Type} (deps : Deps K) (publicKey : P)
    (openEnvelope : Bytes → String → String → Except String (Bytes × P))
    (blockstore : Cid → Option Ipld) (r : Publication) : Prop where
  stored : ∃ o, blockstore r.cid = some o ∧ Advertisement.ofIpld o = some r.ad
  /-- The envelope opens under the provider's key to the digest of the stored fields. -/
  signature : ∃ envelope payload, r.ad.signature = .bytes envelope ∧
    openEnvelope envelope adSignatureDomain adSignatureCodec = .ok (payload, publicKey) ∧
    r.ad.sigPayload deps = .ok payload
  /-- The head just before the publish. -/
  previousID : r.ad.previousID = r.head.map Ipld.link
  /-- What the last successful `add_chunk` left. -/
  entries : r.ad.entries = r.draft.link

theorem Publication.Sound.verifies {P : Type} {publicKey : K → P}
    {openEnvelope : Bytes → String → String → Except String (Bytes × P)}
    (opens : ∀ key domain codec payload envelope,
      deps.signedEnvelope key domain codec payload = .ok envelope →
        openEnvelope envelope domain codec = .ok (payload, publicKey key))
    {p : Provider K} {blockstore : Cid → Option Ipld} {r : Publication}
    (sound : r.Sound deps p blockstore) :
    r.Verifies deps (publicKey p.keypair) openEnvelope blockstore := by
  obtain ⟨envelope, payload, sealed, digest, signed⟩ := Advertisement.seal_signed sound.sealed
  have previousID : r.ad.previousID = r.head.map Ipld.link := by rw [sealed]
  have entries : r.ad.entries = r.draft.link := by
    rw [sealed]
    rfl
  obtain ⟨link, -, linked, -⟩ := sound.filled
  refine ⟨⟨r.ad.toIpld, sound.stored, ?_⟩, ⟨envelope, payload, ?_, ?_, digest⟩, previousID, entries⟩
  · apply Advertisement.ofIpld_toIpld
    · rw [previousID]
      cases r.head <;> simp
    · rw [entries, linked]
      cases link <;> simp
  · rw [sealed]
  · exact opens _ _ _ _ _ signed

end Verify

/-- **Every published advertisement verifies against itself.**  In every run: what a
successful `publish` stored can be read back, its signature opens under the provider's
public key to the digest of its own fields, it links to the head before it (to none, if
it is the first) and to the newest chunk added to it; and while an advertisement built by
`Advertisement::new` is pending, there is a digest to sign. -/
theorem published_ads_verify {P : Type} (deps : Deps K) (collisionFree : CollisionFree deps.objCid)
    (publicKey : K → P) (openEnvelope : Bytes → String → String → Except String (Bytes × P))
    (opens : ∀ key domain codec payload envelope,
      deps.signedEnvelope key domain codec payload = .ok envelope →
        openEnvelope envelope domain codec = .ok (payload, publicKey key))
    (p : Provider K) (blockstore : Cid → Option Ipld) (calls : List Call) (w : World K)
    (run : exec (World.step deps) (World.new p blockstore) calls = some w) :
    ∃ j, exec (Journal.step deps) (Journal.new p blockstore) calls = some j ∧ j.world = w ∧
      (∀ e ∈ w.shared.published, ∃ r ∈ j.publications, (r.cid, r.ad) = e ∧
        r.Verifies deps (publicKey p.keypair) openEnvelope w.shared.blockstore) ∧
      (∀ r, j.publications.getLast? = some r → r.ad.previousID = none) ∧
      ∀ id ad, w.shared.tempAds id = some ad → ∃ d, j.drafts id = some d ∧
        ((∃ contextId provider addresses isRm,
            d.source = Advertisement.new contextId provider addresses isRm) →
          ∃ payload, Advertisement.sigPayload deps
            { ad with previousID := w.shared.head.map Ipld.link } = .ok payload) := by
  obtain ⟨j, watched, rfl⟩ := Journal.of_run (j := Journal.new p blockstore) run
  have refines := refines_of_run collisionFree watched
  refine ⟨j, watched, rfl, ?_, ?_, ?_⟩
  · intro e published
    rw [← refines.recorded] at published
    obtain ⟨r, member, same⟩ := List.mem_map.mp published
    exact ⟨r, member, same, (refines.sound r member).verifies opens⟩
  · intro r last
    have member : r ∈ j.publications := List.mem_of_getLast? last
    have verifies := (refines.sound r member).verifies opens
    rw [verifies.previousID, refines.oldest r last]
    rfl
  · intro id ad pending
    obtain ⟨d, drafted, rfl⟩ := Option.map_eq_some_iff.mp ((refines.pending id).symm.trans pending)
    refine ⟨d, drafted, ?_⟩
    rintro ⟨contextId, provider, addresses, isRm, built⟩
    obtain ⟨link, -, linked, -⟩ := refines.filled id d drafted
    apply Advertisement.sigPayload_ok _ rfl linked
    rw [Draft.ad, built]
    rfl

/-- The inverse of `plainDeps`'s envelope. -/
def plainOpen (envelope : Bytes) (domain codec : String) : Except String (Bytes × Unit) :=
  let header := DagCbor.utf8 domain ++ DagCbor.utf8 codec
  if header.isPrefixOf envelope then .ok (envelope.drop header.length, ())
  else .error "invalid envelope"

theorem published_ads_verify_sample :
    ∃ w j r, exec (World.step plainDeps) (World.new sampleProvider fun _ => none) interleavedCalls =
        some w ∧
      exec (Journal.step plainDeps) (Journal.new sampleProvider fun _ => none) interleavedCalls =
        some j ∧ r ∈ j.publications ∧
      r.Verifies plainDeps () plainOpen w.shared.blockstore := by
  have evaluated : (exec (World.step plainDeps) (World.new sampleProvider fun _ => none)
      interleavedCalls).map (fun w => w.shared.published.length) = some 1 := by decide +kernel
  obtain ⟨w, run, count⟩ := Option.map_eq_some_iff.mp evaluated
  have opens : ∀ (key : Unit) domain codec payload envelope,
      plainDeps.signedEnvelope key domain codec payload = .ok envelope →
        plainOpen envelope domain codec = .ok (payload, ()) := by
    intro key domain codec payload envelope signed
    cases signed
    simp [plainOpen, List.isPrefixOf_iff_prefix]
  obtain ⟨j, watched, -, published, -, -⟩ := published_ads_verify plainDeps plainDeps_collisionFree
    (fun _ => ()) plainOpen opens sampleProvider _ interleavedCalls w run
  obtain ⟨e, only⟩ := List.length_eq_one_iff.mp count
  obtain ⟨r, member, -, verifies⟩ := published e (by simp [only])
  exact ⟨w, j, r, run, watched, member, verifies⟩

end Ursa.IndexProvider
