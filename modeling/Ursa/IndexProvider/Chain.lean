/-
# IndexProvider.Chain — the advertisement chain over whole runs of the provider

Any number of clones of one provider create, fill and publish advertisements in any
order (`World`, `Call`).  `ChainInv` is what every run maintains as long as no
`publish` fails: following `PreviousID` from the head visits what was published,
and every advertisement, pending or published, has its whole chunk chain in the
blockstore.

A failing `publish` is another matter.  It takes the head out before anything can
fail and never puts it back, and it drops the pending advertisement when a later
call fails: `failed_publish_intact_iff` says exactly when nothing is lost.
-/
import Ursa.Theory.Run
import Ursa.Theory.LinkedChain
import Ursa.IndexProvider.Provider
import Ursa.IndexProvider.PlainDeps

namespace Ursa.IndexProvider

set_option autoImplicit false

open Ursa.Theory (Outcome)
open Ursa.Theory.Run
open Ursa.Theory.LinkedChain

variable {K : Type}

/-! ## Runs -/

/-- `Clone for Provider`: the by-value fields are copied, the `Arc`s point to the
same state, which is the one `Shared` of the world. -/
def Provider.clone (p : Provider K) : Provider K :=
  { keypair := p.keypair, config := p.config }

/-- One provider with all its clones. -/
structure World (K : Type) where
  clones : List (Provider K)
  shared : Shared

def World.new (p : Provider K) (blockstore : Cid → Option Ipld) : World K :=
  { clones := [p], shared := Shared.new blockstore }

/-- A call on the `k`-th clone, with what the environment answers in it. -/
inductive Call where
  | clone (k : Nat)
  | create (k : Nat) (ad : Advertisement) (id : Nat)
  | addChunk (k : Nat) (bytes : Bytes) (id : Nat) (fault : Option String)
  | publish (k : Nat) (id : Nat) (faults : WriteFaults)

def World.step (deps : Deps K) (w : World K) : Call → Option (World K)
  | .clone k => w.clones[k]?.map fun p => { w with clones := w.clones ++ [p.clone] }
  | .create k ad id => w.clones[k]?.map fun _ => { w with shared := (create ad id w.shared).2 }
  | .addChunk k bytes id fault =>
      w.clones[k]?.map fun _ => { w with shared := (addChunk deps fault bytes id w.shared).2 }
  | .publish k id faults =>
      w.clones[k]?.map fun p => { w with shared := (publish deps p faults id w.shared).2 }

/-! ## Chunk chains -/

/-- Walking from `link` through `Next` visits `chunks`, newest first, all of them
stored under their own CIDs. -/
structure EntryChain (deps : Deps K) (blockstore : Cid → Option Ipld) (link : Option Cid)
    (chunks : List (Cid × EntryChunk)) : Prop where
  walk : Walk (Ipld.linkAt "Next") blockstore link (chunks.map fun e => (e.1, e.2.toIpld))
  addressed : ∀ e ∈ chunks, deps.objCid e.2.toIpld = some e.1

namespace EntryChain

variable {deps : Deps K} {blockstore : Cid → Option Ipld} {link : Option Cid}
  {chunks : List (Cid × EntryChunk)}

theorem nil : EntryChain deps blockstore none [] := ⟨rfl, by simp⟩

theorem addressed_objects (chain : EntryChain deps blockstore link chunks) :
    ∀ e ∈ chunks.map (fun e => (e.1, e.2.toIpld)), deps.objCid e.2 = some e.1 := by
  intro e member
  obtain ⟨x, listed, rfl⟩ := List.mem_map.mp member
  exact chain.addressed x listed

/-- A blockstore that keeps what is stored keeps a chunk chain. -/
theorem keep (chain : EntryChain deps blockstore link chunks) {blockstore' : Cid → Option Ipld}
    (keeps : Keeps deps.objCid blockstore blockstore') :
    EntryChain deps blockstore' link chunks where
  walk := chain.walk.keep chain.addressed_objects keeps
  addressed := chain.addressed

/-- Storing a chunk that links to a chain's newest chunk extends the chain. -/
theorem cons (collisionFree : CollisionFree deps.objCid)
    (chain : EntryChain deps blockstore link chunks) {chunk : EntryChunk} {cid : Cid}
    (own : deps.objCid chunk.toIpld = some cid) (links : chunk.next.bind Ipld.asLink = link) :
    EntryChain deps (Function.update blockstore cid (some chunk.toIpld)) (some cid)
      ((cid, chunk) :: chunks) where
  walk := chain.walk.put_cons collisionFree chain.addressed_objects own (by simpa using links)
  addressed e member := by
    rcases List.mem_cons.mp member with rfl | member
    · exact own
    · exact chain.addressed e member

end EntryChain

/-- The advertisement's whole chunk chain is in the blockstore. -/
def HasChunks (deps : Deps K) (blockstore : Cid → Option Ipld) (ad : Advertisement) : Prop :=
  ∃ chunks, EntryChain deps blockstore (ad.entries.bind Ipld.asLink) chunks

theorem HasChunks.keep {deps : Deps K} {blockstore blockstore' : Cid → Option Ipld}
    {ad : Advertisement} (has : HasChunks deps blockstore ad)
    (keeps : Keeps deps.objCid blockstore blockstore') : HasChunks deps blockstore' ad := by
  obtain ⟨chunks, chain⟩ := has
  exact ⟨chunks, chain.keep keeps⟩

/-! ## The invariant -/

/-- The published advertisements as a reader of the blockstore meets them. -/
def Shared.ads (s : Shared) : List (Cid × Ipld) := s.published.map fun e => (e.1, e.2.toIpld)

structure ChainInv (deps : Deps K) (s : Shared) : Prop where
  chain : Walk (Ipld.linkAt "PreviousID") s.blockstore s.head s.ads
  addressed : ∀ e ∈ s.published, deps.objCid e.2.toIpld = some e.1
  /-- What `publish` wrote into `PreviousID` is a link or nothing. -/
  linked : ∀ e ∈ s.published, ∃ previous : Option Cid, e.2.previousID = previous.map Ipld.link
  pendingChunks : ∀ id ad, s.tempAds id = some ad → HasChunks deps s.blockstore ad
  publishedChunks : ∀ e ∈ s.published, HasChunks deps s.blockstore e.2

namespace ChainInv

variable {deps : Deps K} {s : Shared}

theorem start (blockstore : Cid → Option Ipld) : ChainInv deps (Shared.new blockstore) where
  chain := rfl
  addressed := by simp [Shared.new]
  linked := by simp [Shared.new]
  pendingChunks := by simp [Shared.new]
  publishedChunks := by simp [Shared.new]

theorem addressed_ads (inv : ChainInv deps s) : ∀ e ∈ s.ads, deps.objCid e.2 = some e.1 := by
  intro e member
  obtain ⟨x, listed, rfl⟩ := List.mem_map.mp member
  exact inv.addressed x listed

/-- A blockstore that keeps what is stored keeps the invariant. -/
theorem keep (inv : ChainInv deps s) {blockstore : Cid → Option Ipld}
    (keeps : Keeps deps.objCid s.blockstore blockstore) : ChainInv deps { s with blockstore } where
  chain := inv.chain.keep inv.addressed_ads keeps
  addressed := inv.addressed
  linked := inv.linked
  pendingChunks id ad pending := (inv.pendingChunks id ad pending).keep keeps
  publishedChunks e member := (inv.publishedChunks e member).keep keeps

/-- Replacing one pending advertisement by one whose chunks are stored, or removing it. -/
theorem setPending (inv : ChainInv deps s) (id : Nat) (pending : Option Advertisement)
    (has : ∀ ad, pending = some ad → HasChunks deps s.blockstore ad) :
    ChainInv deps { s with tempAds := Function.update s.tempAds id pending } where
  chain := inv.chain
  addressed := inv.addressed
  linked := inv.linked
  pendingChunks id' ad found := by
    by_cases same : id' = id
    · subst same
      exact has ad (by simpa using found)
    · exact inv.pendingChunks id' ad (by simpa [Function.update_of_ne same] using found)
  publishedChunks := inv.publishedChunks

/-- The queue of roots is no part of the chain. -/
theorem setQueue (inv : ChainInv deps s) (rootCids : List Cid) :
    ChainInv deps { s with rootCids } :=
  ⟨inv.chain, inv.addressed, inv.linked, inv.pendingChunks, inv.publishedChunks⟩

theorem create (inv : ChainInv deps s) (ad : Advertisement) (id : Nat) :
    ChainInv deps (create ad id s).2 :=
  inv.setPending id _ (by
    intro _ same
    cases same
    exact ⟨[], .nil⟩)

theorem addChunk (collisionFree : CollisionFree deps.objCid) (inv : ChainInv deps s)
    (fault : Option String) (bytes : Bytes) (id : Nat) :
    ChainInv deps (addChunk deps fault bytes id s).2 := by
  rcases addChunk_cases deps fault bytes id s with
    ⟨entries, ad, cid, -, pending, -, own, result⟩ | ⟨-, unchanged⟩
  · rw [result]
    apply (inv.keep (.put collisionFree own)).setPending
    intro _ same
    cases same
    obtain ⟨chunks, chain⟩ := inv.pendingChunks id ad pending
    exact ⟨_, chain.cons collisionFree own rfl⟩
  · rw [unchanged]
    exact inv

theorem afterPublish (collisionFree : CollisionFree deps.objCid) (inv : ChainInv deps s)
    {p : Provider K} {faults : WriteFaults} {id : Nat} {ad : Advertisement} {cid : Cid}
    (publishes : Publishes deps p faults id s ad cid) :
    ChainInv deps (afterPublish id s ad cid) := by
  obtain ⟨pending, found, sealing⟩ := publishes.sealed
  obtain ⟨sig, rfl⟩ := Advertisement.seal_eq sealing
  have own := publishes.addressed
  have stored := (inv.keep (.put collisionFree own)).setPending id none (by simp)
  have chunks := (inv.pendingChunks id pending found).keep (.put collisionFree own)
  refine ⟨?_, ?_, ?_, stored.pendingChunks, ?_⟩
  · exact inv.chain.put_cons collisionFree inv.addressed_ads own (by simp)
  · intro e member
    rcases List.mem_cons.mp member with rfl | member
    · exact own
    · exact inv.addressed e member
  · intro e member
    rcases List.mem_cons.mp member with rfl | member
    · exact ⟨s.head, rfl⟩
    · exact inv.linked e member
  · intro e member
    rcases List.mem_cons.mp member with rfl | member
    · exact chunks
    · exact stored.publishedChunks e member

/-- Only the oldest published advertisement has no `PreviousID`. -/
theorem previousID_eq_none_iff (inv : ChainInv deps s) {before after : List (Cid × Advertisement)}
    {e : Cid × Advertisement} (split : s.published = before ++ e :: after) :
    e.2.previousID = none ↔ after = [] := by
  have walk := inv.chain
  simp only [Shared.ads, split, List.map_append, List.map_cons] at walk
  have last := walk.prev_eq_none_iff
  obtain ⟨previous, same⟩ := inv.linked e (by simp [split])
  simpa [same] using last

end ChainInv

/-! ## Runs in which every publish succeeds -/

/-- Every `publish` names a pending advertisement and its signing and writing succeed. -/
def PublishSucceeds (deps : Deps K) (w : World K) : Call → Prop
  | .publish k id faults =>
      ∀ p, w.clones[k]? = some p → ∃ ad cid, Publishes deps p faults id w.shared ad cid
  | _ => True

/-- A `publish` either succeeds, or names no pending advertisement while there is
no head to lose. -/
def PublishSafe (deps : Deps K) (w : World K) : Call → Prop
  | .publish k id faults =>
      ∀ p, w.clones[k]? = some p →
        (∃ ad cid, Publishes deps p faults id w.shared ad cid) ∨
          (w.shared.tempAds id = none ∧ w.shared.head = none)
  | _ => True

theorem PublishSucceeds.safe {deps : Deps K} {w : World K} {call : Call}
    (succeeds : PublishSucceeds deps w call) : PublishSafe deps w call := by
  cases call with
  | publish k id faults =>
      intro p clone
      exact .inl (succeeds p clone)
  | _ => trivial

theorem Publishes.result {deps : Deps K} {p : Provider K} {faults : WriteFaults} {id : Nat}
    {s : Shared} {ad : Advertisement} {cid : Cid} (publishes : Publishes deps p faults id s ad cid) :
    publish deps p faults id s = (.ok (), afterPublish id s ad cid) := by
  rcases publish_cases deps p faults id s with
    ⟨ad', cid', publishes', result⟩ | ⟨absent, -⟩ | ⟨-, never, -⟩
  · obtain ⟨pending, found, sealing⟩ := publishes.sealed
    obtain ⟨pending', found', sealing'⟩ := publishes'.sealed
    cases found.symm.trans found'
    cases sealing.symm.trans sealing'
    cases publishes.addressed.symm.trans publishes'.addressed
    exact result
  · obtain ⟨pending, found, -⟩ := publishes.sealed
    rw [absent] at found
    cases found
  · exact absurd publishes (never ad cid)

theorem publishes_of_ok {deps : Deps K} {p : Provider K} {faults : WriteFaults} {id : Nat}
    {s : Shared} (ok : (publish deps p faults id s).1 = .ok ()) :
    ∃ ad cid, Publishes deps p faults id s ad cid := by
  rcases publish_cases deps p faults id s with
    ⟨ad, cid, publishes, -⟩ | ⟨-, result⟩ | ⟨-, -, e, result⟩
  · exact ⟨ad, cid, publishes⟩
  · rw [result] at ok
    cases ok
  · rw [result] at ok
    cases ok

/-- One step keeps the invariant unless it is a `publish` that loses something. -/
theorem ChainInv.step {deps : Deps K} (collisionFree : CollisionFree deps.objCid) (w : World K)
    (call : Call) (w' : World K) (inv : ChainInv deps w.shared) (safe : PublishSafe deps w call)
    (taken : w.step deps call = some w') : ChainInv deps w'.shared := by
  cases call with
  | clone k =>
      obtain ⟨p, -, rfl⟩ := Option.map_eq_some_iff.mp taken
      exact inv
  | create k ad id =>
      obtain ⟨p, -, rfl⟩ := Option.map_eq_some_iff.mp taken
      exact inv.create ad id
  | addChunk k bytes id fault =>
      obtain ⟨p, -, rfl⟩ := Option.map_eq_some_iff.mp taken
      exact inv.addChunk collisionFree fault bytes id
  | publish k id faults =>
      obtain ⟨p, clone, rfl⟩ := Option.map_eq_some_iff.mp taken
      rcases safe p clone with ⟨ad, cid, publishes⟩ | ⟨absent, noHead⟩
      · rw [publishes.result]
        exact inv.afterPublish collisionFree publishes
      · -- The head is taken out, but there was none.
        have unchanged : { w.shared with head := none } = w.shared := by rw [← noHead]
        rcases publish_cases deps p faults id w.shared with
          ⟨ad, cid, publishes, -⟩ | ⟨-, result⟩ | ⟨present, -⟩
        · obtain ⟨pending, found, -⟩ := publishes.sealed
          rw [absent] at found
          cases found
        · rw [result]
          exact unchanged.symm ▸ inv
        · exact absurd absent present

/-- Every state of a run without losing publishes satisfies the invariant. -/
theorem chainInv_of_run {deps : Deps K} (collisionFree : CollisionFree deps.objCid)
    {p : Provider K} {blockstore : Cid → Option Ipld} {calls : List Call} {w : World K}
    (safe : Meets (World.step deps) (PublishSafe deps) (World.new p blockstore) calls)
    (run : exec (World.step deps) (World.new p blockstore) calls = some w) :
    ChainInv deps w.shared :=
  exec_invariant (I := fun w => ChainInv deps w.shared)
    (fun w call w' inv safe taken => inv.step collisionFree w call w' safe taken)
    (ChainInv.start blockstore) safe run

/-- A stored object is served by the handler, under any text of its CID. -/
theorem getBlock_of_stored {deps : Deps K} {s : Shared} {cid : Cid} {o : Ipld}
    (stored : s.blockstore cid = some o) {text : String} (parses : deps.cidFromStr text = .ok cid) :
    getBlock deps text s = .ok (deps.objBytes o) := by
  simp [getBlock, parses, stored]

/-- **The advertisement chain.**  In every run whose publishes succeed, following
`PreviousID` from the head visits what was published, newest first, no CID twice;
only the oldest advertisement has no `PreviousID`; and every object met on the way,
advertisements and their chunks alike, is served. -/
theorem published_ads_form_the_chain (deps : Deps K) (collisionFree : CollisionFree deps.objCid)
    (p : Provider K) (blockstore : Cid → Option Ipld) (calls : List Call) (w : World K)
    (succeed : Meets (World.step deps) (PublishSucceeds deps) (World.new p blockstore) calls)
    (run : exec (World.step deps) (World.new p blockstore) calls = some w) :
    Walk (Ipld.linkAt "PreviousID") w.shared.blockstore w.shared.head w.shared.ads ∧
    (w.shared.ads.map Prod.fst).Nodup ∧
    (∀ before e after, w.shared.published = before ++ e :: after →
      (e.2.previousID = none ↔ after = [])) ∧
    ∀ ad ∈ w.shared.ads, ∃ chunks,
      Walk (Ipld.linkAt "Next") w.shared.blockstore (ad.2.linkAt "Entries") chunks ∧
      ∀ e ∈ ad :: chunks, ∀ text, deps.cidFromStr text = .ok e.1 →
        getBlock deps text w.shared = .ok (deps.objBytes e.2) := by
  have inv := chainInv_of_run collisionFree (succeed.mono fun _ _ ok => ok.safe) run
  refine ⟨inv.chain, inv.chain.nodup, fun _ _ _ split => inv.previousID_eq_none_iff split, ?_⟩
  intro ad member
  obtain ⟨e, listed, rfl⟩ := List.mem_map.mp member
  obtain ⟨chunks, chain⟩ := inv.publishedChunks e listed
  refine ⟨_, by simpa using chain.walk, ?_⟩
  intro x visited text parses
  rcases List.mem_cons.mp visited with rfl | visited
  · exact getBlock_of_stored (inv.chain.get_eq _ member) parses
  · exact getBlock_of_stored (chain.walk.get_eq x visited) parses

/-! ### A run of two advertisements -/

def sampleProvider : Provider Unit :=
  { keypair := (), config := { domain := "", indexerUrl := "https://dev.cid.contact" } }

def sampleAd : Advertisement :=
  Advertisement.new [0x75, 0x72, 0x73, 0x61] ⟨"12D3KooW"⟩ ["/ip4/127.0.0.1/tcp/6009"] false

/-- Two clones fill and publish two advertisements that are equal when created. -/
def sampleCalls : List Call :=
  [.clone 0, .create 0 sampleAd 7, .create 1 sampleAd 8,
    .addChunk 1 [0x81, 0x42, 0x12, 0x20] 7 none, .publish 0 7 .none, .publish 1 8 .none]

/-- `PublishSucceeds`, by running the call. -/
def publishSucceeds (deps : Deps K) (w : World K) : Call → Bool
  | .publish k id faults =>
      match w.clones[k]? with
      | some p => decide ((publish deps p faults id w.shared).1 = .ok ())
      | none => true
  | _ => true

theorem publishSucceeds_sound (deps : Deps K) (w : World K) (call : Call)
    (succeeds : publishSucceeds deps w call = true) : PublishSucceeds deps w call := by
  cases call with
  | publish k id faults =>
      intro p clone
      simp only [publishSucceeds, clone, decide_eq_true_eq] at succeeds
      exact publishes_of_ok succeeds
  | _ => trivial

theorem published_ads_form_the_chain_sample :
    ∃ w, exec (World.step plainDeps) (World.new sampleProvider fun _ => none) sampleCalls = some w ∧
      w.shared.published.length = 2 ∧
      Walk (Ipld.linkAt "PreviousID") w.shared.blockstore w.shared.head w.shared.ads := by
  have evaluated : (exec (World.step plainDeps) (World.new sampleProvider fun _ => none)
      sampleCalls).map (fun w => w.shared.published.length) = some 2 := by decide +kernel
  obtain ⟨w, run, count⟩ := Option.map_eq_some_iff.mp evaluated
  have succeed := meets_of_passes (publishSucceeds_sound plainDeps)
    (show passes (World.step plainDeps) (publishSucceeds plainDeps)
      (World.new sampleProvider fun _ => none) sampleCalls = true by decide +kernel)
  exact ⟨w, run, count, (published_ads_form_the_chain plainDeps plainDeps_collisionFree
    sampleProvider _ sampleCalls w succeed run).1⟩

/-! ## Runs with failing publishes -/

/-- A `publish` that returns an error leaves the head and the pending advertisements
as they were. -/
def FailedPublishIntact (deps : Deps K) (w : World K) : Call → Prop
  | .publish k id faults =>
      ∀ p, w.clones[k]? = some p → (publish deps p faults id w.shared).1.IsErr →
        (publish deps p faults id w.shared).2.head = w.shared.head ∧
          (publish deps p faults id w.shared).2.tempAds = w.shared.tempAds
  | _ => True

/-- Everything published so far is still met by following `PreviousID` from the head. -/
def PublishedReachable (w : World K) : Prop :=
  ∃ met, Walk (Ipld.linkAt "PreviousID") w.shared.blockstore w.shared.head met ∧
    ∀ e ∈ w.shared.ads, e ∈ met

/-- One call is intact exactly when it is safe: an unknown id costs the head, any
later failure costs the pending advertisement as well. -/
theorem failedPublishIntact_iff_safe (deps : Deps K) (w : World K) (call : Call) :
    FailedPublishIntact deps w call ↔ PublishSafe deps w call := by
  cases call with
  | publish k id faults =>
      apply forall_congr'
      intro p
      apply imp_congr_right
      intro clone
      rcases publish_cases deps p faults id w.shared with
        ⟨ad, cid, publishes, result⟩ | ⟨absent, result⟩ | ⟨present, never, e, result⟩
      · rw [result]
        exact ⟨fun _ => .inl ⟨ad, cid, publishes⟩, fun _ failed => absurd failed (by simp)⟩
      · rw [result]
        constructor
        · intro intact
          exact .inr ⟨absent, (intact trivial).1.symm⟩
        · rintro (⟨ad, cid, publishes⟩ | ⟨-, noHead⟩) -
          · obtain ⟨pending, found, -⟩ := publishes.sealed
            rw [absent] at found
            cases found
          · exact ⟨noHead.symm, rfl⟩
      · rw [result]
        constructor
        · intro intact
          have removed : Function.update w.shared.tempAds id none id = w.shared.tempAds id :=
            congrFun (intact trivial).2 id
          rw [Function.update_self] at removed
          exact absurd removed.symm present
        · rintro (⟨ad, cid, publishes⟩ | ⟨absent, -⟩)
          · exact absurd publishes (never ad cid)
          · exact absurd absent present
  | _ => exact Iff.rfl

/-- **When a failed publish leaves the provider intact.**  In a run, every failing
`publish` leaves head and pending advertisements as they were, and everything
published stays reachable from the head in every state, if and only if every
`publish` of the run either succeeds, or names no pending advertisement while there
is no head. -/
theorem failed_publish_intact_iff (deps : Deps K) (collisionFree : CollisionFree deps.objCid)
    (p : Provider K) (blockstore : Cid → Option Ipld) (calls : List Call) :
    (Meets (World.step deps) (FailedPublishIntact deps) (World.new p blockstore) calls ∧
      Always (World.step deps) PublishedReachable (World.new p blockstore) calls) ↔
    Meets (World.step deps) (PublishSafe deps) (World.new p blockstore) calls := by
  constructor
  · rintro ⟨intact, -⟩
    exact intact.mono fun w call => (failedPublishIntact_iff_safe deps w call).mp
  · intro safe
    refine ⟨safe.mono fun w call => (failedPublishIntact_iff_safe deps w call).mpr, ?_⟩
    exact always_of_invariant (I := fun w => ChainInv deps w.shared)
      (fun w call w' inv safe taken => inv.step collisionFree w call w' safe taken)
      (fun w inv => ⟨w.shared.ads, inv.chain, fun _ member => member⟩)
      (ChainInv.start blockstore) safe

theorem failed_publish_intact_iff_sample :
    CollisionFree plainDeps.objCid ∧
      Meets (World.step plainDeps) (FailedPublishIntact plainDeps)
        (World.new sampleProvider fun _ => none) (.publish 0 9 .none :: sampleCalls) := by
  refine ⟨plainDeps_collisionFree, ((failed_publish_intact_iff plainDeps plainDeps_collisionFree
    sampleProvider (fun _ => none) (.publish 0 9 .none :: sampleCalls)).mpr ?_).1⟩
  -- The unknown id comes first, while there is no head; all later publishes succeed.
  refine ⟨fun p clone => .inr ⟨rfl, rfl⟩, ?_⟩
  intro w taken
  cases taken
  have succeed := meets_of_passes (publishSucceeds_sound plainDeps)
    (show passes (World.step plainDeps) (publishSucceeds plainDeps)
      (World.new sampleProvider fun _ => none) sampleCalls = true by decide +kernel)
  exact succeed.mono fun _ _ ok => ok.safe

/-- One advertisement is published, then an id that was never handed out. -/
def sampleLoss : List Call :=
  [.create 0 sampleAd 7, .publish 0 7 .none, .publish 0 8 .none]

/-- Publishing an unknown id after one advertisement has been published returns an
error and loses the head, and with it the advertisement. -/
theorem unknown_id_loses_the_head :
    ∃ before after,
      exec (World.step plainDeps) (World.new sampleProvider fun _ => none) (sampleLoss.take 2) =
        some before ∧
      exec (World.step plainDeps) (World.new sampleProvider fun _ => none) sampleLoss = some after ∧
      (publish plainDeps sampleProvider .none 8 before.shared).1 = .err .adNotFound ∧
      ¬ FailedPublishIntact plainDeps before (.publish 0 8 .none) ∧
      PublishedReachable before ∧ ¬ PublishedReachable after := by
  let start := World.new sampleProvider fun _ => none
  have evalBefore : (exec (World.step plainDeps) start (sampleLoss.take 2)).map (fun w =>
      ((publish plainDeps sampleProvider .none 8 w.shared).1, w.shared.head.isSome,
        (publish plainDeps sampleProvider .none 8 w.shared).2.head.isSome)) =
      some (.err .adNotFound, true, false) := by decide +kernel
  have evalAfter : (exec (World.step plainDeps) start sampleLoss).map (fun w =>
      (w.shared.head.isSome, w.shared.published.length)) = some (false, 1) := by decide +kernel
  obtain ⟨before, runBefore, facts⟩ := Option.map_eq_some_iff.mp evalBefore
  obtain ⟨after, runAfter, facts'⟩ := Option.map_eq_some_iff.mp evalAfter
  simp only [Prod.mk.injEq] at facts facts'
  obtain ⟨failed, hadHead, noHead⟩ := facts
  obtain ⟨lost, count⟩ := facts'
  have only : before.clones = [sampleProvider] := by
    have : (exec (World.step plainDeps) start (sampleLoss.take 2)).map World.clones =
      some [sampleProvider] := rfl
    rw [runBefore] at this
    exact Option.some.inj this
  have inv : ChainInv plainDeps before.shared :=
    chainInv_of_run plainDeps_collisionFree ((meets_of_passes (publishSucceeds_sound plainDeps)
      (show passes (World.step plainDeps) (publishSucceeds plainDeps) start (sampleLoss.take 2) =
        true by decide +kernel)).mono fun _ _ ok => ok.safe) runBefore
  refine ⟨before, after, runBefore, runAfter, failed, fun intact => ?_,
    ⟨before.shared.ads, inv.chain, fun _ member => member⟩, ?_⟩
  · have kept := (intact sampleProvider (by rw [only]; rfl) (by rw [failed]; trivial)).1
    rw [kept, hadHead] at noHead
    cases noHead
  · rintro ⟨met, walk, all⟩
    have headless : after.shared.head = none := by simpa using lost
    rw [headless] at walk
    -- From an empty head nothing is met, yet one advertisement was published.
    cases met with
    | nil =>
        obtain ⟨e, ads⟩ := List.length_eq_one_iff.mp count
        have := all (e.1, e.2.toIpld) (by simp [Shared.ads, ads])
        simp at this
    | cons e rest => cases walk.1

end Ursa.IndexProvider
