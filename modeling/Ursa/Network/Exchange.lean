/-
# Network.Exchange — block requests, queries and replies on their own

The service loop handles block requests with two maps and a queue: senders wait under
a CID, queries are live under an id, and a completed query waits in the event queue.
`Desk` is that part of the state with its history, and `Desk.Step` says all that can
happen to it:

* a request is refused, or accepted with a fresh query;
* a live query completes, and its outcome is queued;
* the first queued outcome is delivered, and everybody waiting for its CID is
  answered by what the store holds then;
* a block is stored.

`Desk.Inv` is the invariant: every sender is waiting or has been answered, not both,
and a waiting sender's own query is live or queued.
-/
import Ursa.Network.Service

namespace Ursa.Network

set_option autoImplicit false

structure Desk where
  store : Store
  queries : QueryId → Option BitswapInfo
  /-- Completed queries whose event has not been delivered, oldest first. -/
  queued : List BitswapInfo
  waiting : Cid → List SenderId
  requests : List Request
  completed : List BitswapInfo
  delivered : List BitswapInfo
  replies : List Reply

namespace Desk

def refuse (d : Desk) (r : Request) : Desk :=
  { d with
    requests := r :: d.requests
    replies := { sender := r.sender, result := .error .noPeers, store := d.store
                 completed := d.completed } :: d.replies }

def accept (d : Desk) (r : Request) (id : QueryId) : Desk :=
  { d with
    requests := r :: d.requests
    waiting := Function.update d.waiting r.cid (d.waiting r.cid ++ [r.sender])
    queries := Function.update d.queries id
      (some { cid := r.cid, queryId := id, blockFound := false }) }

def complete (d : Desk) (info : BitswapInfo) (found : Bool) : Desk :=
  { d with
    queries := Function.update d.queries info.queryId none
    queued := d.queued ++ [{ info with blockFound := found }]
    completed := { info with blockFound := found } :: d.completed }

/-- What everybody waiting for the CID is told. -/
def verdict (d : Desk) (cid : Cid) : Except BlockError Unit :=
  if d.store.contains cid then .ok () else .error (.notFound cid)

def replyTo (d : Desk) (cid : Cid) (sender : SenderId) : Reply :=
  { sender, result := d.verdict cid, store := d.store, completed := d.completed }

def deliver (d : Desk) (info : BitswapInfo) (later : List BitswapInfo) : Desk :=
  { d with
    queries := Function.update d.queries info.queryId none
    queued := later
    waiting := Function.update d.waiting info.cid []
    delivered := info :: d.delivered
    replies := (d.waiting info.cid).reverse.map (d.replyTo info.cid) ++ d.replies }

def insert (d : Desk) (cid : Cid) (data : Bytes) : Desk := { d with store := d.store.put cid data }

/-- What happens in a step. -/
inductive Label where
  | request (r : Request)
  | complete (info : BitswapInfo) (found : Bool)
  | deliver (info : BitswapInfo)
  | insert (cid : Cid) (data : Bytes)
  | idle

inductive Step (d : Desk) : Label → Desk → Prop where
  | refuse (r : Request) (refused : r.queryId = none) : Step d (.request r) (d.refuse r)
  | accept (r : Request) (id : QueryId) (accepted : r.queryId = some id) :
      Step d (.request r) (d.accept r id)
  | complete (info : BitswapInfo) (found : Bool) (live : d.queries info.queryId = some info) :
      Step d (.complete info found) (d.complete info found)
  | deliver (info : BitswapInfo) (later : List BitswapInfo) (first : d.queued = info :: later)
      (stored : info.blockFound = true → d.waiting info.cid ≠ [] →
        d.store.contains info.cid = true) : Step d (.deliver info) (d.deliver info later)
  | insert (cid : Cid) (data : Bytes) : Step d (.insert cid data) (d.insert cid data)
  | idle : Step d .idle d

/-- Senders are one-shot channels and are not shared; bitswap hands out fresh ids. -/
structure Fresh (d : Desk) (r : Request) : Prop where
  sender : r.sender ∉ d.requests.map Request.sender
  id : ∀ id, r.queryId = some id → id ∉ d.requests.filterMap Request.queryId

/-- Requests are fresh. -/
def FreshLabel (d : Desk) : Label → Prop
  | .request r => d.Fresh r
  | _ => True

/-! ## The invariant -/

/-- The query was started for some request for this CID. -/
def Asked (d : Desk) (info : BitswapInfo) : Prop :=
  ∃ r ∈ d.requests, r.queryId = some info.queryId ∧ r.cid = info.cid

/-- The query is live, or completed with its event still queued. -/
def Open (d : Desk) (id : QueryId) (cid : Cid) : Prop :=
  d.queries id = some { cid, queryId := id, blockFound := false } ∨
    ∃ info ∈ d.queued, info.queryId = id ∧ info.cid = cid

structure Inv (d : Desk) : Prop where
  senders : (d.requests.map Request.sender).Nodup
  ids : (d.requests.filterMap Request.queryId).Nodup
  once : ∀ r ∈ d.requests,
    (d.waiting r.cid).count r.sender + d.replies.countP (fun a => a.sender = r.sender) = 1
  waits : ∀ cid, ∀ x ∈ d.waiting cid, ∃ r ∈ d.requests, r.sender = x ∧ r.cid = cid ∧
    ∃ id, r.queryId = some id ∧ d.Open id cid
  known : ∀ a ∈ d.replies, ∃ r ∈ d.requests, r.sender = a.sender ∧
    (a.result = .ok () → a.store.contains r.cid = true)
  live : ∀ id info, d.queries id = some info →
    info.queryId = id ∧ info.blockFound = false ∧ d.Asked info
  queuedAsked : ∀ info ∈ d.queued, d.Asked info ∧ d.queries info.queryId = none
  queuedNodup : (d.queued.map BitswapInfo.queryId).Nodup
  completedAsked : ∀ info ∈ d.completed, d.Asked info
  deliveredAsked : ∀ info ∈ d.delivered, d.Asked info ∧ d.queries info.queryId = none ∧
    info.queryId ∉ d.queued.map BitswapInfo.queryId

/-! ## Closing a query -/

section Closing

variable {queries : QueryId → Option BitswapInfo} {closed id : QueryId}

theorem live_of_close {info : BitswapInfo} (live : Function.update queries closed none id = some info) :
    queries id = some info := by
  by_cases same : id = closed
  · rw [same, Function.update_self] at live
    cases live
  · rwa [Function.update_of_ne same] at live

theorem gone_of_gone (gone : queries id = none) : Function.update queries closed none id = none := by
  by_cases same : id = closed
  · rw [same, Function.update_self]
  · rwa [Function.update_of_ne same]

end Closing

namespace Inv

variable {d : Desk}

/-- A sender belongs to one request. -/
theorem eq_of_sender (inv : d.Inv) {r r' : Request} (member : r ∈ d.requests)
    (member' : r' ∈ d.requests) (same : r.sender = r'.sender) : r = r' :=
  List.inj_on_of_nodup_map inv.senders member member' same

/-- A query id that was asked for is no fresh one. -/
theorem ne_of_asked {r : Request} {id : QueryId} (fresh : Fresh d r)
    (accepted : r.queryId = some id) {info : BitswapInfo} (asked : d.Asked info) :
    info.queryId ≠ id := by
  rintro rfl
  obtain ⟨r', member, own, -⟩ := asked
  exact fresh.id _ accepted (List.mem_filterMap.mpr ⟨r', member, own⟩)

theorem not_waiting_of_fresh (inv : d.Inv) {r : Request} (fresh : Fresh d r) (cid : Cid) :
    r.sender ∉ d.waiting cid := by
  intro member
  obtain ⟨r', listed, same, -⟩ := inv.waits cid _ member
  exact fresh.sender (List.mem_map.mpr ⟨r', listed, same⟩)

theorem no_reply_of_fresh (inv : d.Inv) {r : Request} (fresh : Fresh d r) :
    d.replies.countP (fun a => a.sender = r.sender) = 0 := by
  rw [List.countP_eq_zero]
  intro a member same
  obtain ⟨r', listed, own, -⟩ := inv.known a member
  exact fresh.sender (List.mem_map.mpr ⟨r', listed, own.trans (by simpa using same)⟩)

/-! ## Requests -/

theorem asked_cons {info : BitswapInfo} (asked : d.Asked info) (r : Request) {d' : Desk}
    (requests : d'.requests = r :: d.requests) : d'.Asked info := by
  obtain ⟨r', member, own⟩ := asked
  exact ⟨r', by rw [requests]; exact List.mem_cons_of_mem _ member, own⟩

theorem refuse (inv : d.Inv) {r : Request} (fresh : Fresh d r) (refused : r.queryId = none) :
    (d.refuse r).Inv where
  senders := List.nodup_cons.mpr ⟨fresh.sender, inv.senders⟩
  ids := by
    show ((r :: d.requests).filterMap Request.queryId).Nodup
    rw [List.filterMap_cons_none refused]
    exact inv.ids
  once r' member := by
    rcases List.mem_cons.mp member with rfl | old
    · have absent := List.count_eq_zero.mpr (inv.not_waiting_of_fresh fresh r'.cid)
      have silent := inv.no_reply_of_fresh fresh
      simp [Desk.refuse, absent, silent]
    · have other : r.sender ≠ r'.sender := fun same =>
        fresh.sender (List.mem_map.mpr ⟨r', old, same.symm⟩)
      simpa [Desk.refuse, other] using inv.once r' old
  waits cid x member := by
    obtain ⟨r', listed, facts⟩ := inv.waits cid x member
    exact ⟨r', List.mem_cons_of_mem _ listed, facts⟩
  known a member := by
    rcases List.mem_cons.mp member with rfl | old
    · exact ⟨r, List.mem_cons_self, rfl, fun ok => by cases ok⟩
    · obtain ⟨r', listed, facts⟩ := inv.known a old
      exact ⟨r', List.mem_cons_of_mem _ listed, facts⟩
  live id info found := by
    obtain ⟨own, notYet, asked⟩ := inv.live id info found
    exact ⟨own, notYet, asked_cons asked r rfl⟩
  queuedAsked info member := by
    obtain ⟨asked, gone⟩ := inv.queuedAsked info member
    exact ⟨asked_cons asked r rfl, gone⟩
  queuedNodup := inv.queuedNodup
  completedAsked info member := asked_cons (inv.completedAsked info member) r rfl
  deliveredAsked info member := by
    obtain ⟨asked, gone⟩ := inv.deliveredAsked info member
    exact ⟨asked_cons asked r rfl, gone⟩

theorem accept (inv : d.Inv) {r : Request} {id : QueryId} (fresh : Fresh d r)
    (accepted : r.queryId = some id) : (d.accept r id).Inv where
  senders := List.nodup_cons.mpr ⟨fresh.sender, inv.senders⟩
  ids := by
    show ((r :: d.requests).filterMap Request.queryId).Nodup
    rw [List.filterMap_cons_some accepted]
    exact List.nodup_cons.mpr ⟨fresh.id id accepted, inv.ids⟩
  once r' member := by
    rcases List.mem_cons.mp member with rfl | old
    · have absent := List.count_eq_zero.mpr (inv.not_waiting_of_fresh fresh r'.cid)
      have silent := inv.no_reply_of_fresh fresh
      simp [Desk.accept, List.count_append, absent, silent]
    · have other : r.sender ≠ r'.sender := fun same =>
        fresh.sender (List.mem_map.mpr ⟨r', old, same.symm⟩)
      have before := inv.once r' old
      by_cases same : r'.cid = r.cid
      · simpa [Desk.accept, same, List.count_append, other] using before
      · simpa [Desk.accept, Function.update_of_ne same] using before
  waits cid x member := by
    have earlier : ∀ c, x ∈ d.waiting c → ∃ r' ∈ r :: d.requests, r'.sender = x ∧ r'.cid = c ∧
        ∃ id', r'.queryId = some id' ∧ (d.accept r id).Open id' c := by
      intro c waiting
      obtain ⟨r', listed, own, forCid, id', query, isOpen⟩ := inv.waits c x waiting
      refine ⟨r', List.mem_cons_of_mem _ listed, own, forCid, id', query, ?_⟩
      have asked : d.Asked { cid := c, queryId := id', blockFound := false } :=
        ⟨r', listed, query, forCid⟩
      have ne : id' ≠ id := ne_of_asked fresh accepted asked
      exact isOpen.imp (fun found => (Function.update_of_ne ne ..).trans found) fun queued => queued
    by_cases same : cid = r.cid
    · subst same
      have member' : x ∈ d.waiting r.cid ++ [r.sender] := by simpa [Desk.accept] using member
      rcases List.mem_append.mp member' with waiting | new
      · exact earlier _ waiting
      · obtain rfl := List.mem_singleton.mp new
        exact ⟨r, List.mem_cons_self, rfl, rfl, id, accepted, .inl (Function.update_self ..)⟩
    · exact earlier cid (by simpa [Desk.accept, Function.update_of_ne same] using member)
  known a member := by
    obtain ⟨r', listed, facts⟩ := inv.known a member
    exact ⟨r', List.mem_cons_of_mem _ listed, facts⟩
  live id' info found := by
    by_cases same : id' = id
    · subst same
      obtain rfl : { cid := r.cid, queryId := id', blockFound := false } = info := by
        simpa [Desk.accept] using found
      exact ⟨rfl, rfl, r, List.mem_cons_self, accepted, rfl⟩
    · obtain ⟨own, notYet, asked⟩ := inv.live id' info
        (by simpa [Desk.accept, Function.update_of_ne same] using found)
      exact ⟨own, notYet, asked_cons asked r rfl⟩
  queuedAsked info member := by
    obtain ⟨asked, gone⟩ := inv.queuedAsked info member
    refine ⟨asked_cons asked r rfl, ?_⟩
    exact (Function.update_of_ne (ne_of_asked fresh accepted asked) ..).trans gone
  queuedNodup := inv.queuedNodup
  completedAsked info member := asked_cons (inv.completedAsked info member) r rfl
  deliveredAsked info member := by
    obtain ⟨asked, gone, notQueued⟩ := inv.deliveredAsked info member
    refine ⟨asked_cons asked r rfl, ?_, notQueued⟩
    exact (Function.update_of_ne (ne_of_asked fresh accepted asked) ..).trans gone

/-! ## Completions and deliveries -/

theorem complete (inv : d.Inv) {info : BitswapInfo} (found : Bool)
    (live : d.queries info.queryId = some info) : (d.complete info found).Inv where
  senders := inv.senders
  ids := inv.ids
  once := inv.once
  waits cid x member := by
    obtain ⟨r, listed, own, forCid, id, query, isOpen⟩ := inv.waits cid x member
    refine ⟨r, listed, own, forCid, id, query, ?_⟩
    -- The query that completes goes from live to queued.
    rcases isOpen with isLive | ⟨info', queued, facts⟩
    · by_cases same : id = info.queryId
      · subst same
        have own := Option.some.inj (live.symm.trans isLive)
        exact .inr ⟨_, List.mem_append_right _ List.mem_cons_self, rfl, congrArg BitswapInfo.cid own⟩
      · exact .inl ((Function.update_of_ne same ..).trans isLive)
    · exact .inr ⟨info', List.mem_append_left _ queued, facts⟩
  known := inv.known
  live id info' isLive := inv.live id info' (live_of_close isLive)
  queuedAsked info' member := by
    rcases List.mem_append.mp member with old | new
    · obtain ⟨asked, gone⟩ := inv.queuedAsked info' old
      exact ⟨asked, gone_of_gone gone⟩
    · obtain rfl := List.mem_singleton.mp new
      exact ⟨(inv.live _ info live).2.2, Function.update_self ..⟩
  queuedNodup := by
    show ((d.queued ++ [{ info with blockFound := found }]).map BitswapInfo.queryId).Nodup
    rw [List.map_append]
    refine List.nodup_append'.mpr ⟨inv.queuedNodup, List.nodup_singleton _, ?_⟩
    intro id old new
    obtain rfl := List.mem_singleton.mp new
    obtain ⟨info', queued, same⟩ := List.mem_map.mp old
    have gone := (inv.queuedAsked info' queued).2
    rw [same] at gone
    exact absurd (live.symm.trans gone) (by simp)
  completedAsked info' member := by
    rcases List.mem_cons.mp member with rfl | old
    · exact (inv.live _ info live).2.2
    · exact inv.completedAsked info' old
  deliveredAsked info' member := by
    obtain ⟨asked, gone, notQueued⟩ := inv.deliveredAsked info' member
    have ne : info'.queryId ≠ info.queryId := by
      intro same
      rw [same, live] at gone
      cases gone
    refine ⟨asked, (Function.update_of_ne ne ..).trans gone, ?_⟩
    show info'.queryId ∉ (d.queued ++ [{ info with blockFound := found }]).map BitswapInfo.queryId
    simpa [ne] using notQueued

/-- Everybody waiting for the CID gets one reply, nobody else gets any. -/
theorem countP_replyTo (cid : Cid) (x : SenderId) (l : List SenderId) :
    (l.reverse.map (d.replyTo cid)).countP (fun a => a.sender = x) = l.count x := by
  rw [List.map_reverse, List.countP_reverse, List.countP_map, List.count]
  apply List.countP_congr
  intro y _
  rw [beq_iff_eq]
  exact decide_eq_true_iff

theorem deliver (inv : d.Inv) {info : BitswapInfo} {later : List BitswapInfo}
    (first : d.queued = info :: later) : (d.deliver info later).Inv where
  senders := inv.senders
  ids := inv.ids
  once r member := by
    have before := inv.once r member
    show (Function.update d.waiting info.cid [] r.cid).count r.sender +
      ((d.waiting info.cid).reverse.map (d.replyTo info.cid) ++ d.replies).countP _ = 1
    rw [List.countP_append, countP_replyTo]
    by_cases same : r.cid = info.cid
    · rw [same] at before ⊢
      simp only [Function.update_self, List.count_nil]
      omega
    · have absent : r.sender ∉ d.waiting info.cid := by
        intro waiting
        obtain ⟨r', listed, own, forCid, -⟩ := inv.waits info.cid _ waiting
        exact same ((inv.eq_of_sender listed member own) ▸ forCid)
      rw [Function.update_of_ne same, List.count_eq_zero.mpr absent]
      omega
  waits cid x member := by
    have ne : cid ≠ info.cid := by
      rintro rfl
      simp [Desk.deliver] at member
    obtain ⟨r, listed, own, forCid, id, query, isOpen⟩ := inv.waits cid x
      (by simpa [Desk.deliver, Function.update_of_ne ne] using member)
    refine ⟨r, listed, own, forCid, id, query, ?_⟩
    rcases isOpen with isLive | ⟨info', queued, sameId, sameCid⟩
    · have gone := (inv.queuedAsked info (by simp [first])).2
      have other : id ≠ info.queryId := by
        rintro rfl
        exact absurd (isLive.symm.trans gone) (by simp)
      exact .inl ((Function.update_of_ne other ..).trans isLive)
    · rw [first] at queued
      rcases List.mem_cons.mp queued with rfl | stays
      · exact absurd sameCid.symm ne
      · exact .inr ⟨info', stays, sameId, sameCid⟩
  known a member := by
    rcases List.mem_append.mp member with new | old
    · obtain ⟨x, waiting, rfl⟩ := List.mem_map.mp new
      obtain ⟨r, listed, own, forCid, -⟩ := inv.waits info.cid x (List.mem_reverse.mp waiting)
      refine ⟨r, listed, own, ?_⟩
      intro ok
      simp only [Desk.replyTo, Desk.verdict] at ok ⊢
      rw [forCid]
      split at ok
      · assumption
      · cases ok
    · exact inv.known a old
  live id info' isLive := inv.live id info' (live_of_close isLive)
  queuedAsked info' member := by
    obtain ⟨asked, gone⟩ := inv.queuedAsked info' (by rw [first]; exact List.mem_cons_of_mem _ member)
    exact ⟨asked, gone_of_gone gone⟩
  queuedNodup := by
    have before := inv.queuedNodup
    rw [first, List.map_cons, List.nodup_cons] at before
    exact before.2
  completedAsked := inv.completedAsked
  deliveredAsked info' member := by
    have before := inv.queuedNodup
    rw [first, List.map_cons, List.nodup_cons] at before
    rcases List.mem_cons.mp member with rfl | old
    · exact ⟨(inv.queuedAsked info' (by simp [first])).1, Function.update_self .., before.1⟩
    · obtain ⟨asked, gone, notQueued⟩ := inv.deliveredAsked info' old
      rw [first, List.map_cons, List.mem_cons, not_or] at notQueued
      exact ⟨asked, (Function.update_of_ne notQueued.1 ..).trans gone, notQueued.2⟩

theorem insert (inv : d.Inv) (cid : Cid) (data : Bytes) : (d.insert cid data).Inv :=
  { inv with }

/-- Every step keeps the invariant. -/
theorem step (inv : d.Inv) {label : Label} {d' : Desk} (fresh : d.FreshLabel label)
    (step : Step d label d') : d'.Inv := by
  cases step with
  | refuse r refused => exact inv.refuse fresh refused
  | accept r id accepted => exact inv.accept fresh accepted
  | complete info found live => exact inv.complete found live
  | deliver info later first stored => exact inv.deliver first
  | insert cid data => exact inv.insert cid data
  | idle => exact inv

end Inv

/-! ## What holds whatever the ids are -/

/-- Live queries are filed under their own ids. -/
def Keyed (d : Desk) : Prop :=
  ∀ id info, d.queries id = some info → info.queryId = id ∧ info.blockFound = false

theorem Inv.keyed {d : Desk} (inv : d.Inv) : d.Keyed := by
  intro id info live
  obtain ⟨own, notYet, -⟩ := inv.live id info live
  exact ⟨own, notYet⟩

section Steps

variable {d d' : Desk} {label : Label}

/-- Closing a query leaves the others filed as they are. -/
theorem Keyed.close (keyed : d.Keyed) (closed : QueryId)
    (queries : d'.queries = Function.update d.queries closed none) : d'.Keyed := by
  intro id info live
  rw [queries] at live
  exact keyed id info (live_of_close live)

theorem Keyed.step (keyed : d.Keyed) (step : Step d label d') : d'.Keyed := by
  cases step with
  | accept r new accepted =>
      intro id info live
      simp only [Desk.accept] at live
      by_cases same : id = new
      · rw [same, Function.update_self] at live
        cases live
        exact ⟨same.symm, rfl⟩
      · rw [Function.update_of_ne same] at live
        exact keyed id info live
  | complete info found live => exact keyed.close info.queryId rfl
  | deliver info later first stored => exact keyed.close info.queryId rfl
  | _ => exact keyed

/-- Nothing is deleted from the store. -/
theorem Step.contains (step : Step d label d') {cid : Cid} (stored : d.store.contains cid = true) :
    d'.store.contains cid = true := by
  cases step with
  | insert new data => exact (d.store.contains_put new data cid).mpr (.inr stored)
  | _ => exact stored

/-- Who waits for a CID asked for it now, or has been waiting. -/
theorem Step.waits (step : Step d label d') {cid : Cid} {x : SenderId}
    (waits : x ∈ d'.waiting cid) :
    x ∈ d.waiting cid ∨ ∃ r, label = .request r ∧ r.cid = cid ∧ r.sender = x := by
  cases step with
  | accept r id accepted =>
      simp only [Desk.accept] at waits
      by_cases same : cid = r.cid
      · subst same
        rw [Function.update_self, List.mem_append, List.mem_singleton] at waits
        rcases waits with old | rfl
        · exact .inl old
        · exact .inr ⟨r, rfl, rfl, rfl⟩
      · rw [Function.update_of_ne same] at waits
        exact .inl waits
  | deliver info later first stored =>
      simp only [Desk.deliver] at waits
      by_cases same : cid = info.cid
      · rw [same, Function.update_self] at waits
        cases waits
      · rw [Function.update_of_ne same] at waits
        exact .inl waits
  | _ => exact .inl waits

/-- A new reply goes to somebody who waited for a CID, and says whether it is stored, or
refuses a request. -/
theorem Step.replies (step : Step d label d') {a : Reply} (replied : a ∈ d'.replies) :
    a ∈ d.replies ∨ (∃ cid, a.sender ∈ d.waiting cid ∧
        (a.result = .ok () → d'.store.contains cid = true)) ∨
      ∃ r, label = .request r ∧ r.sender = a.sender ∧ a.result = .error .noPeers := by
  cases step with
  | refuse r refused =>
      rcases List.mem_cons.mp replied with rfl | old
      · exact .inr (.inr ⟨r, rfl, rfl, rfl⟩)
      · exact .inl old
  | deliver info later first stored =>
      rcases List.mem_append.mp replied with new | old
      · obtain ⟨x, waited, rfl⟩ := List.mem_map.mp new
        refine .inr (.inl ⟨info.cid, List.mem_reverse.mp waited, ?_⟩)
        simp only [replyTo, verdict]
        split
        · intro _
          assumption
        · intro impossible
          cases impossible
      · exact .inl old
  | _ => exact .inl replied

end Steps

/-! ## What a reply to a `Sync` request is worth -/

section Sync

variable (B : Blocks)

/-- Bitswap completes a query successfully only when its blocks are stored, all of
the DAG for a `Sync`; and what it stores is what the CID says. -/
def Honest (d : Desk) : Label → Prop
  | .complete info true =>
      ∀ r ∈ d.requests, r.queryId = some info.queryId →
        match r.query with
        | .sync => MissingBlocks B d.store r.cid []
        | .get => d.store.contains r.cid = true
  | .insert cid data => ∀ old, d.store.get cid = some old → old = data
  | _ => True

/-- When a `Sync` request is answered from the store, some `Sync` query for its root
has completed successfully before. -/
def SyncServed (d : Desk) : Label → Prop
  | .deliver info =>
      d.store.contains info.cid = true →
        ∀ r ∈ d.requests, r.query = .sync → r.sender ∈ d.waiting info.cid →
          ∃ r' ∈ d.requests, r'.query = .sync ∧ r'.cid = info.cid ∧
            ∃ done ∈ d.completed, r'.queryId = some done.queryId ∧ done.blockFound = true
  | _ => True

/-- The DAG of a `Sync` query that completed successfully is present. -/
def Synced (d : Desk) : Prop :=
  ∀ r ∈ d.requests, r.query = .sync → ∀ done ∈ d.completed, r.queryId = some done.queryId →
    done.blockFound = true → DagPresent B d.store r.cid

/-- A `Sync` request is answered with success only when its DAG is present. -/
def SyncRepliesComplete (d : Desk) : Prop :=
  ∀ a ∈ d.replies, a.result = .ok () → ∀ r ∈ d.requests, r.sender = a.sender → r.query = .sync →
    DagPresent B a.store r.cid

variable {B} {d d' : Desk} {label : Label}

theorem Synced.step (synced : d.Synced B) (inv : d.Inv) (fresh : d.FreshLabel label)
    (honest : d.Honest B label) (step : Step d label d') : d'.Synced B := by
  -- A new request has no completed query yet.
  have ofRequest : ∀ r, d.Fresh r → ∀ r' ∈ r :: d.requests, r'.query = .sync →
      ∀ done ∈ d.completed, r'.queryId = some done.queryId → done.blockFound = true →
      DagPresent B d.store r'.cid := by
    intro r fresh r' member isSync done completed own found
    rcases List.mem_cons.mp member with rfl | old
    · obtain ⟨r'', listed, query, -⟩ := inv.completedAsked done completed
      exact absurd (List.mem_filterMap.mpr ⟨r'', listed, query⟩) (fresh.id _ own)
    · exact synced r' old isSync done completed own found
  cases step with
  | refuse r refused => exact ofRequest r fresh
  | accept r id accepted => exact ofRequest r fresh
  | complete info found live =>
      intro r member isSync done completed own success
      rcases List.mem_cons.mp completed with rfl | old
      · obtain rfl : found = true := success
        have nothing := honest r member own
        simp only [isSync] at nothing
        exact .of_missingBlocks nothing
      · exact synced r member isSync done old own success
  | deliver info later first stored => exact synced
  | insert cid data =>
      intro r member isSync done completed own success
      exact (synced r member isSync done completed own success).put honest
  | idle => exact synced

theorem SyncRepliesComplete.step (complete : d.SyncRepliesComplete B) (inv : d.Inv)
    (synced : d.Synced B) (fresh : d.FreshLabel label) (served : d.SyncServed label)
    (step : Step d label d') : d'.SyncRepliesComplete B := by
  -- A new sender has got no reply yet.
  have ofRequest : ∀ r, d.Fresh r → ∀ a ∈ d.replies, a.result = .ok () →
      ∀ r' ∈ r :: d.requests, r'.sender = a.sender → r'.query = .sync →
      DagPresent B a.store r'.cid := by
    intro r fresh a replied ok r' member own isSync
    rcases List.mem_cons.mp member with rfl | old
    · obtain ⟨r'', listed, same, -⟩ := inv.known a replied
      exact absurd (List.mem_map.mpr ⟨r'', listed, same.trans own.symm⟩) fresh.sender
    · exact complete a replied ok r' old own isSync
  cases step with
  | refuse r refused =>
      intro a replied ok
      rcases List.mem_cons.mp replied with rfl | old
      · cases ok
      · exact ofRequest r fresh a old ok
  | accept r id accepted => exact ofRequest r fresh
  | complete info found live => exact complete
  | deliver info later first stored =>
      intro a replied ok r member own isSync
      rcases List.mem_append.mp replied with new | old
      · obtain ⟨x, waiting, rfl⟩ := List.mem_map.mp new
        have waiting : x ∈ d.waiting info.cid := List.mem_reverse.mp waiting
        obtain ⟨r₁, listed, same, forCid, -⟩ := inv.waits info.cid x waiting
        obtain rfl : r₁ = r := inv.eq_of_sender listed member (same.trans own.symm)
        have contains : d.store.contains info.cid = true := by
          simp only [replyTo, verdict] at ok
          split at ok
          · assumption
          · cases ok
        obtain ⟨r₂, listed₂, isSync₂, forCid₂, done, completed, query, success⟩ :=
          served contains r₁ member isSync (same ▸ waiting)
        have present := synced r₂ listed₂ isSync₂ done completed query success
        rw [forCid₂, ← forCid] at present
        exact present
      · exact complete a old ok r member own isSync
  | insert cid data => exact complete
  | idle => exact complete

end Sync

/-! ## Whose failure a reply reports -/

/-- An accepted request is answered with an error only after its own query has
completed with one. -/
def ErrorsOwn (d : Desk) : Prop :=
  ∀ a ∈ d.replies, (∃ e, a.result = .error e) → ∀ r ∈ d.requests, r.sender = a.sender →
    ∀ id, r.queryId = some id → ∃ done ∈ a.completed, done.queryId = id ∧ done.blockFound = false

/-- When a failed outcome is delivered for a CID that is not stored, nobody waits for
that CID whose own query is still running or has succeeded. -/
def OwnFailure (d : Desk) : Label → Prop
  | .deliver info =>
      info.blockFound = false → d.store.contains info.cid = false →
        ∀ r ∈ d.requests, r.sender ∈ d.waiting info.cid → ∀ id, r.queryId = some id →
          ∃ done ∈ d.completed, done.queryId = id ∧ done.blockFound = false
  | _ => True

section Errors

variable {d d' : Desk} {label : Label}

theorem ErrorsOwn.step (errors : d.ErrorsOwn) (inv : d.Inv) (fresh : d.FreshLabel label)
    (ownFailure : d.OwnFailure label) (step : Step d label d') : d'.ErrorsOwn := by
  have ofRequest : ∀ r, d.Fresh r → ∀ a ∈ d.replies, (∃ e, a.result = .error e) →
      ∀ r' ∈ r :: d.requests, r'.sender = a.sender → ∀ id, r'.queryId = some id →
      ∃ done ∈ a.completed, done.queryId = id ∧ done.blockFound = false := by
    intro r fresh a replied failed r' member own
    rcases List.mem_cons.mp member with rfl | old
    · obtain ⟨r'', listed, same, -⟩ := inv.known a replied
      exact absurd (List.mem_map.mpr ⟨r'', listed, same.trans own.symm⟩) fresh.sender
    · exact errors a replied failed r' old own
  cases step with
  | refuse r refused =>
      intro a replied failed r' member own id query
      rcases List.mem_cons.mp replied with rfl | old
      · -- The refused request itself started no query.
        rcases List.mem_cons.mp member with rfl | earlier
        · rw [refused] at query
          cases query
        · exact absurd (List.mem_map.mpr ⟨r', earlier, own⟩) fresh.sender
      · exact ofRequest r fresh a old failed r' member own id query
  | accept r id accepted => exact ofRequest r fresh
  | complete info found live => exact errors
  | deliver info later first stored =>
      intro a replied failed r member own id query
      rcases List.mem_append.mp replied with new | old
      · obtain ⟨x, waiting, rfl⟩ := List.mem_map.mp new
        have waiting : x ∈ d.waiting info.cid := List.mem_reverse.mp waiting
        have absent : d.store.contains info.cid = false := by
          obtain ⟨e, failed⟩ := failed
          simp only [replyTo, verdict] at failed
          split at failed
          · cases failed
          · rename_i absent
            simpa using absent
        have notFound : info.blockFound = false := by
          cases found : info.blockFound with
          | false => rfl
          | true =>
              have contains := stored found (List.ne_nil_of_mem waiting)
              rw [absent] at contains
              cases contains
        exact ownFailure notFound absent r member (own ▸ waiting) id query
      · exact errors a old failed r member own id query
  | insert cid data => exact errors
  | idle => exact errors

/-- The condition is necessary: whoever waits is told of the failure. -/
theorem ownFailure_of_errorsOwn {info : BitswapInfo} {later : List BitswapInfo}
    (errors : (d.deliver info later).ErrorsOwn) : d.OwnFailure (.deliver info) := by
  intro _ absent r member waiting id query
  have replied : d.replyTo info.cid r.sender ∈ (d.deliver info later).replies :=
    List.mem_append_left _ (List.mem_map.mpr ⟨_, List.mem_reverse.mpr waiting, rfl⟩)
  refine errors _ replied ⟨.notFound info.cid, ?_⟩ r member rfl id query
  simp [replyTo, verdict, absent]

end Errors

end Desk

end Ursa.Network
