/-
# Rpc.Failures — retrievals that fail, and what a client is told

`stream` and `getFile` return `Result`, and `getHandler` and `getFileHandler` have an arm for
their errors.  What `getData` returns they unwrap, so that no failure of a retrieval gets
there: `failed_retrieval_panics`.

`Retrieves` says of the store and of the network's answer that `getData` has nothing to fail
with.  It is then, and only then, that every failure is reported
(`failed_retrieval_is_reported_iff`).
-/
import Ursa.Rpc.Transfer

namespace Ursa.Rpc

set_option autoImplicit false

open Ursa.Theory (Outcome)
open Ursa.Network

/-! ## What `getData` fails with -/

/-- The store that the traversal of `getData` reads. -/
def Session.fetched (net : Network) (root : Cid) (s : Session) : Store :=
  if s.store.has root then s.store else (net s.store root .sync).2

/-- Every block that the traversal comes to is stored, and can be decoded if it passes
`Block::new`. -/
def ReadableFrom (B : Blocks) (s : Store) (root : Cid) : Prop :=
  ∀ cid, Theory.Worklist.Reach (checkedLinks B s) root cid → ¬ Unreadable B s cid

/-- The root is stored or was asked for with success, and what it leads to can be read. -/
structure Retrieves (B : Blocks) (net : Network) (root : Cid) (s : Session) : Prop where
  answered : s.store.has root = false → (net s.store root .sync).1 = .replied (.ok ())
  readable : ReadableFrom B (s.fetched net root) root

variable {B : Blocks} {order : Nat → List Cid → Nat} {net : Network} {root : Cid} {s : Session}

theorem traverse_err_iff (B : Blocks) (root : Cid) (s : Session) :
    (∃ order e, (traverse B order root s).1 = .err e) ↔ ¬ ReadableFrom B s.store root := by
  have unreadable : ¬ ReadableFrom B s.store root ↔
      ∃ cid, Theory.Worklist.Reach (checkedLinks B s.store) root cid ∧ Unreadable B s.store cid := by
    simp [ReadableFrom]
  rw [unreadable, ← dagTraversal_err_iff]
  constructor
  · rintro ⟨order, e, fails⟩
    simp only [traverse, convertCid_toBytes] at fails
    cases ends : dagTraversal B order s.store root with
    | err e => exact ⟨order, e, ends⟩
    | _ => simp [ends] at fails
  · rintro ⟨order, e, ends⟩
    exact ⟨order, .traversal e, by simp [traverse, ends]⟩

variable (net) in
/-- `getData` on a root that was asked for. -/
theorem getData_of_absent (absent : s.store.has root = false) :
    ((net s.store root .sync).1 = .replied (.ok ()) ∧
        ∀ B order, getData B order net root s = traverse B order root
          { s with
            store := s.fetched net root
            log := s.log ++ [.asked root .sync (.replied (.ok ()))] }) ∨
      (net s.store root .sync).1 ≠ .replied (.ok ()) ∧
        ∃ e, ∀ B order, (getData B order net root s).1 = .err e := by
  obtain ⟨answer, store, asked, ⟨rfl, replied⟩ | ⟨failed, e, replied⟩⟩ :=
    request_cases net root .sync s
  · refine .inl ⟨by rw [asked], fun B order => ?_⟩
    simp [getData, fetch, absent, replied, Session.fetched, asked]
  · refine .inr ⟨by rwa [asked], e, fun B order => ?_⟩
    simp [getData, fetch, absent, replied, Outcome.andThen]

/-- `getData` fails in some order of the traversal exactly if the root was asked for in vain
or a block that the traversal comes to cannot be read. -/
theorem getData_err_iff (B : Blocks) (net : Network) (root : Cid) (s : Session) :
    (∃ order e, (getData B order net root s).1 = .err e) ↔ ¬ Retrieves B net root s := by
  cases has : s.store.has root with
  | true =>
      have reads : s.fetched net root = s.store := by simp [Session.fetched, has]
      have retrieves : Retrieves B net root s ↔ ReadableFrom B s.store root := by
        rw [← reads]
        exact ⟨Retrieves.readable, fun readable => ⟨by simp [has], readable⟩⟩
      simp only [fun order => getData_of_has (B := B) order net has]
      rw [retrieves, traverse_err_iff]
  | false =>
      rcases getData_of_absent net has with ⟨answered, whole⟩ | ⟨failed, e, fails⟩
      · have retrieves : Retrieves B net root s ↔ ReadableFrom B (s.fetched net root) root :=
          ⟨Retrieves.readable, fun readable => ⟨fun _ => answered, readable⟩⟩
        simp only [whole]
        rw [retrieves, traverse_err_iff]
      · constructor
        · exact fun _ retrieves => failed (retrieves.answered has)
        · exact fun _ => ⟨fun _ _ => 0, e, fails B _⟩

/-! ## What the client is told -/

section Client

variable (B : Blocks) (order : Nat → List Cid → Nat) (car : CarCodec) (files : FileEnv)
variable (fromStr : String → Option Cid) (toString : Cid → String) (display : ApiError → String)
variable (net : Network) (path : String) (root : Cid) (s : Session)

/-- A failure is an error of `stream` and of `getFile`, which leaves the files as they are,
and an error response of each handler. -/
structure ReportsFailure : Prop where
  streamErr : (stream B order car net root s).1.IsErr
  getFileErr : (getFile B order car net files path (toString root) root s).1.IsErr
  untouched : (getFile B order car net files path (toString root) root s).2.files = s.files
  getHandlerErr : ∀ cidStr, fromStr cidStr = some root →
    ∃ e, getHandler fromStr display (fun cid => (stream B order car net cid s).1) cidStr = .err e ∧
      400 ≤ e.intoResponse.1
  getFileHandlerErr : ∀ cidStr, fromStr cidStr = some root →
    (getFileHandler fromStr
      (fun path cid => (getFile B order car net files path (toString cid) cid s).1) path
      cidStr).IsErr

variable {B order net root s}

theorem fetch_files {cid : Cid} {query : BitswapType} :
    (fetch net cid query s).2.files = s.files := by
  obtain ⟨answer, store, -, ⟨-, replied⟩ | ⟨-, e, replied⟩⟩ := request_cases net cid query s
  all_goals
    simp only [fetch, replied]
    split <;> rfl

theorem traverse_files : (traverse B order root s).2.files = s.files := by
  simp only [traverse]
  cases dagTraversal B order s.store (convertCid root.toBytes) <;> rfl

theorem getData_files : (getData B order net root s).2.files = s.files := by
  have fetched : (fetch net root .sync s).2.files = s.files := fetch_files
  simp only [getData]
  cases ended : fetch net root .sync s with
  | mk o t =>
      rw [ended] at fetched
      cases o with
      | ok done => exact traverse_files.trans fetched
      | _ => exact fetched

/-- What happens instead: the task that serves the request panics, before a file is made. -/
theorem failed_retrieval_panics {e : ApiError} (fails : (getData B order net root s).1 = .err e) :
    (stream B order car net root s).1 = .panic "called `Result::unwrap()` on an `Err` value" ∧
      (getFile B order car net files path (toString root) root s).1 =
        .panic "called `Result::unwrap()` on an `Err` value" ∧
      (getFile B order car net files path (toString root) root s).2.files = s.files := by
  have kept : (getData B order net root s).2.files = s.files := getData_files
  cases ended : getData B order net root s with
  | mk o t =>
      rw [ended] at kept fails
      obtain rfl : o = .err e := fails
      have untouched : t.files = s.files := kept
      simp [stream, getFile, ended, Outcome.expect, Outcome.andThen, untouched]

variable (B net root s) in
/-- **When failures are reported.**  Every failure of `getData` reaches the client as an error
exactly if there is none: the root is stored or the network answers for it with success, and
every block that the traversal comes to can be read. -/
theorem failed_retrieval_is_reported_iff :
    (∀ order e, (getData B order net root s).1 = .err e →
      ReportsFailure B order car files fromStr toString display net path root s) ↔
      Retrieves B net root s := by
  constructor
  · intro reports
    by_contra fails
    obtain ⟨order, e, fails⟩ := (getData_err_iff B net root s).mpr fails
    have told := (reports order e fails).streamErr
    rw [(failed_retrieval_panics car files toString path fails).1] at told
    exact told
  · intro retrieves order e fails
    exact absurd retrieves ((getData_err_iff B net root s).mp ⟨order, e, fails⟩)

end Client

/-- A node without peers. -/
def alone : Network := fun store _ _ => (.replied (.error .noPeers), store)

/-- A root that is not stored, and nobody to ask. -/
theorem without_peers_the_task_panics :
    (getData plainBlocks (fun _ _ => 0) alone UrsaService.sampleRoot.1 (.start .empty)).1 =
        .err (.bitswapFailed .noPeers) ∧
      (stream plainBlocks (fun _ _ => 0) plainCar alone UrsaService.sampleRoot.1
        (.start .empty)).1 = .panic "called `Result::unwrap()` on an `Err` value" ∧
      (getFile plainBlocks (fun _ _ => 0) plainCar alone ⟨.ok (), .ok (), .ok ()⟩ "." "root"
        UrsaService.sampleRoot.1 (.start .empty)).1 =
          .panic "called `Result::unwrap()` on an `Err` value" ∧
      ¬ ReportsFailure plainBlocks (fun _ _ => 0) plainCar ⟨.ok (), .ok (), .ok ()⟩
        (fun _ => some UrsaService.sampleRoot.1) (fun _ => "root") (fun _ => "") alone "."
        UrsaService.sampleRoot.1 (.start .empty) := by
  have fails : (getData plainBlocks (fun _ _ => 0) alone UrsaService.sampleRoot.1
      (.start .empty)).1 = .err (.bitswapFailed .noPeers) := by decide +kernel
  obtain ⟨streamed, filed, -⟩ := failed_retrieval_panics plainCar ⟨.ok (), .ok (), .ok ()⟩
    (fun _ => "root") "." fails
  refine ⟨fails, streamed, filed, ?_⟩
  intro reports
  have told := reports.streamErr
  rw [streamed] at told
  exact told

end Ursa.Rpc
