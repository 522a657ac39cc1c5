/-
# Store.Store — the block store and its two traversals

`ursa-store/src/store.rs`.  Blocks are kept in a key-value database under the binary
form of their CIDs, both by the blockstore interface and by the bitswap adapter, so
the two see the same blocks.

* `dagTraversal` collects the DAG under a root with a visited set; the pending set
  is a hash set, whose iteration order is an argument here (`order`).
* `missingLoop` is the loop of `missing_blocks`: a stack and no visited set.

The functions on `Store` are those of a database that works: it answers every read and takes
every write.  One that does not fails the call, by `?` (`get`, `has` and `put` of the
blockstore interface) or by an `unwrap` (the bitswap adapter), and leaves the blocks as they
are.  `dagTraversalOn` is the traversal on a database whose reads can fail, for its caller in
the service loop, which such a read ends.

`Blocks` is the third-party view of a block: whether `Block::new` accepts it, and
which CIDs it links to.  `Reach` is reachability through stored, decodable blocks;
`Complete` says that everything reachable is stored, accepted and decodable.
-/
import Ursa.Theory.Worklist
import Ursa.Types
import Mathlib.Data.List.AList
import Mathlib.Algebra.GroupWithZero.Nat

namespace Ursa

set_option autoImplicit false

open Ursa.Theory (Outcome)
open Ursa.Theory.Worklist (search fanout)

/-! ## The database -/

structure Store where
  db : AList (fun _ : Bytes => Bytes)

/-- What the code uses of `libipld::Block<DefaultParams>`. -/
structure Blocks where
  /-- `Block::new` accepts the data: size, hash function and digest are right. -/
  new : Cid → Bytes → Bool
  /-- `Block::references`; `none` when the data cannot be decoded. -/
  references : Cid → Bytes → Option (List Cid)

namespace Store

def empty : Store := ⟨∅⟩

def read (s : Store) (key : Bytes) : Option Bytes := s.db.lookup key

def write (s : Store) (key value : Bytes) : Store := ⟨s.db.insert key value⟩

/-! `BlockStore` -/

def get (s : Store) (cid : Cid) : Option Bytes := s.read cid.toBytes

def has (s : Store) (cid : Cid) : Bool := (s.read cid.toBytes).isSome

def put (s : Store) (cid : Cid) (data : Bytes) : Store := s.write cid.toBytes data

/-! `BitswapStorage` -/

def contains (s : Store) (cid : Cid) : Bool := (s.read cid.toBytes).isSome

/-- The CIDs that are stored. -/
def cids (s : Store) : List Cid := s.db.keys.map Cid.mk

@[simp] theorem get_put_self (s : Store) (cid : Cid) (data : Bytes) :
    (s.put cid data).get cid = some data := by
  simp [get, put, read, write]

@[simp] theorem get_put_of_ne (s : Store) {cid other : Cid} (data : Bytes) (ne : other ≠ cid) :
    (s.put cid data).get other = s.get other := by
  have keys : other.toBytes ≠ cid.toBytes := fun same => ne (congrArg Cid.mk same)
  simp [get, put, read, write, AList.lookup_insert_ne keys]

/-- What is read after a write was written, or was there before. -/
theorem get_put_cases {s : Store} {cid other : Cid} {data value : Bytes}
    (found : (s.put cid data).get other = some value) :
    (other = cid ∧ value = data) ∨ s.get other = some value := by
  by_cases same : other = cid
  · subst same
    rw [get_put_self] at found
    exact .inl ⟨rfl, (Option.some.inj found).symm⟩
  · rw [get_put_of_ne s data same] at found
    exact .inr found

theorem has_iff (s : Store) (cid : Cid) : s.has cid = true ↔ ∃ data, s.get cid = some data := by
  rw [has, Option.isSome_iff_exists]
  rfl

theorem contains_iff (s : Store) (cid : Cid) :
    s.contains cid = true ↔ ∃ data, s.get cid = some data := by
  rw [contains, Option.isSome_iff_exists]
  rfl

theorem mem_cids {s : Store} {cid : Cid} {data : Bytes} (stored : s.get cid = some data) :
    cid ∈ s.cids := by
  have key : cid.toBytes ∈ s.db.keys := by
    rw [← AList.mem_keys, ← AList.lookup_isSome, Option.isSome_iff_exists]
    exact ⟨data, stored⟩
  exact List.mem_map.mpr ⟨_, key, rfl⟩

theorem nodup_cids (s : Store) : s.cids.Nodup :=
  (AList.keys_nodup s.db).map fun _ _ same => Cid.mk.inj same

theorem contains_put (s : Store) (cid : Cid) (data : Bytes) (other : Cid) :
    (s.put cid data).contains other = true ↔ other = cid ∨ s.contains other = true := by
  simp only [contains_iff]
  by_cases same : other = cid
  · subst same
    simp
  · simp [same]

/-! ## Traversals -/

end Store

inductive DagError where
  /-- "Some of the cids for root is missing for the root .." -/
  | missing (root : Cid)
  /-- `references` could not decode a block. -/
  | undecodable (cid : Cid)
  /-- The database could not be read. -/
  | database (reason : String)
  deriving DecidableEq, Repr

variable (B : Blocks)

/-- The body of the traversal for a CID met for the first time: read the block,
check it (`Block::new(..).unwrap()`), collect its references. -/
def visitBlock (s : Store) (root cid : Cid) : Outcome DagError ((Cid × Bytes) × List Cid) :=
  match s.get (convertCid cid.toBytes) with
  | some data =>
      if B.new cid data then
        match B.references cid data with
        | some links => .ok ((convertCid cid.toBytes, data), links)
        | none => .err (.undecodable cid)
      else .panic "called `Result::unwrap()` on an `Err` value"
  | none => .err (.missing root)

/-- One turn for the root, one for every reference of a stored block, one to see that
nothing is pending. -/
def dagFuel (s : Store) (root : Cid) : Nat :=
  (s.cids.map (fanout (visitBlock B s root))).sum + 2

/-- `dag_traversal`: `order` says which element of the pending set comes next. -/
def dagTraversal (order : Nat → List Cid → Nat) (s : Store) (root : Cid) :
    Outcome DagError (List (Cid × Bytes)) :=
  search (visitBlock B s root) order (dagFuel B s root) 0 [convertCid root.toBytes] [] []

/-- The same visit on a database whose reads can fail: `get(..)?` hands the error on. -/
def readBlock (fault : Cid → Option String) (s : Store) (root cid : Cid) :
    Outcome DagError ((Cid × Bytes) × List Cid) :=
  match fault cid with
  | some reason => .err (.database reason)
  | none => visitBlock B s root cid

/-- The traversal on such a database; `fault` says which reads fail.  It asks for a CID at
most once. -/
def dagTraversalOn (fault : Cid → Option String) (order : Nat → List Cid → Nat) (s : Store)
    (root : Cid) : Outcome DagError (List (Cid × Bytes)) :=
  search (readBlock B fault s root) order (dagFuel B s root) 0 [convertCid root.toBytes] [] []

/-- The loop of `missing_blocks`.  The stack's top is the head of the list; the links
of a block are pushed in order, so the last one is on top. -/
def missingLoop (s : Store) : Nat → List Cid → List Cid → Outcome DagError (List Cid)
  | 0, _, _ => .diverge
  | _ + 1, [], missing => .ok missing
  | fuel + 1, cid :: stack, missing =>
      match s.get cid with
      | some data =>
          match B.references cid data with
          | some links => missingLoop s fuel (links.reverse ++ stack) missing
          | none => .err (.undecodable cid)
      | none => missingLoop s fuel stack (missing ++ [cid])

/-- `missing_blocks` returns `Ok(missing)`: the loop ends after some number of turns. -/
def MissingBlocks (s : Store) (cid : Cid) (missing : List Cid) : Prop :=
  ∃ fuel, missingLoop B s fuel [cid] [] = .ok missing

/-! ## Reachability and completeness -/

/-- The links of a stored, decodable block. -/
def links (s : Store) (cid : Cid) : Option (List Cid) :=
  (s.get cid).bind (B.references cid)

abbrev Reach (s : Store) : Cid → Cid → Prop := Theory.Worklist.Reach (links B s)

/-- The block is stored, accepted by `Block::new` and decodable. -/
def Valid (s : Store) (cid : Cid) : Prop :=
  ∃ data refs, s.get cid = some data ∧ B.new cid data = true ∧ B.references cid data = some refs

/-- The whole DAG under the root is there and every block of it is valid. -/
def Complete (s : Store) (root : Cid) : Prop := ∀ cid, Reach B s root cid → Valid B s cid

/-- Every CID of the DAG is stored. -/
def DagPresent (s : Store) (root : Cid) : Prop :=
  ∀ cid, Reach B s root cid → s.contains cid = true

/-- What a traversal of the root's DAG has to return: each reachable CID once with
the bytes stored under it, nothing else, the root first. -/
structure DagOf (s : Store) (root : Cid) (dag : List (Cid × Bytes)) : Prop where
  nodup : (dag.map Prod.fst).Nodup
  mem_iff : ∀ cid, cid ∈ dag.map Prod.fst ↔ Reach B s root cid
  stored : ∀ e ∈ dag, s.get e.1 = some e.2
  first : (dag.map Prod.fst).head? = some root

end Ursa
