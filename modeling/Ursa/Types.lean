/-
# Types — the data model the crates share

Content identifiers, IPLD values, multiaddresses and peer ids, as the node's own
code handles them.

* A `Cid` is its binary form: `to_bytes` is the field, and two CIDs are equal when
  their bytes are.  The node converts between the `cid` and the `libipld` CID types
  through these bytes (`convert_cid`), so one type stands for both.
* `Ipld` is the IPLD data model.  A map is the list of its entries in order; a
  float is its 64 bits.
* A `Multiaddr` is the list of its protocol components.  The node inspects or adds
  five kinds of component and copies the others as they are.
* A `PeerId` is its base58 text (`to_base58`).
-/
import Mathlib.Data.List.Basic

namespace Ursa

set_option autoImplicit false

abbrev Bytes := List UInt8

/-! ## Content identifiers -/

structure Cid where
  bytes : Bytes
  deriving DecidableEq, Repr

def Cid.toBytes (cid : Cid) : Bytes := cid.bytes

/-- `T::try_from(bytes).unwrap()`: the CID with this binary form. -/
def convertCid (bytes : Bytes) : Cid := ⟨bytes⟩

@[simp] theorem convertCid_toBytes (cid : Cid) : convertCid cid.toBytes = cid := rfl

/-! ## IPLD values -/

inductive Ipld where
  | null
  | bool (b : Bool)
  | integer (n : Int)
  | float (bits : UInt64)
  | string (s : String)
  | bytes (b : Bytes)
  | list (items : List Ipld)
  | map (entries : List (String × Ipld))
  | link (cid : Cid)

/-- The value under a key of a map. -/
def Ipld.get (key : String) : Ipld → Option Ipld
  | .map entries => entries.lookup key
  | _ => none

/-- The CID a link holds. -/
def Ipld.asLink : Ipld → Option Cid
  | .link cid => some cid
  | _ => none

/-- The CID linked under a key of a map: what a reader of the object follows. -/
def Ipld.linkAt (key : String) (o : Ipld) : Option Cid :=
  (o.get key).bind Ipld.asLink

@[simp] theorem Ipld.asLink_map_link (link : Option Cid) :
    (link.map Ipld.link).bind Ipld.asLink = link := by
  cases link <;> rfl

/-! ## Multiaddresses and peers -/

structure PeerId where
  base58 : String
  deriving DecidableEq, Repr

def PeerId.toBase58 (peer : PeerId) : String := peer.base58

inductive Protocol where
  | ip4 (address : String)
  | ip6 (address : String)
  | tcp (port : UInt16)
  | p2p (peer : PeerId)
  | p2pCircuit
  /-- Any other component, with its text. -/
  | other (text : String)
  deriving DecidableEq, Repr

def Protocol.toString : Protocol → String
  | .ip4 address => "/ip4/" ++ address
  | .ip6 address => "/ip6/" ++ address
  | .tcp port => "/tcp/" ++ ToString.toString port
  | .p2p peer => "/p2p/" ++ peer.toBase58
  | .p2pCircuit => "/p2p-circuit"
  | .other text => "/" ++ text

abbrev Multiaddr := List Protocol

def Multiaddr.toString (address : Multiaddr) : String :=
  String.join (address.map Protocol.toString)

end Ursa
