/-
# IndexProvider.Announcement — the bytes of an announcement

`Message::marshal_cbor` in `ursa-index-provider/src/provider.rs`.  The item is put together by
hand: the head of an array of three, and then a CID, a list of addresses and an empty byte
string, each from an encoder of its own.

`marshalCbor_eq` says that this is the encoding of one DAG-CBOR value, `Message.toIpld`; it is
read back as such, with nothing left over and whatever follows it
(`announcement_is_uniquely_decodable`).
-/
import Ursa.DagCbor
import Ursa.IndexProvider.Provider
import Ursa.Theory.Varint

namespace Ursa.IndexProvider

set_option autoImplicit false

open Ursa.Theory (Outcome)
open Ursa.Theory.Cbor (Item head encode encodeAll decodeItem)

/-- What the code uses of `libipld_cbor`, `forest_encoding` and `multiaddr`. -/
structure AnnounceLib where
  /-- `Cid::encode` with `DagCborCodec` -/
  encodeCid : Cid → Bytes
  /-- `<[u8]>::encode` with `DagCborCodec` -/
  encodeBytes : Bytes → Bytes
  /-- `forest_encoding::to_vec` -/
  toVec : List Multiaddr → Except String Bytes
  /-- `Multiaddr::to_vec` -/
  addrBytes : Multiaddr → Bytes
  /-- `Multiaddr::try_from` -/
  ofAddrBytes : Bytes → Option Multiaddr

/-- A CID is written as tag 42 over a byte string, a byte slice as a byte string, and a list of
addresses as an array of byte strings.  Addresses are read back from their bytes. -/
structure AnnounceLib.Lawful (lib : AnnounceLib) : Prop where
  encodeCid : ∀ cid, lib.encodeCid cid = encode (.tag 42 (.bytes (0 :: cid.toBytes)))
  encodeBytes : ∀ b, lib.encodeBytes b = encode (.bytes b)
  toVec : ∀ addrs,
    lib.toVec addrs = .ok (encode (.array (addrs.map fun a => .bytes (lib.addrBytes a))))
  addr : ∀ a, lib.ofAddrBytes (lib.addrBytes a) = some a

variable (lib : AnnounceLib)

/-! ## Writing -/

/-- `marshal_cbor`; `ExtraData` has no bytes.  Writing into a vector does not fail. -/
def Message.marshalCbor (m : Message) : Outcome String Bytes :=
  let bytes : Bytes := [131] ++ lib.encodeCid m.cid
  match lib.toVec m.addrs with
  | .error _ => .panic "addresses serialization cannot fail"
  | .ok encodedAddrs => .ok (bytes ++ encodedAddrs ++ lib.encodeBytes [])

/-- The value that the bytes stand for. -/
def Message.toIpld (m : Message) : Ipld :=
  .list [.link m.cid, .list (m.addrs.map fun a => .bytes (lib.addrBytes a)), .bytes []]

/-- A message that memory can hold: a vector has less than `2 ^ 63` items. -/
structure MemMessage extends Message where
  cidLength : cid.toBytes.length < 2 ^ 63
  count : addrs.length < 2 ^ 63
  addrLength : ∀ a ∈ addrs, (lib.addrBytes a).length < 2 ^ 63

/-! ## Reading -/

def addrOfIpld : Ipld → Option Multiaddr
  | .bytes b => lib.ofAddrBytes b
  | _ => none

def Message.ofIpld : Ipld → Option Message
  | .list [.link cid, .list addrs, .bytes []] =>
      (addrs.mapM (addrOfIpld lib)).map fun addrs => { cid, addrs }
  | _ => none

/-- What a DAG-CBOR decoder makes of the bytes. -/
def Message.unmarshalCbor (b : Bytes) : Option Message :=
  match DagCbor.fromSlice b with
  | .ok v => Message.ofIpld lib v
  | .error _ => none

variable {lib}

/-! ## One item -/

/-- **The pieces make one item.** -/
theorem marshalCbor_eq (lawful : lib.Lawful) (m : Message) :
    m.marshalCbor lib = .ok (encode (DagCbor.toItem (m.toIpld lib))) := by
  have three : head 4 3 = [131] := by decide
  simp only [Message.marshalCbor, lawful.toVec, lawful.encodeCid, lawful.encodeBytes,
    Message.toIpld, DagCbor.toItem, DagCbor.toItems, DagCbor.toItems_bytes]
  simp [encode, encodeAll, three, Cid.toBytes]

/-- The lengths of a message in memory can be written. -/
theorem MemMessage.fits (m : MemMessage lib) : (DagCbor.toItem (m.toIpld lib)).Fits := by
  have cid : m.cid.bytes.length < 2 ^ 63 := m.cidLength
  have count := m.count
  have addrs : Theory.Cbor.allFit (m.addrs.map fun a => .bytes (lib.addrBytes a)) = true :=
    DagCbor.allFit_bytes lib.addrBytes fun a member => Nat.lt_trans (m.addrLength a member) (by decide)
  simp only [Message.toIpld, DagCbor.toItem, DagCbor.toItems, DagCbor.toItems_bytes, Item.Fits,
    Item.fits, Theory.Cbor.allFit, Bool.and_eq_true, decide_eq_true_eq, List.length_cons,
    List.length_nil, List.length_map, addrs, and_true]
  omega

theorem mapM_addrOfIpld (lawful : lib.Lawful) (addrs : List Multiaddr) :
    (addrs.map fun a => Ipld.bytes (lib.addrBytes a)).mapM (addrOfIpld lib) = some addrs := by
  induction addrs with
  | nil => rfl
  | cons a addrs ih => simp [List.mapM_cons, addrOfIpld, lawful.addr, ih]

theorem ofIpld_toIpld (lawful : lib.Lawful) (m : Message) :
    Message.ofIpld lib (m.toIpld lib) = some m := by
  simp [Message.ofIpld, Message.toIpld, mapM_addrOfIpld lawful]

/-- The bytes are one value, with nothing left over. -/
theorem fromSlice_marshalCbor (lawful : lib.Lawful) (m : MemMessage lib) {b : Bytes}
    (written : m.marshalCbor lib = .ok b) : DagCbor.fromSlice b = .ok (m.toIpld lib) := by
  rw [marshalCbor_eq lawful] at written
  apply DagCbor.fromSlice_toVec
  rw [DagCbor.toVec, if_pos m.fits, Outcome.ok.inj written]

theorem unmarshalCbor_marshalCbor (lawful : lib.Lawful) (m : MemMessage lib) {b : Bytes}
    (written : m.marshalCbor lib = .ok b) : Message.unmarshalCbor lib b = some m.toMessage := by
  rw [Message.unmarshalCbor, fromSlice_marshalCbor lawful m written]
  exact ofIpld_toIpld lawful m.toMessage

/-- Whatever follows the item is left over. -/
theorem decodeItem_marshalCbor (lawful : lib.Lawful) (m : MemMessage lib) {b : Bytes}
    (written : m.marshalCbor lib = .ok b) (rest : Bytes) {fuel : Nat} (enough : b.length ≤ fuel) :
    decodeItem fuel (b ++ rest) = some (DagCbor.toItem (m.toIpld lib), rest) := by
  rw [marshalCbor_eq lawful] at written
  obtain rfl := Outcome.ok.inj written
  exact Theory.Cbor.decodeItem_encode _ fuel rest m.fits
    (Nat.le_trans (Theory.Cbor.depth_le_length _) enough)

/-- Two messages whose bytes start one byte string are the same, and so is what follows. -/
theorem marshalCbor_prefix_inj (lawful : lib.Lawful) {m m' : MemMessage lib} {b b' : Bytes}
    (written : m.marshalCbor lib = .ok b) (written' : m'.marshalCbor lib = .ok b')
    {rest rest' : Bytes} (same : b ++ rest = b' ++ rest') :
    m.toMessage = m'.toMessage ∧ rest = rest' := by
  have first := decodeItem_marshalCbor lawful m written rest (Nat.le_max_left _ b'.length)
  have second := decodeItem_marshalCbor lawful m' written' rest' (Nat.le_max_right b.length _)
  rw [same, second] at first
  obtain ⟨item, follows⟩ := Prod.mk.inj (Option.some.inj first)
  refine ⟨?_, follows.symm⟩
  have value : m'.toIpld lib = m.toIpld lib := by
    have read := congrArg DagCbor.ofItem item
    rw [DagCbor.ofItem_toItem, DagCbor.ofItem_toItem] at read
    exact Option.some.inj read
  have message := congrArg (Message.ofIpld lib) value
  rw [ofIpld_toIpld lawful, ofIpld_toIpld lawful] at message
  exact (Option.some.inj message).symm

/-- **An announcement is one item, and says one thing.**  Every message is written; a DAG-CBOR
decoder reads its bytes, with nothing left over, as the link, the addresses' bytes in order
and an empty byte string, and leaves over whatever else follows them.  The message is read back
from them, and no other message has them. -/
theorem announcement_is_uniquely_decodable (lib : AnnounceLib) (lawful : lib.Lawful) :
    (∀ m : MemMessage lib, ∃ b, m.marshalCbor lib = .ok b ∧
      DagCbor.fromSlice b =
        .ok (.list [.link m.cid, .list (m.addrs.map fun a => .bytes (lib.addrBytes a)), .bytes []]) ∧
      (∀ rest, decodeItem b.length (b ++ rest) =
        some (.array [.tag 42 (.bytes (0 :: m.cid.toBytes)),
          .array (m.addrs.map fun a => .bytes (lib.addrBytes a)), .bytes []], rest)) ∧
      Message.unmarshalCbor lib b = some m.toMessage) ∧
    ∀ m m' : MemMessage lib, m.marshalCbor lib = m'.marshalCbor lib → m.toMessage = m'.toMessage := by
  constructor
  · intro m
    have written := marshalCbor_eq lawful m.toMessage
    refine ⟨_, written, fromSlice_marshalCbor lawful m written, ?_,
      unmarshalCbor_marshalCbor lawful m written⟩
    intro rest
    rw [decodeItem_marshalCbor lawful m written rest (Nat.le_refl _)]
    simp only [Message.toIpld, DagCbor.toItem, DagCbor.toItems, DagCbor.toItems_bytes, Cid.toBytes]
  · intro m m' same
    have written := marshalCbor_eq lawful m.toMessage
    have written' : m'.marshalCbor lib = .ok _ := same ▸ written
    exact (marshalCbor_prefix_inj lawful written written' (congrArg (· ++ []) rfl)).1

/-! ## The head that is announced -/

section Created

variable {K : Type} {deps : Deps K} {p : Provider K} {peerId : PeerId} {s : Shared}

/-- `create_announce_msg` -/
def createAnnounceBytes (deps : Deps K) (lib : AnnounceLib) (p : Provider K) (peerId : PeerId)
    (s : Shared) : Outcome String Bytes :=
  match createAnnounceMsg deps p peerId s with
  | .ok message => message.marshalCbor lib
  | .err e => .err e
  | .panic m => .panic m
  | .diverge => .diverge

theorem head_of_createAnnounceMsg {message : Message}
    (created : createAnnounceMsg deps p peerId s = .ok message) : s.head = some message.cid := by
  unfold createAnnounceMsg at created
  repeat' split at created
  all_goals cases created
  assumption

/-- Who reads the bytes learns the provider's head. -/
theorem announced_head_is_read (lawful : lib.Lawful) {message : MemMessage lib}
    (created : createAnnounceMsg deps p peerId s = .ok message.toMessage) :
    ∃ b, createAnnounceBytes deps lib p peerId s = .ok b ∧
      (Message.unmarshalCbor lib b).map Message.cid = s.head := by
  have written := marshalCbor_eq lawful message.toMessage
  simp only [createAnnounceBytes, created]
  refine ⟨_, written, ?_⟩
  rw [unmarshalCbor_marshalCbor lawful message written, head_of_createAnnounceMsg created]
  rfl

end Created

/-! ## An executable instance -/

open Ursa.Theory

/-- TCP and circuits as they are written; of the others the text. -/
def plainComponent : Protocol → Bytes
  | .tcp port => [6, UInt8.ofNat (port.toNat / 256), UInt8.ofNat (port.toNat % 256)]
  | .p2pCircuit => [0xa2, 0x02]
  | .ip4 address => 4 :: Varint.frame (DagCbor.utf8 address)
  | .ip6 address => 41 :: Varint.frame (DagCbor.utf8 address)
  | .p2p peer => 0xa5 :: 0x03 :: Varint.frame (DagCbor.utf8 peer.base58)
  | .other text => 0 :: Varint.frame (DagCbor.utf8 text)

def readText (make : String → Protocol) (s : Bytes) : Option (Protocol × Bytes) :=
  match Varint.readFrame s with
  | none => none
  | some (text, rest) => (DagCbor.ofUtf8 text).map fun text => (make text, rest)

def readComponent : Bytes → Option (Protocol × Bytes)
  | 6 :: high :: low :: rest =>
      some (.tcp (UInt16.ofNat (high.toNat * 256 + low.toNat)), rest)
  | 0xa2 :: 0x02 :: rest => some (.p2pCircuit, rest)
  | 4 :: rest => readText .ip4 rest
  | 41 :: rest => readText .ip6 rest
  | 0xa5 :: 0x03 :: rest => readText (fun base58 => .p2p ⟨base58⟩) rest
  | 0 :: rest => readText .other rest
  | _ => none

/-- Components up to the end, at most `fuel` of them. -/
def readComponents : Nat → Bytes → Option Multiaddr
  | _, [] => some []
  | 0, _ :: _ => none
  | fuel + 1, s@(_ :: _) =>
      match readComponent s with
      | none => none
      | some (component, rest) => (readComponents fuel rest).map (component :: ·)

theorem readText_frame (make : String → Protocol) (text : String) (rest : Bytes) :
    readText make (Varint.frame (DagCbor.utf8 text) ++ rest) = some (make text, rest) := by
  simp [readText, Varint.readFrame_frame, DagCbor.ofUtf8_utf8]

theorem readComponent_plainComponent (component : Protocol) (rest : Bytes) :
    readComponent (plainComponent component ++ rest) = some (component, rest) := by
  cases component with
  | tcp port =>
      have small : port.toNat < 2 ^ 16 := port.toNat_lt
      have high : port.toNat / 256 < 256 := by omega
      have low : port.toNat % 256 < 256 := Nat.mod_lt _ (by decide)
      have whole : port.toNat / 256 * 256 + port.toNat % 256 = port.toNat := by omega
      simp [plainComponent, readComponent, Nat.mod_eq_of_lt high, whole]
  | p2pCircuit => rfl
  | ip4 address => exact readText_frame .ip4 address rest
  | ip6 address => exact readText_frame .ip6 address rest
  | p2p peer => exact readText_frame (fun base58 => .p2p ⟨base58⟩) peer.base58 rest
  | other text => exact readText_frame .other text rest

theorem plainComponent_eq_cons (component : Protocol) :
    ∃ first more, plainComponent component = first :: more := by
  cases component <;> exact ⟨_, _, rfl⟩

theorem readComponents_flatten (address : Multiaddr) (fuel : Nat)
    (enough : (address.map plainComponent).flatten.length ≤ fuel) :
    readComponents fuel (address.map plainComponent).flatten = some address := by
  induction address generalizing fuel with
  | nil => cases fuel <;> rfl
  | cons component address ih =>
      obtain ⟨first, more, shape⟩ := plainComponent_eq_cons component
      have read := readComponent_plainComponent component (address.map plainComponent).flatten
      simp only [List.map_cons, List.flatten_cons, shape, List.cons_append, List.length_cons,
        List.length_append] at enough read ⊢
      cases fuel with
      | zero => omega
      | succ fuel => simp [readComponents, read, ih fuel (by omega)]

def plainAnnounceLib : AnnounceLib where
  encodeCid cid := encode (.tag 42 (.bytes (0 :: cid.toBytes)))
  encodeBytes b := encode (.bytes b)
  toVec addrs := .ok (encode (.array (addrs.map fun a => .bytes (a.map plainComponent).flatten)))
  addrBytes a := (a.map plainComponent).flatten
  ofAddrBytes b := readComponents b.length b

theorem plainAnnounceLib_lawful : plainAnnounceLib.Lawful where
  encodeCid _ := rfl
  encodeBytes _ := rfl
  toVec _ := rfl
  addr a := readComponents_flatten a _ (Nat.le_refl _)

/-- A CID and one address, `/tcp/8070/p2p-circuit`. -/
def sampleMessage : MemMessage plainAnnounceLib where
  cid := ⟨[1, 113, 0, 0]⟩
  addrs := [[.tcp 8070, .p2pCircuit]]
  cidLength := by decide
  count := by decide
  addrLength := by decide

theorem announcement_is_uniquely_decodable_sample :
    ∃ b, sampleMessage.marshalCbor plainAnnounceLib = .ok b ∧
      Message.unmarshalCbor plainAnnounceLib b = some sampleMessage.toMessage := by
  obtain ⟨b, written, -, -, read⟩ :=
    (announcement_is_uniquely_decodable plainAnnounceLib plainAnnounceLib_lawful).1 sampleMessage
  exact ⟨b, written, read⟩

example : sampleMessage.marshalCbor plainAnnounceLib =
    .ok [131, 0xd8, 42, 0x45, 0, 1, 113, 0, 0, 0x81, 0x45, 6, 31, 134, 0xa2, 2, 0x40] := by
  decide

end Ursa.IndexProvider
