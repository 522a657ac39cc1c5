/-
# DagCbor — IPLD values as CBOR items

`forest_encoding::to_vec` and `from_slice` write and read DAG-CBOR.  `Ipld.toItem`
is that mapping: a link is tag 42 over a byte string that starts with a zero byte,
text is its UTF-8 bytes, map keys are text.  `ofItem` reads an item back.

`toVec` fails exactly on values whose lengths or integers do not fit in 64 bits.
On every other value `fromSlice` undoes it (`fromSlice_toVec`), so no two values
share their bytes (`toVec_inj`).
-/
import Ursa.Theory.Cbor
import Ursa.Types

namespace Ursa.DagCbor

set_option autoImplicit false

open Ursa.Theory.Cbor (Item)

def utf8 (s : String) : Bytes := s.toByteArray.data.toList

theorem utf8_append (s t : String) : utf8 (s ++ t) = utf8 s ++ utf8 t := by
  simp [utf8, String.toByteArray_append]

def ofUtf8 (b : Bytes) : Option String := String.fromUTF8? ⟨b.toArray⟩

theorem ofUtf8_utf8 (s : String) : ofUtf8 (utf8 s) = some s := by
  have bytes : (⟨(utf8 s).toArray⟩ : ByteArray) = s.toByteArray := by simp [utf8]
  unfold ofUtf8 String.fromUTF8?
  rw [bytes, dif_pos s.isValidUTF8]
  rfl

theorem utf8_inj {s s' : String} (same : utf8 s = utf8 s') : s = s' := by
  have := ofUtf8_utf8 s
  rw [same, ofUtf8_utf8] at this
  exact (Option.some.inj this).symm

mutual
/-- The item of a value. -/
def toItem : Ipld → Item
  | .null => .null
  | .bool b => .bool b
  | .integer (.ofNat n) => .uint n
  | .integer (.negSucc n) => .nint n
  | .float bits => .float bits
  | .string s => .text (utf8 s)
  | .bytes b => .bytes b
  | .list items => .array (toItems items)
  | .map entries => .map (toEntries entries)
  | .link cid => .tag 42 (.bytes (0 :: cid.bytes))
def toItems : List Ipld → List Item
  | [] => []
  | v :: rest => toItem v :: toItems rest
def toEntry : String × Ipld → Item × Item
  | (key, value) => (.text (utf8 key), toItem value)
def toEntries : List (String × Ipld) → List (Item × Item)
  | [] => []
  | e :: rest => toEntry e :: toEntries rest
end

mutual
/-- The value of an item, if it is DAG-CBOR. -/
def ofItem : Item → Option Ipld
  | .null => some .null
  | .bool b => some (.bool b)
  | .uint n => some (.integer (.ofNat n))
  | .nint n => some (.integer (.negSucc n))
  | .float bits => some (.float bits)
  | .text b => (ofUtf8 b).map .string
  | .bytes b => some (.bytes b)
  | .array items => (ofItems items).map .list
  | .map entries => (ofEntries entries).map .map
  | .tag 42 (.bytes (0 :: cid)) => some (.link ⟨cid⟩)
  | .tag _ _ => none
def ofItems : List Item → Option (List Ipld)
  | [] => some []
  | item :: rest =>
      match ofItem item, ofItems rest with
      | some v, some vs => some (v :: vs)
      | _, _ => none
def ofEntry : Item × Item → Option (String × Ipld)
  | (.text key, value) =>
      match ofUtf8 key, ofItem value with
      | some key, some value => some (key, value)
      | _, _ => none
  | _ => none
def ofEntries : List (Item × Item) → Option (List (String × Ipld))
  | [] => some []
  | e :: rest =>
      match ofEntry e, ofEntries rest with
      | some e, some es => some (e :: es)
      | _, _ => none
end

mutual
theorem ofItem_toItem : ∀ v : Ipld, ofItem (toItem v) = some v
  | .null => rfl
  | .bool _ => rfl
  | .integer (.ofNat _) => rfl
  | .integer (.negSucc _) => rfl
  | .float _ => rfl
  | .string s => by simp [toItem, ofItem, ofUtf8_utf8]
  | .bytes _ => rfl
  | .list items => by simp [toItem, ofItem, ofItems_toItems items]
  | .map entries => by simp [toItem, ofItem, ofEntries_toEntries entries]
  | .link cid => by simp [toItem, ofItem]
theorem ofItems_toItems : ∀ vs : List Ipld, ofItems (toItems vs) = some vs
  | [] => rfl
  | v :: rest => by simp [toItems, ofItems, ofItem_toItem v, ofItems_toItems rest]
theorem ofEntry_toEntry : ∀ e : String × Ipld, ofEntry (toEntry e) = some e
  | (key, value) => by simp [toEntry, ofEntry, ofUtf8_utf8, ofItem_toItem value]
theorem ofEntries_toEntries : ∀ es : List (String × Ipld), ofEntries (toEntries es) = some es
  | [] => rfl
  | e :: rest => by simp [toEntries, ofEntries, ofEntry_toEntry e, ofEntries_toEntries rest]
end

/-! ## The serialisers -/

/-- `forest_encoding::to_vec` on one value. -/
def toVec (v : Ipld) : Except String Bytes :=
  if (toItem v).fits then .ok (Theory.Cbor.encode (toItem v))
  else .error "value does not fit in CBOR"

/-- `forest_encoding::from_slice` into one value. -/
def fromSlice (b : Bytes) : Except String Ipld :=
  match (Theory.Cbor.decode b).bind ofItem with
  | some v => .ok v
  | none => .error "not DAG-CBOR"

/-- **Reading undoes writing.** -/
theorem fromSlice_toVec {v : Ipld} {b : Bytes} (written : toVec v = .ok b) :
    fromSlice b = .ok v := by
  unfold toVec at written
  split at written
  · rename_i fits
    cases written
    simp [fromSlice, Theory.Cbor.decode_encode _ fits, ofItem_toItem]
  · cases written

/-- No two values have the same bytes. -/
theorem toVec_inj {v v' : Ipld} {b : Bytes} (written : toVec v = .ok b)
    (written' : toVec v' = .ok b) : v = v' := by
  have same := (fromSlice_toVec written).symm.trans (fromSlice_toVec written')
  exact Except.ok.inj same

/-! ## Lists of byte strings -/

theorem toItems_bytes {α : Type} (f : α → Bytes) (xs : List α) :
    toItems (xs.map fun x => .bytes (f x)) = xs.map fun x => Item.bytes (f x) := by
  induction xs with
  | nil => rfl
  | cons x xs ih => simp [toItems, toItem, ih]

theorem allFit_bytes {α : Type} (f : α → Bytes) {xs : List α}
    (small : ∀ x ∈ xs, (f x).length < 2 ^ 64) :
    Theory.Cbor.allFit (xs.map fun x => .bytes (f x)) = true := by
  induction xs with
  | nil => rfl
  | cons x xs ih =>
      simp only [List.forall_mem_cons] at small
      simp only [List.map_cons, Theory.Cbor.allFit, Item.fits, Bool.and_eq_true, decide_eq_true_eq]
      exact ⟨small.1, ih small.2⟩

/-! ## Identity CIDs -/

/-- A version 1 CID over the identity multihash. -/
def identityCid (codec : UInt8) (b : Bytes) : Cid :=
  ⟨0x01 :: codec :: 0x00 :: UInt8.ofNat b.length :: b⟩

theorem identityCid_injective {codec codec' : UInt8} {a b : Bytes}
    (same : identityCid codec a = identityCid codec' b) : codec = codec' ∧ a = b := by
  simp only [identityCid, Cid.mk.injEq, List.cons.injEq] at same
  exact ⟨same.2.1, same.2.2.2.2⟩

/-! ## The links of a value -/

mutual
/-- The CIDs a value links to, in order. -/
def references : Ipld → List Cid
  | .list items => referencesAll items
  | .map entries => referencesEntries entries
  | .link cid => [cid]
  | _ => []
def referencesAll : List Ipld → List Cid
  | [] => []
  | v :: rest => references v ++ referencesAll rest
def referencesEntry : String × Ipld → List Cid
  | (_, value) => references value
def referencesEntries : List (String × Ipld) → List Cid
  | [] => []
  | e :: rest => referencesEntry e ++ referencesEntries rest
end

end Ursa.DagCbor
