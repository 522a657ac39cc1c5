/-
# IndexProvider.PlainDeps — an executable instance of the provider's dependencies

`Deps` is an interface to libraries.  `plainDeps` implements it with DAG-CBOR for
serialisation and with CIDs that carry the object's bytes in an identity multihash,
so that the assumption of collision freedom is a theorem here
(`plainDeps_collisionFree`) and not a wish: entry lists are read back from their
encoding (`plainDeps_fromSlice_toVec`), and every call can be evaluated.  An object
too large for DAG-CBOR gets a CID over another code (`wide`), so every object has one.

The digest and the envelope keep all the bytes they are given; nothing proved about
the provider depends on what they compute.
-/
import Ursa.DagCbor
import Ursa.IndexProvider.Advertisement
import Ursa.Theory.LinkedChain
import Mathlib.Logic.Equiv.Nat

namespace Ursa.IndexProvider

set_option autoImplicit false

open Ursa.Theory.LinkedChain (CollisionFree)

/-! ## A code for every value -/

open DagCbor (utf8 utf8_inj identityCid identityCid_injective)

/-- A number as that many ones and a zero. -/
def unary (n : Nat) : Bytes := List.replicate n 1 ++ [0]

/-- A byte string with its length in front. -/
def sized (b : Bytes) : Bytes := unary b.length ++ b

mutual
def wide : Ipld → Bytes
  | .null => [0]
  | .bool b => [1, if b then 1 else 0]
  | .integer n => 2 :: unary (Equiv.intEquivNat n)
  | .float bits => 4 :: unary bits.toNat
  | .string s => 5 :: sized (utf8 s)
  | .bytes b => 6 :: sized b
  | .list items => 7 :: wideAll items
  | .map entries => 8 :: wideEntries entries
  | .link cid => 9 :: sized cid.bytes
def wideAll : List Ipld → Bytes
  | [] => [0]
  | v :: rest => 1 :: (wide v ++ wideAll rest)
def wideEntry : String × Ipld → Bytes
  | (key, value) => sized (utf8 key) ++ wide value
def wideEntries : List (String × Ipld) → Bytes
  | [] => [0]
  | e :: rest => 1 :: (wideEntry e ++ wideEntries rest)
end

theorem unary_inj {m n : Nat} {r r' : Bytes} (same : unary m ++ r = unary n ++ r') :
    m = n ∧ r = r' := by
  induction m generalizing n with
  | zero =>
      cases n with
      | zero => simpa [unary] using same
      | succ n => simp [unary, List.replicate_succ] at same
  | succ m ih =>
      cases n with
      | zero => simp [unary, List.replicate_succ] at same
      | succ n =>
          have rest : unary m ++ r = unary n ++ r' := by
            simpa [unary, List.replicate_succ] using same
          simpa using ih rest

theorem sized_inj {b b' r r' : Bytes} (same : sized b ++ r = sized b' ++ r') :
    b = b' ∧ r = r' := by
  simp only [sized, List.append_assoc] at same
  obtain ⟨length, rest⟩ := unary_inj same
  exact List.append_inj rest length

mutual
theorem wide_inj : ∀ (v w : Ipld) (r r' : Bytes), wide v ++ r = wide w ++ r' → v = w ∧ r = r'
  | v, w, r, r', same => by
      -- Values of different kinds differ in the first byte.
      cases v <;> cases w <;>
        simp only [wide, List.cons_append, List.nil_append, List.cons.injEq, true_and] at same <;>
        (try exact absurd same.1 (by decide))
      case null.null => exact ⟨rfl, same⟩
      case bool.bool b b' =>
          obtain ⟨bit, rest⟩ := same
          refine ⟨?_, rest⟩
          cases b <;> cases b' <;> first | rfl | exact absurd bit (by decide)
      case integer.integer n n' =>
          obtain ⟨number, rest⟩ := unary_inj same
          exact ⟨congrArg _ (Equiv.intEquivNat.injective number), rest⟩
      case float.float bits bits' =>
          obtain ⟨number, rest⟩ := unary_inj same
          exact ⟨congrArg _ (UInt64.toNat_inj.mp number), rest⟩
      case string.string s s' =>
          obtain ⟨text, rest⟩ := sized_inj same
          exact ⟨congrArg _ (utf8_inj text), rest⟩
      case bytes.bytes b b' =>
          obtain ⟨rfl, rest⟩ := sized_inj same
          exact ⟨rfl, rest⟩
      case list.list items items' =>
          obtain ⟨rfl, rest⟩ := wideAll_inj items items' _ _ same
          exact ⟨rfl, rest⟩
      case map.map entries entries' =>
          obtain ⟨rfl, rest⟩ := wideEntries_inj entries entries' _ _ same
          exact ⟨rfl, rest⟩
      case link.link cid cid' =>
          obtain ⟨bytes, rest⟩ := sized_inj same
          exact ⟨congrArg _ (congrArg Cid.mk bytes), rest⟩
theorem wideAll_inj : ∀ (vs ws : List Ipld) (r r' : Bytes),
    wideAll vs ++ r = wideAll ws ++ r' → vs = ws ∧ r = r'
  | [], [], r, r', same => by simpa [wideAll] using same
  | [], _ :: _, r, r', same => by simp [wideAll] at same
  | _ :: _, [], r, r', same => by simp [wideAll] at same
  | v :: vs, w :: ws, r, r', same => by
      simp only [wideAll, List.cons_append, List.cons.injEq, true_and, List.append_assoc] at same
      obtain ⟨rfl, tail⟩ := wide_inj v w _ _ same
      obtain ⟨rfl, rest⟩ := wideAll_inj vs ws _ _ tail
      exact ⟨rfl, rest⟩
theorem wideEntry_inj : ∀ (e f : String × Ipld) (r r' : Bytes),
    wideEntry e ++ r = wideEntry f ++ r' → e = f ∧ r = r'
  | (key, value), (key', value'), r, r', same => by
      simp only [wideEntry, List.append_assoc] at same
      obtain ⟨text, tail⟩ := sized_inj same
      obtain ⟨rfl, rest⟩ := wide_inj value value' _ _ tail
      exact ⟨by rw [utf8_inj text], rest⟩
theorem wideEntries_inj : ∀ (es fs : List (String × Ipld)) (r r' : Bytes),
    wideEntries es ++ r = wideEntries fs ++ r' → es = fs ∧ r = r'
  | [], [], r, r', same => by simpa [wideEntries] using same
  | [], _ :: _, r, r', same => by simp [wideEntries] at same
  | _ :: _, [], r, r', same => by simp [wideEntries] at same
  | e :: es, f :: fs, r, r', same => by
      simp only [wideEntries, List.cons_append, List.cons.injEq, true_and,
        List.append_assoc] at same
      obtain ⟨rfl, tail⟩ := wideEntry_inj e f _ _ same
      obtain ⟨rfl, rest⟩ := wideEntries_inj es fs _ _ tail
      exact ⟨rfl, rest⟩
end

/-! ## Addresses -/

/-- The CID of an object: `dag-cbor` where that can write it, otherwise `raw`. -/
def plainCid (o : Ipld) : Cid :=
  match DagCbor.toVec o with
  | .ok b => identityCid 0x71 b
  | .error _ => identityCid 0x55 (wide o)

theorem plainCid_injective {o o' : Ipld} (same : plainCid o = plainCid o') : o = o' := by
  unfold plainCid at same
  split at same
  · rename_i b written
    split at same
    · rename_i b' written'
      obtain rfl := (identityCid_injective same).2
      exact DagCbor.toVec_inj written written'
    · exact absurd (identityCid_injective same).1 (by decide)
  · split at same
    · exact absurd (identityCid_injective same).1 (by decide)
    · have code := (identityCid_injective same).2
      exact (wide_inj o o' [] [] (by rw [code])).1

/-! ## The instance -/

def hexDigit (c : Char) : Option UInt8 :=
  if '0' ≤ c ∧ c ≤ '9' then some (c.toNat - '0'.toNat).toUInt8
  else if 'a' ≤ c ∧ c ≤ 'f' then some (c.toNat - 'a'.toNat + 10).toUInt8
  else none

def fromHex : List Char → Option Bytes
  | [] => some []
  | [_] => none
  | high :: low :: rest =>
      match hexDigit high, hexDigit low, fromHex rest with
      | some h, some l, some bytes => some ((h * 16 + l) :: bytes)
      | _, _, _ => none

/-- A CID in the base-16 multibase form, which starts with `f`. -/
def cidFromHex (s : String) : Except String Cid :=
  match s.toList with
  | 'f' :: digits =>
      match fromHex digits with
      | some bytes => .ok ⟨bytes⟩
      | none => .error "invalid base16"
  | _ => .error "unknown multibase"

def plainDeps : Deps Unit where
  sha256 payload := 0x12 :: 0x20 :: payload
  signedEnvelope _ domain payloadType payload :=
    .ok (DagCbor.utf8 domain ++ DagCbor.utf8 payloadType ++ payload)
  objCid o := some (plainCid o)
  objBytes o := (DagCbor.toVec o).toOption.getD []
  toVec items := DagCbor.toVec (.list items)
  fromSlice b :=
    match DagCbor.fromSlice b with
    | .ok (.list items) => .ok items
    | .ok _ => .error "expected a list"
    | .error reason => .error reason
  -- one byte of version, one of codec; a multihash holds at most 64 bytes of digest
  multihash cid := (cid.bytes.drop 2).take 66
  cidFromStr := cidFromHex
  multiaddrFromStr s := .ok (if s = "" then [] else [.other s])
  -- of the URLs, those of one scheme
  parsesUrl s := s.toList.take 8 = "https://".toList

theorem plainDeps_collisionFree : CollisionFree plainDeps.objCid := by
  intro o o' c own own'
  exact plainCid_injective ((Option.some.inj own).trans (Option.some.inj own').symm)

/-- Lists of byte strings are encoded and read back. -/
theorem plainDeps_fromSlice_toVec (hs : List Bytes) (count : hs.length < 2 ^ 64)
    (each : ∀ h ∈ hs, h.length < 2 ^ 64) :
    ∃ b, plainDeps.toVec (hs.map .bytes) = .ok b ∧
      plainDeps.fromSlice b = .ok (hs.map .bytes) := by
  have items : DagCbor.toItems (hs.map .bytes) = hs.map fun h => .bytes (id h) :=
    DagCbor.toItems_bytes id hs
  have fits : (DagCbor.toItem (.list (hs.map .bytes))).fits = true := by
    simp only [DagCbor.toItem, items, Theory.Cbor.Item.fits, List.length_map, Bool.and_eq_true,
      decide_eq_true_eq]
    exact ⟨count, DagCbor.allFit_bytes id each⟩
  have written : DagCbor.toVec (.list (hs.map .bytes)) =
      .ok (Theory.Cbor.encode (DagCbor.toItem (.list (hs.map .bytes)))) := by
    rw [DagCbor.toVec, if_pos fits]
  refine ⟨_, written, ?_⟩
  simp only [plainDeps, DagCbor.fromSlice_toVec written]

end Ursa.IndexProvider
