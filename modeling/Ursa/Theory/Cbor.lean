/-
# Theory.Cbor — definite-length CBOR: heads, items, and decoding undoes encoding

The fragment of CBOR that DAG-CBOR uses.  An item starts with a head: three bits
of major type and an argument, written in the head byte below 24 and otherwise in
the shortest of one, two, four or eight big-endian bytes after it.

* `head` / `readHead` — a head is read back with everything after it left over,
  for every argument below `2 ^ 64` (`readHead_head`).
* `Item`, `encode`, `decode` — items over heads.  `Item.Fits` says that every
  length and argument in the item is below `2 ^ 64`, which is what an encoder can
  be given; such an item is decoded from its encoding (`decode_encode`).

Text is kept as its UTF-8 bytes: which byte strings are text is the business of
whoever builds the item.
-/
import Mathlib.Data.Nat.Basic
import Mathlib.Algebra.Order.Group.Nat

namespace Ursa.Theory.Cbor

set_option autoImplicit false

abbrev Bytes := List UInt8

/-! ## Big-endian arguments -/

/-- The low `w` bytes of `n`, most significant first. -/
def be : Nat → Nat → Bytes
  | 0, _ => []
  | w + 1, n => UInt8.ofNat (n / 256 ^ w) :: be w n

def ofBe : Bytes → Nat
  | [] => 0
  | b :: rest => b.toNat * 256 ^ rest.length + ofBe rest

@[simp] theorem length_be (w n : Nat) : (be w n).length = w := by
  induction w with
  | zero => rfl
  | succ w ih => simp [be, ih]

theorem ofBe_be (w n : Nat) : ofBe (be w n) = n % 256 ^ w := by
  induction w with
  | zero => simp [be, ofBe, Nat.mod_one]
  | succ w ih =>
      have digits : n % 256 ^ (w + 1) = n % 256 ^ w + 256 ^ w * (n / 256 ^ w % 256) :=
        Nat.mod_pow_succ
      simp only [be, ofBe, length_be, ih, UInt8.toNat_ofNat', digits]
      rw [Nat.add_comm, Nat.mul_comm]

/-! ## Heads -/

/-- The head of an item of the given major type with argument `n`. -/
def head (major n : Nat) : Bytes :=
  if n < 24 then [UInt8.ofNat (major * 32 + n)]
  else if n < 256 then UInt8.ofNat (major * 32 + 24) :: be 1 n
  else if n < 65536 then UInt8.ofNat (major * 32 + 25) :: be 2 n
  else if n < 4294967296 then UInt8.ofNat (major * 32 + 26) :: be 4 n
  else UInt8.ofNat (major * 32 + 27) :: be 8 n

/-- The argument that the low five bits `info` of a head byte announce. -/
def readArgument (info : Nat) (rest : Bytes) : Option (Nat × Bytes) :=
  if info < 24 then some (info, rest)
  else if info < 28 then
    if rest.length < 2 ^ (info - 24) then none
    else some (ofBe (rest.take (2 ^ (info - 24))), rest.drop (2 ^ (info - 24)))
  else none

/-- Major type, argument and what follows. -/
def readHead : Bytes → Option (Nat × Nat × Bytes)
  | [] => none
  | b :: rest => (readArgument (b.toNat % 32) rest).map fun a => (b.toNat / 32, a.1, a.2)

theorem headByte_toNat {major info : Nat} (hm : major < 8) (hi : info < 32) :
    (UInt8.ofNat (major * 32 + info)).toNat = major * 32 + info := by
  rw [UInt8.toNat_ofNat']
  omega

theorem readHead_cons {major info : Nat} (hm : major < 8) (hi : info < 32) (rest : Bytes) :
    readHead (UInt8.ofNat (major * 32 + info) :: rest) =
      (readArgument info rest).map fun a => (major, a.1, a.2) := by
  have hinfo : (major * 32 + info) % 32 = info := by omega
  have hmajor : (major * 32 + info) / 32 = major := by omega
  simp only [readHead, headByte_toNat hm hi, hinfo, hmajor]

/-- An argument written in `2 ^ k` bytes is read back. -/
theorem readArgument_be {k n : Nat} (hk : k < 4) (hn : n < 256 ^ 2 ^ k) (rest : Bytes) :
    readArgument (24 + k) (be (2 ^ k) n ++ rest) = some (n, rest) := by
  have h24 : ¬ 24 + k < 24 := by omega
  have h28 : 24 + k < 28 := by omega
  have long : ¬ (be (2 ^ k) n ++ rest).length < 2 ^ k := by simp
  simp only [readArgument, if_neg h24, if_pos h28, Nat.add_sub_cancel_left, if_neg long]
  rw [List.take_left' (length_be _ _), List.drop_left' (length_be _ _), ofBe_be,
    Nat.mod_eq_of_lt hn]

/-- **A head is read back**, with everything after it left over. -/
theorem readHead_head {major n : Nat} (hm : major < 8) (hn : n < 2 ^ 64) (rest : Bytes) :
    readHead (head major n ++ rest) = some (major, n, rest) := by
  unfold head
  split
  · rename_i small
    rw [List.singleton_append, readHead_cons hm (by omega)]
    simp [readArgument, small]
  split
  · rename_i small
    rw [List.cons_append, readHead_cons hm (by omega)]
    have argument : readArgument 24 (be 1 n ++ rest) = some (n, rest) :=
      readArgument_be (k := 0) (by omega) (by simpa using small) rest
    simp [argument]
  split
  · rename_i small
    rw [List.cons_append, readHead_cons hm (by omega)]
    have argument : readArgument 25 (be 2 n ++ rest) = some (n, rest) :=
      readArgument_be (k := 1) (by omega) (by simpa using small) rest
    simp [argument]
  split
  · rename_i small
    rw [List.cons_append, readHead_cons hm (by omega)]
    have argument : readArgument 26 (be 4 n ++ rest) = some (n, rest) :=
      readArgument_be (k := 2) (by omega) (by simpa using small) rest
    simp [argument]
  · rw [List.cons_append, readHead_cons hm (by omega)]
    have argument : readArgument 27 (be 8 n ++ rest) = some (n, rest) :=
      readArgument_be (k := 3) (by omega) (by simpa using hn) rest
    simp [argument]

theorem head_ne_nil (major n : Nat) : head major n ≠ [] := by
  unfold head
  repeat' split
  all_goals simp

/-! ## Items -/

inductive Item where
  | uint (n : Nat)
  /-- The integer `-1 - n`. -/
  | nint (n : Nat)
  | bytes (b : Bytes)
  | text (b : Bytes)
  | array (items : List Item)
  | map (entries : List (Item × Item))
  | tag (n : Nat) (item : Item)
  | bool (b : Bool)
  | null
  | float (bits : UInt64)

mutual
/-- The bytes of an item. -/
def encode : Item → Bytes
  | .uint n => head 0 n
  | .nint n => head 1 n
  | .bytes b => head 2 b.length ++ b
  | .text b => head 3 b.length ++ b
  | .array items => head 4 items.length ++ encodeAll items
  | .map entries => head 5 entries.length ++ encodeEntries entries
  | .tag n item => head 6 n ++ encode item
  | .bool b => [if b then 0xf5 else 0xf4]
  | .null => [0xf6]
  | .float bits => 0xfb :: be 8 bits.toNat
def encodeAll : List Item → Bytes
  | [] => []
  | item :: rest => encode item ++ encodeAll rest
def encodeEntry : Item × Item → Bytes
  | (key, value) => encode key ++ encode value
def encodeEntries : List (Item × Item) → Bytes
  | [] => []
  | e :: rest => encodeEntry e ++ encodeEntries rest
end

mutual
/-- Every length and argument is below `2 ^ 64`. -/
def Item.fits : Item → Bool
  | .uint n => decide (n < 2 ^ 64)
  | .nint n => decide (n < 2 ^ 64)
  | .bytes b => decide (b.length < 2 ^ 64)
  | .text b => decide (b.length < 2 ^ 64)
  | .array items => decide (items.length < 2 ^ 64) && allFit items
  | .map entries => decide (entries.length < 2 ^ 64) && entriesFit entries
  | .tag n item => decide (n < 2 ^ 64) && item.fits
  | .bool _ => true
  | .null => true
  | .float _ => true
def allFit : List Item → Bool
  | [] => true
  | item :: rest => item.fits && allFit rest
def entryFits : Item × Item → Bool
  | (key, value) => key.fits && value.fits
def entriesFit : List (Item × Item) → Bool
  | [] => true
  | e :: rest => entryFits e && entriesFit rest
end

abbrev Item.Fits (item : Item) : Prop := item.fits = true

mutual
/-- How deep items nest: the fuel a decoder needs. -/
def Item.depth : Item → Nat
  | .array items => depthAll items + 1
  | .map entries => depthEntries entries + 1
  | .tag _ item => item.depth + 1
  | _ => 1
def depthAll : List Item → Nat
  | [] => 0
  | item :: rest => max item.depth (depthAll rest)
def depthEntry : Item × Item → Nat
  | (key, value) => max key.depth value.depth
def depthEntries : List (Item × Item) → Nat
  | [] => 0
  | e :: rest => max (depthEntry e) (depthEntries rest)
end

/-! ## Decoding -/

/-- Read `n` things one after the other. -/
def readMany {α : Type} (read : Bytes → Option (α × Bytes)) : Nat → Bytes → Option (List α × Bytes)
  | 0, s => some ([], s)
  | n + 1, s =>
      match read s with
      | none => none
      | some (a, s) => (readMany read n s).map fun r => (a :: r.1, r.2)

def readPair {α : Type} (read : Bytes → Option (α × Bytes)) (s : Bytes) :
    Option ((α × α) × Bytes) :=
  match read s with
  | none => none
  | some (a, s) => (read s).map fun r => ((a, r.1), r.2)

def readBytes (n : Nat) (s : Bytes) : Option (Bytes × Bytes) :=
  if s.length < n then none else some (s.take n, s.drop n)

/-- The items of major type 7: `false`, `true`, `null` and 64-bit floats. -/
def readSimple : Bytes → Option (Item × Bytes)
  | [] => none
  | b :: rest =>
      if b = 0xf4 then some (.bool false, rest)
      else if b = 0xf5 then some (.bool true, rest)
      else if b = 0xf6 then some (.null, rest)
      else if b = 0xfb then
        (readBytes 8 rest).map fun r => (.float (UInt64.ofNat (ofBe r.1)), r.2)
      else none

/-- One item of nesting depth at most the fuel, and what follows it. -/
def decodeItem : Nat → Bytes → Option (Item × Bytes)
  | 0, _ => none
  | fuel + 1, s =>
      match readHead s with
      | none => none
      | some (0, n, rest) => some (.uint n, rest)
      | some (1, n, rest) => some (.nint n, rest)
      | some (2, n, rest) => (readBytes n rest).map fun r => (.bytes r.1, r.2)
      | some (3, n, rest) => (readBytes n rest).map fun r => (.text r.1, r.2)
      | some (4, n, rest) => (readMany (decodeItem fuel) n rest).map fun r => (.array r.1, r.2)
      | some (5, n, rest) =>
          (readMany (readPair (decodeItem fuel)) n rest).map fun r => (.map r.1, r.2)
      | some (6, n, rest) => (decodeItem fuel rest).map fun r => (.tag n r.1, r.2)
      | some _ => readSimple s

/-- The item a whole byte string encodes, with nothing left over. -/
def decode (s : Bytes) : Option Item :=
  match decodeItem s.length s with
  | some (item, []) => some item
  | _ => none

theorem readBytes_append (b rest : Bytes) : readBytes b.length (b ++ rest) = some (b, rest) := by
  have long : ¬ (b ++ rest).length < b.length := by simp
  rw [readBytes, if_neg long, List.take_left, List.drop_left]

theorem decodeItem_float (fuel : Nat) (bits : UInt64) (rest : Bytes) :
    decodeItem (fuel + 1) (0xfb :: be 8 bits.toNat ++ rest) = some (.float bits, rest) := by
  have major : readHead (0xfb :: be 8 bits.toNat ++ rest) = some (7, bits.toNat, rest) := by
    have bound : bits.toNat < 256 ^ 2 ^ 3 := by
      have := bits.toNat_lt
      simpa using this
    have := readArgument_be (k := 3) (by omega) bound rest
    simp only [readHead, List.cons_append]
    simpa using this
  have back : ofBe (be 8 bits.toNat) = bits.toNat := by
    have := bits.toNat_lt
    rw [ofBe_be]
    exact Nat.mod_eq_of_lt (by simpa using this)
  have bytes := readBytes_append (be 8 bits.toNat) rest
  rw [length_be] at bytes
  simp only [decodeItem, major]
  simp [readSimple, bytes, back]

mutual
/-- Reading one item back, with any suffix left over and any larger fuel. -/
theorem decodeItem_encode : ∀ (item : Item) (fuel : Nat) (rest : Bytes), item.Fits →
    item.depth ≤ fuel → decodeItem fuel (encode item ++ rest) = some (item, rest)
  | item, 0, _, _, deep => by
      exfalso
      cases item <;> simp [Item.depth] at deep
  | .uint n, fuel + 1, rest, fits, _ => by
      have hn : n < 2 ^ 64 := by simpa [Item.Fits, Item.fits] using fits
      simp [decodeItem, encode, readHead_head (show 0 < 8 by omega) hn]
  | .nint n, fuel + 1, rest, fits, _ => by
      have hn : n < 2 ^ 64 := by simpa [Item.Fits, Item.fits] using fits
      simp [decodeItem, encode, readHead_head (show 1 < 8 by omega) hn]
  | .bytes b, fuel + 1, rest, fits, _ => by
      have hn : b.length < 2 ^ 64 := by simpa [Item.Fits, Item.fits] using fits
      simp [decodeItem, encode, readHead_head (show 2 < 8 by omega) hn, readBytes_append]
  | .text b, fuel + 1, rest, fits, _ => by
      have hn : b.length < 2 ^ 64 := by simpa [Item.Fits, Item.fits] using fits
      simp [decodeItem, encode, readHead_head (show 3 < 8 by omega) hn, readBytes_append]
  | .array items, fuel + 1, rest, fits, deep => by
      simp only [Item.Fits, Item.fits, Bool.and_eq_true, decide_eq_true_eq] at fits
      have inner := readMany_encodeAll items fuel rest fits.2 (by simpa [Item.depth] using deep)
      simp [decodeItem, encode, readHead_head (show 4 < 8 by omega) fits.1, inner]
  | .map entries, fuel + 1, rest, fits, deep => by
      simp only [Item.Fits, Item.fits, Bool.and_eq_true, decide_eq_true_eq] at fits
      have inner := readMany_encodeEntries entries fuel rest fits.2
        (by simpa [Item.depth] using deep)
      simp [decodeItem, encode, readHead_head (show 5 < 8 by omega) fits.1, inner]
  | .tag n item, fuel + 1, rest, fits, deep => by
      simp only [Item.Fits, Item.fits, Bool.and_eq_true, decide_eq_true_eq] at fits
      have inner := decodeItem_encode item fuel rest fits.2 (by simpa [Item.depth] using deep)
      simp [decodeItem, encode, readHead_head (show 6 < 8 by omega) fits.1, inner]
  | .bool false, fuel + 1, rest, _, _ => by
      have major : readHead (0xf4 :: rest) = some (7, 20, rest) := rfl
      simp [decodeItem, encode, major, readSimple]
  | .bool true, fuel + 1, rest, _, _ => by
      have major : readHead (0xf5 :: rest) = some (7, 21, rest) := rfl
      simp [decodeItem, encode, major, readSimple]
  | .null, fuel + 1, rest, _, _ => by
      have major : readHead (0xf6 :: rest) = some (7, 22, rest) := rfl
      simp [decodeItem, encode, major, readSimple]
  | .float bits, fuel + 1, rest, _, _ => decodeItem_float fuel bits rest
theorem readMany_encodeAll : ∀ (items : List Item) (fuel : Nat) (rest : Bytes),
    allFit items = true → depthAll items ≤ fuel →
      readMany (decodeItem fuel) items.length (encodeAll items ++ rest) = some (items, rest)
  | [], _, _, _, _ => rfl
  | item :: items, fuel, rest, fits, deep => by
      simp only [allFit, Bool.and_eq_true] at fits
      simp only [depthAll, max_le_iff] at deep
      have first := decodeItem_encode item fuel (encodeAll items ++ rest) fits.1 deep.1
      have others := readMany_encodeAll items fuel rest fits.2 deep.2
      simp [readMany, encodeAll, first, others]
theorem readPair_encodeEntry : ∀ (entry : Item × Item) (fuel : Nat) (rest : Bytes),
    entryFits entry = true → depthEntry entry ≤ fuel →
      readPair (decodeItem fuel) (encodeEntry entry ++ rest) = some (entry, rest)
  | (key, value), fuel, rest, fits, deep => by
      simp only [entryFits, Bool.and_eq_true] at fits
      simp only [depthEntry, max_le_iff] at deep
      have first := decodeItem_encode key fuel (encode value ++ rest) fits.1 deep.1
      have second := decodeItem_encode value fuel rest fits.2 deep.2
      simp [readPair, encodeEntry, first, second]
theorem readMany_encodeEntries : ∀ (entries : List (Item × Item)) (fuel : Nat) (rest : Bytes),
    entriesFit entries = true → depthEntries entries ≤ fuel →
      readMany (readPair (decodeItem fuel)) entries.length (encodeEntries entries ++ rest) =
        some (entries, rest)
  | [], _, _, _, _ => rfl
  | entry :: entries, fuel, rest, fits, deep => by
      simp only [entriesFit, Bool.and_eq_true] at fits
      simp only [depthEntries, max_le_iff] at deep
      have first := readPair_encodeEntry entry fuel (encodeEntries entries ++ rest) fits.1 deep.1
      have others := readMany_encodeEntries entries fuel rest fits.2 deep.2
      simp [readMany, encodeEntries, first, others]
end

theorem one_le_length_head (major n : Nat) : 1 ≤ (head major n).length :=
  List.length_pos_iff.mpr (head_ne_nil major n)

mutual
/-- Every level of nesting takes at least one byte, so the length is fuel enough. -/
theorem depth_le_length : ∀ item : Item, item.depth ≤ (encode item).length
  | .uint n => one_le_length_head 0 n
  | .nint n => one_le_length_head 1 n
  | .bytes b => by
      have := one_le_length_head 2 b.length
      simp only [Item.depth, encode, List.length_append]
      omega
  | .text b => by
      have := one_le_length_head 3 b.length
      simp only [Item.depth, encode, List.length_append]
      omega
  | .array items => by
      have := one_le_length_head 4 items.length
      have inner := depthAll_le_length items
      simp only [Item.depth, encode, List.length_append]
      omega
  | .map entries => by
      have := one_le_length_head 5 entries.length
      have inner := depthEntries_le_length entries
      simp only [Item.depth, encode, List.length_append]
      omega
  | .tag n item => by
      have := one_le_length_head 6 n
      have inner := depth_le_length item
      simp only [Item.depth, encode, List.length_append]
      omega
  | .bool _ => by simp [Item.depth, encode]
  | .null => by simp [Item.depth, encode]
  | .float _ => by simp [Item.depth, encode]
theorem depthAll_le_length : ∀ items : List Item, depthAll items ≤ (encodeAll items).length
  | [] => by simp [depthAll]
  | item :: items => by
      have first := depth_le_length item
      have others := depthAll_le_length items
      simp only [depthAll, encodeAll, List.length_append]
      omega
theorem depthEntry_le_length : ∀ entry : Item × Item,
    depthEntry entry ≤ (encodeEntry entry).length
  | (key, value) => by
      have first := depth_le_length key
      have second := depth_le_length value
      simp only [depthEntry, encodeEntry, List.length_append]
      omega
theorem depthEntries_le_length : ∀ entries : List (Item × Item),
    depthEntries entries ≤ (encodeEntries entries).length
  | [] => by simp [depthEntries]
  | entry :: entries => by
      have first := depthEntry_le_length entry
      have others := depthEntries_le_length entries
      simp only [depthEntries, encodeEntries, List.length_append]
      omega
end

/-- **Decoding undoes encoding.** -/
theorem decode_encode (item : Item) (fits : item.Fits) : decode (encode item) = some item := by
  have := decodeItem_encode item (encode item).length [] fits (depth_le_length item)
  rw [List.append_nil] at this
  simp [decode, this]

end Ursa.Theory.Cbor
