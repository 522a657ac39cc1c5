/-
# Theory.Varint — unsigned varints and length-prefixed frames

An unsigned varint writes a number seven bits at a time, least significant first,
with the high bit set on every byte but the last.  A frame is a byte string with its
length in front, as a varint.

* `decode_encode` — a varint is read back with everything after it left over.
* `readFrame_frame` — so is a frame.
* `readFrames_frames` — so is a sequence of frames, up to the end of the input.
-/
import Mathlib.Algebra.Order.Group.Nat
import Mathlib.Data.List.Basic

namespace Ursa.Theory.Varint

set_option autoImplicit false

abbrev Bytes := List UInt8

/-! ## Varints -/

/-- At most `fuel + 1` groups of seven bits. -/
def encodeGroups : Nat → Nat → Bytes
  | 0, n => [UInt8.ofNat (n % 128)]
  | fuel + 1, n =>
      if n < 128 then [UInt8.ofNat n]
      else UInt8.ofNat (n % 128 + 128) :: encodeGroups fuel (n / 128)

def encode (n : Nat) : Bytes := encodeGroups n n

def decode : Bytes → Option (Nat × Bytes)
  | [] => none
  | b :: rest =>
      if b.toNat < 128 then some (b.toNat, rest)
      else (decode rest).map fun r => (b.toNat - 128 + 128 * r.1, r.2)

theorem decode_encodeGroups (fuel n : Nat) (enough : n ≤ fuel) (rest : Bytes) :
    decode (encodeGroups fuel n ++ rest) = some (n, rest) := by
  induction fuel generalizing n with
  | zero =>
      obtain rfl := Nat.le_zero.mp enough
      rfl
  | succ fuel ih =>
      rw [encodeGroups]
      split
      · rename_i small
        have byte : (UInt8.ofNat n).toNat = n := by
          rw [UInt8.toNat_ofNat']
          exact Nat.mod_eq_of_lt (by omega)
        simp [decode, byte, small]
      · rename_i large
        have byte : (UInt8.ofNat (n % 128 + 128)).toNat = n % 128 + 128 := by
          rw [UInt8.toNat_ofNat']
          exact Nat.mod_eq_of_lt (by omega)
        have inner := ih (n / 128) (by omega)
        rw [List.cons_append, decode, byte, if_neg (by omega), inner]
        simp only [Option.map_some, Option.some.injEq, Prod.mk.injEq, and_true]
        omega

theorem decode_encode (n : Nat) (rest : Bytes) : decode (encode n ++ rest) = some (n, rest) :=
  decode_encodeGroups n n (Nat.le_refl n) rest

theorem encode_ne_nil (n : Nat) : encode n ≠ [] := by
  cases n with
  | zero => simp [encode, encodeGroups]
  | succ n =>
      rw [encode, encodeGroups]
      split <;> simp

/-! ## How long a varint is -/

/-- The high bit says that another byte follows. -/
def continues (b : UInt8) : Bool := 128 ≤ b.toNat

theorem length_takeWhile_encodeGroups (fuel n : Nat) (rest : Bytes) :
    ((encodeGroups fuel n ++ rest).takeWhile continues).length + 1 =
      (encodeGroups fuel n).length := by
  have ending : ∀ m < 128, continues (UInt8.ofNat m) = false := by
    intro m small
    have byte : (UInt8.ofNat m).toNat = m := by
      rw [UInt8.toNat_ofNat']
      exact Nat.mod_eq_of_lt (by omega)
    simp only [continues, byte, decide_eq_false_iff_not]
    omega
  induction fuel generalizing n with
  | zero => simp [encodeGroups, ending (n % 128) (by omega)]
  | succ fuel ih =>
      rw [encodeGroups]
      split
      · rename_i small
        simp [ending n small]
      · have byte : (UInt8.ofNat (n % 128 + 128)).toNat = n % 128 + 128 := by
          rw [UInt8.toNat_ofNat']
          exact Nat.mod_eq_of_lt (by omega)
        have further : continues (UInt8.ofNat (n % 128 + 128)) = true := by
          simp only [continues, byte, decide_eq_true_eq]
          omega
        rw [List.cons_append, List.takeWhile_cons_of_pos further, List.length_cons, ih,
          List.length_cons]

theorem length_encodeGroups_le (fuel n k : Nat) (positive : 0 < k) (small : n < 128 ^ k) :
    (encodeGroups fuel n).length ≤ k := by
  induction fuel generalizing n k with
  | zero => exact positive
  | succ fuel ih =>
      rw [encodeGroups]
      split
      · exact positive
      · rename_i large
        cases k with
        | zero => omega
        | succ k =>
            have inner : n / 128 < 128 ^ k := by
              rw [Nat.pow_succ] at small
              omega
            have further : 0 < k := by
              rcases Nat.eq_zero_or_pos k with rfl | further
              · omega
              · exact further
            have shorter := ih (n / 128) k further inner
            rw [List.length_cons]
            omega

/-! ## Frames -/

def frame (b : Bytes) : Bytes := encode b.length ++ b

def readFrame (s : Bytes) : Option (Bytes × Bytes) :=
  match decode s with
  | none => none
  | some (n, rest) => if n ≤ rest.length then some (rest.take n, rest.drop n) else none

theorem readFrame_frame (b rest : Bytes) : readFrame (frame b ++ rest) = some (b, rest) := by
  simp [readFrame, frame, List.append_assoc, decode_encode]

def frames (bs : List Bytes) : Bytes := (bs.map frame).flatten

/-- Read frames to the end of the input, at most `fuel` of them. -/
def readFramesLoop : Nat → Bytes → Option (List Bytes)
  | _, [] => some []
  | 0, _ :: _ => none
  | fuel + 1, s@(_ :: _) =>
      match readFrame s with
      | none => none
      | some (b, rest) => (readFramesLoop fuel rest).map (b :: ·)

def readFrames (s : Bytes) : Option (List Bytes) := readFramesLoop s.length s

theorem readFramesLoop_frames (bs : List Bytes) (fuel : Nat) (enough : bs.length ≤ fuel) :
    readFramesLoop fuel (frames bs) = some bs := by
  induction bs generalizing fuel with
  | nil => cases fuel <;> rfl
  | cons b rest ih =>
      cases fuel with
      | zero => simp at enough
      | succ fuel =>
          have inner := ih fuel (by simpa using enough)
          have shape : frames (b :: rest) = frame b ++ frames rest := rfl
          obtain ⟨x, xs, nonempty⟩ : ∃ x xs, frame b ++ frames rest = x :: xs :=
            List.exists_cons_of_ne_nil (by simp [frame, encode_ne_nil])
          have read := readFrame_frame b (frames rest)
          rw [shape, nonempty, readFramesLoop, ← nonempty, read]
          simp [inner]

theorem length_le_frames (bs : List Bytes) : bs.length ≤ (frames bs).length := by
  induction bs with
  | nil => exact Nat.le_refl _
  | cons b rest ih =>
      have positive : 0 < (encode b.length).length := List.length_pos_of_ne_nil (encode_ne_nil _)
      have shape : frames (b :: rest) = encode b.length ++ b ++ frames rest := rfl
      rw [shape]
      simp only [List.length_append, List.length_cons]
      omega

theorem readFrames_frames (bs : List Bytes) : readFrames (frames bs) = some bs :=
  readFramesLoop_frames bs _ (length_le_frames bs)

end Ursa.Theory.Varint
