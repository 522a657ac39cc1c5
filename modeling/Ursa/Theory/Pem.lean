/-
# Theory.Pem — bytes in textual armour

A text with a tag and base64 between two lines of dashes.  `encode` writes lines of 64
characters that end in a carriage return and a line feed.  `parse` takes the first block of
a text: it looks for the markers one after the other, wants the same tag at both ends, and
joins the lines between them.

`parse_encode` is the round trip, for tags without dashes.
-/
import Ursa.Theory.Base64

namespace Ursa.Theory

set_option autoImplicit false

structure Pem where
  tag : String
  contents : List UInt8
  deriving DecidableEq

namespace Pem

/-! ## Markers -/

def beginMarker : List Char := "-----BEGIN ".toList

def endMarker : List Char := "-----END ".toList

def dashes : List Char := "-----".toList

/-! ## Writing -/

/-- Lines of at most 64 characters. -/
def wrap : Nat → List Char → List Char
  | _, [] => []
  | 0, text => text
  | fuel + 1, c :: text =>
      (c :: text).take 64 ++ ('\r' :: '\n' :: wrap fuel ((c :: text).drop 64))

def encode (p : Pem) : String :=
  let body := Base64.encode p.contents
  String.ofList (beginMarker ++ (p.tag.toList ++ (dashes ++ ('\r' :: '\n' ::
    (wrap body.length body ++ (endMarker ++ (p.tag.toList ++ (dashes ++
      ['\r', '\n']))))))))

/-! ## Reading -/

/-- What stands before and after the first occurrence of a marker. -/
def cut (marker : List Char) : List Char → Option (List Char × List Char)
  | [] => if marker = [] then some ([], []) else none
  | c :: text =>
      if marker.isPrefixOf (c :: text) then some ([], (c :: text).drop marker.length)
      else (cut marker text).map fun r => (c :: r.1, r.2)

/-- The lines of a text, joined. -/
def unwrap : List Char → List Char
  | [] => []
  | '\r' :: '\n' :: text => unwrap text
  | '\n' :: text => unwrap text
  | c :: text => c :: unwrap text

def parse (text : String) : Option Pem :=
  match cut beginMarker text.toList with
  | none => none
  | some (_, text) =>
      match cut dashes text with
      | none => none
      | some (tag, text) =>
          match cut endMarker text with
          | none => none
          | some (body, text) =>
              match cut dashes text with
              | none => none
              | some (tag', _) =>
                  if tag = [] ∨ tag ≠ tag' then none
                  else
                    (Base64.decode (unwrap (body.dropWhile Char.isWhitespace))).map fun contents =>
                      { tag := String.ofList tag, contents }

/-! ## The round trip -/

/-- A marker that starts with a dash is found behind a text without dashes. -/
theorem cut_append {marker before : List Char} (dash : marker.head? = some '-')
    (clean : '-' ∉ before) (after : List Char) :
    cut marker (before ++ (marker ++ after)) = some (before, after) := by
  obtain ⟨marker, rfl⟩ := List.head?_eq_some_iff.mp dash
  induction before with
  | nil => simp [cut]
  | cons c before ih =>
      have other : c ≠ '-' := fun same => clean (same ▸ List.mem_cons_self)
      have rest : '-' ∉ before := fun member => clean (List.mem_cons_of_mem _ member)
      have no : ('-' == c) = false := by simpa using other.symm
      rw [List.cons_append, cut, List.isPrefixOf_cons_cons, no, ih rest]
      rfl

/-- What `wrap` adds is only line ends. -/
theorem mem_wrap {fuel : Nat} {text : List Char} {c : Char} (member : c ∈ wrap fuel text) :
    c ∈ text ∨ c = '\r' ∨ c = '\n' := by
  fun_induction wrap fuel text with
  | case1 => exact .inl member
  | case2 => exact .inl member
  | case3 fuel d text ih =>
      rcases List.mem_append.mp member with first | later
      · exact .inl (List.mem_of_mem_take first)
      · rcases List.mem_cons.mp later with rfl | later
        · exact .inr (.inl rfl)
        · rcases List.mem_cons.mp later with rfl | later
          · exact .inr (.inr rfl)
          · rcases ih later with old | ends
            · exact .inl (List.mem_of_mem_drop old)
            · exact .inr ends

theorem unwrap_append {line : List Char} (clean : ∀ c ∈ line, c ≠ '\r' ∧ c ≠ '\n')
    (rest : List Char) : unwrap (line ++ rest) = line ++ unwrap rest := by
  induction line with
  | nil => rfl
  | cons c line ih =>
      obtain ⟨⟨notReturn, notFeed⟩, others⟩ := List.forall_mem_cons.mp clean
      rw [List.cons_append, unwrap.eq_4, ih others]
      · rfl
      · rintro text rfl
        exact absurd rfl notReturn
      · rintro rfl
        exact absurd rfl notFeed

theorem unwrap_wrap {fuel : Nat} {text : List Char} (enough : text.length ≤ fuel)
    (clean : ∀ c ∈ text, c ≠ '\r' ∧ c ≠ '\n') : unwrap (wrap fuel text) = text := by
  fun_induction wrap fuel text with
  | case1 => rfl
  | case2 text nonempty =>
      exact absurd (List.eq_nil_of_length_eq_zero (Nat.le_zero.mp enough)) nonempty
  | case3 fuel c text ih =>
      have first : ∀ d ∈ (c :: text).take 64, d ≠ '\r' ∧ d ≠ '\n' :=
        fun d member => clean d (List.mem_of_mem_take member)
      have later : ∀ d ∈ (c :: text).drop 64, d ≠ '\r' ∧ d ≠ '\n' :=
        fun d member => clean d (List.mem_of_mem_drop member)
      have shorter : ((c :: text).drop 64).length ≤ fuel := by
        simp only [List.length_drop, List.length_cons] at enough ⊢
        omega
      rw [unwrap_append first, unwrap, ih shorter later, List.take_append_drop]

/-- The text of base64 holds no dash and no white space. -/
theorem clean_encode (b : List UInt8) {c other : Char} (member : c ∈ Base64.encode b)
    (outside : Base64.value other = none) (notPadding : other ≠ '=') : c ≠ other := by
  rcases List.mem_append.mp member with letter | padding
  · exact (Base64.inAlphabet_digits b c letter).ne outside
  · rw [List.eq_of_mem_replicate padding]
    exact notPadding.symm

theorem dropWhile_wrap {fuel : Nat} {text : List Char}
    (clean : ∀ c ∈ text, Char.isWhitespace c = false) :
    (wrap fuel text).dropWhile Char.isWhitespace = wrap fuel text := by
  fun_induction wrap fuel text with
  | case1 => rfl
  | case2 text nonempty =>
      cases text with
      | nil => rfl
      | cons c text => simp [clean c List.mem_cons_self]
  | case3 fuel c text ih => simp [clean c List.mem_cons_self]

/-- **Reading undoes writing**, for a tag that is not empty and holds no dash. -/
theorem parse_encode (p : Pem) (tagged : p.tag ≠ "") (clean : '-' ∉ p.tag.toList) :
    parse p.encode = some p := by
  have noDash : ∀ c ∈ Base64.encode p.contents, c ≠ '-' := fun c member =>
    clean_encode p.contents member (by decide) (by decide)
  have noReturn : ∀ c ∈ Base64.encode p.contents, c ≠ '\r' ∧ c ≠ '\n' := fun c member =>
    ⟨clean_encode p.contents member (by decide) (by decide),
      clean_encode p.contents member (by decide) (by decide)⟩
  have noSpace : ∀ c ∈ Base64.encode p.contents, Char.isWhitespace c = false := by
    intro c member
    have space : c ≠ ' ' := clean_encode p.contents member (by decide) (by decide)
    have tab : c ≠ '\t' := clean_encode p.contents member (by decide) (by decide)
    simp [Char.isWhitespace, space, tab, noReturn c member]
  -- Between the markers stand the line end of the first one and the wrapped base64.
  have body : '-' ∉ '\r' :: '\n' ::
      wrap (Base64.encode p.contents).length (Base64.encode p.contents) := by
    intro member
    simp only [List.mem_cons, Char.reduceEq, false_or] at member
    rcases mem_wrap member with inside | ends
    · exact noDash '-' inside rfl
    · revert ends
      decide
  have named : p.tag.toList ≠ [] := by
    intro empty
    exact tagged (String.toList_eq_nil_iff.mp empty)
  have first : beginMarker.head? = some '-' := by decide
  have between : dashes.head? = some '-' := by decide
  have last : endMarker.head? = some '-' := by decide
  have spaces : Char.isWhitespace '\r' = true ∧ Char.isWhitespace '\n' = true := by decide
  rw [parse, encode, String.toList_ofList]
  rw [← List.nil_append (beginMarker ++ _), cut_append first List.not_mem_nil]
  simp only [cut_append between clean]
  rw [← List.cons_append, ← List.cons_append]
  simp only [cut_append last body, cut_append between clean, List.dropWhile_cons, spaces.1, spaces.2,
    if_true, dropWhile_wrap noSpace, unwrap_wrap (Nat.le_refl _) noReturn, Base64.decode_encode,
    Option.map_some, String.ofList_toList]
  rw [if_neg]
  rintro (empty | different)
  · exact named empty
  · exact different rfl

end Pem

end Ursa.Theory
