/-
# Theory.Json — JSON texts: printing, reading, and reading undoes printing

`Value` is what a JSON text says.  A number is kept as it is written, up to the way its
exponent is written: which numbers of a machine it stands for is the reader's business.

* `print` — the compact text: no white space, `"` and `\` and control characters escaped,
  every other character as it is.
* `parse` — the whole grammar: white space between tokens, every escape (surrogate pairs
  make one character, half a pair is refused), every number; nothing may follow.
* `parse_print` — every value is read from its text.

Characters, not bytes: which byte strings are texts is the business of the caller.
-/
import Mathlib.Data.List.TakeDrop

namespace Ursa.Theory.Json

set_option autoImplicit false

/-! ## Values -/

structure Number where
  negative : Bool
  whole : Nat
  /-- The digits after the point; none without a point. -/
  fraction : List (Fin 10)
  exponent : Option Int
  deriving DecidableEq

inductive Value where
  | null
  | bool (b : Bool)
  | number (n : Number)
  | string (s : String)
  | array (items : List Value)
  | object (members : List (String × Value))

/-- A number without sign, point and exponent. -/
def Value.natural (n : Nat) : Value :=
  .number { negative := false, whole := n, fraction := [], exponent := none }

/-- Induction over a value: its items and the values of its members come first. -/
@[elab_as_elim]
theorem Value.induction {P : Value → Prop} (null : P .null) (bool : ∀ b, P (.bool b))
    (number : ∀ n, P (.number n)) (string : ∀ s, P (.string s))
    (array : ∀ items, (∀ v ∈ items, P v) → P (.array items))
    (object : ∀ members, (∀ m ∈ members, P m.2) → P (.object members)) : ∀ v, P v
  | .null => null
  | .bool b => bool b
  | .number n => number n
  | .string s => string s
  | .array items =>
      array items fun v _ => Value.induction null bool number string array object v
  | .object members =>
      object members fun m _ => Value.induction null bool number string array object m.2
termination_by v => sizeOf v
decreasing_by
  · have := List.sizeOf_lt_of_mem ‹_›
    simp only [Value.array.sizeOf_spec]
    omega
  · have := List.sizeOf_lt_of_mem ‹_›
    obtain ⟨key, value⟩ := m
    simp only [Value.object.sizeOf_spec, Prod.mk.sizeOf_spec] at this ⊢
    omega

/-! ## Printing -/

/-- The letter of a two-character escape. -/
def shortEscape (c : Char) : Option Char :=
  if c = '"' then some '"'
  else if c = '\\' then some '\\'
  else if c = '\x08' then some 'b'
  else if c = '\t' then some 't'
  else if c = '\n' then some 'n'
  else if c = '\x0c' then some 'f'
  else if c = '\r' then some 'r'
  else none

/-- A character inside a string. -/
def escape (c : Char) : List Char :=
  match shortEscape c with
  | some letter => ['\\', letter]
  | none =>
      if c.toNat < 0x20 then
        ['\\', 'u', '0', '0', Nat.digitChar (c.toNat / 16), Nat.digitChar (c.toNat % 16)]
      else [c]

def printString (s : String) : List Char := '"' :: (s.toList.flatMap escape ++ ['"'])

def printFraction : List (Fin 10) → List Char
  | [] => []
  | digits => '.' :: digits.map fun d => Nat.digitChar d.val

def printExponent : Option Int → List Char
  | none => []
  | some (.ofNat n) => 'e' :: Nat.toDigits 10 n
  | some (.negSucc n) => 'e' :: '-' :: Nat.toDigits 10 (n + 1)

def printNumber (n : Number) : List Char :=
  (if n.negative then ['-'] else []) ++
    (Nat.toDigits 10 n.whole ++ (printFraction n.fraction ++ printExponent n.exponent))

/-- Texts with commas between them. -/
def separated : List (List Char) → List Char
  | [] => []
  | text :: texts => text ++ texts.flatMap fun text => ',' :: text

mutual
def print : Value → List Char
  | .null => "null".toList
  | .bool true => "true".toList
  | .bool false => "false".toList
  | .number n => printNumber n
  | .string s => printString s
  | .array items => '[' :: (separated (printItems items) ++ [']'])
  | .object members => '{' :: (separated (printMembers members) ++ ['}'])
def printItems : List Value → List (List Char)
  | [] => []
  | item :: items => print item :: printItems items
def printMember : String × Value → List Char
  | (key, value) => printString key ++ ':' :: print value
def printMembers : List (String × Value) → List (List Char)
  | [] => []
  | m :: members => printMember m :: printMembers members
end

theorem printItems_eq (items : List Value) : printItems items = items.map print := by
  induction items with
  | nil => rfl
  | cons item items ih =>
      show print item :: printItems items = print item :: items.map print
      rw [ih]

theorem printMembers_eq (members : List (String × Value)) :
    printMembers members = members.map printMember := by
  induction members with
  | nil => rfl
  | cons m members ih =>
      show printMember m :: printMembers members = printMember m :: members.map printMember
      rw [ih]

theorem print_array (items : List Value) :
    print (.array items) = '[' :: (separated (items.map print) ++ [']']) := by
  rw [← printItems_eq]
  rfl

theorem print_object (members : List (String × Value)) :
    print (.object members) = '{' :: (separated (members.map printMember) ++ ['}']) := by
  rw [← printMembers_eq]
  rfl

/-! ## Reading -/

def isSpace (c : Char) : Bool := c = ' ' || c = '\n' || c = '\t' || c = '\r'

def skipSpace (text : List Char) : List Char := text.dropWhile isSpace

def hexVal (c : Char) : Option Nat :=
  if '0' ≤ c ∧ c ≤ '9' then some (c.toNat - 48)
  else if 'a' ≤ c ∧ c ≤ 'f' then some (c.toNat - 87)
  else if 'A' ≤ c ∧ c ≤ 'F' then some (c.toNat - 55)
  else none

def readHex4 : List Char → Option (Nat × List Char)
  | a :: b :: c :: d :: rest =>
      match hexVal a, hexVal b, hexVal c, hexVal d with
      | some a, some b, some c, some d => some (((a * 16 + b) * 16 + c) * 16 + d, rest)
      | _, _, _, _ => none
  | _ => none

def isHighSurrogate (n : Nat) : Bool := 0xd800 ≤ n && n < 0xdc00

def isLowSurrogate (n : Nat) : Bool := 0xdc00 ≤ n && n < 0xe000

/-- The character of a `\u` escape, or of two that make a surrogate pair. -/
def readUnicode (text : List Char) : Option (Char × List Char) :=
  match readHex4 text with
  | none => none
  | some (n, rest) =>
      if isHighSurrogate n then
        match rest with
        | '\\' :: 'u' :: rest =>
            match readHex4 rest with
            | none => none
            | some (low, rest) =>
                if isLowSurrogate low then
                  some (Char.ofNat (0x10000 + (n - 0xd800) * 0x400 + (low - 0xdc00)), rest)
                else none
        | _ => none
      else if isLowSurrogate n then none
      else some (Char.ofNat n, rest)

/-- What follows a backslash. -/
def readEscape : List Char → Option (Char × List Char)
  | '"' :: rest => some ('"', rest)
  | '\\' :: rest => some ('\\', rest)
  | '/' :: rest => some ('/', rest)
  | 'b' :: rest => some ('\x08', rest)
  | 'f' :: rest => some ('\x0c', rest)
  | 'n' :: rest => some ('\n', rest)
  | 'r' :: rest => some ('\r', rest)
  | 't' :: rest => some ('\t', rest)
  | 'u' :: rest => readUnicode rest
  | _ => none

/-- The characters of a string up to the closing quote. -/
def readChars : Nat → List Char → Option (List Char × List Char)
  | 0, _ => none
  | _ + 1, [] => none
  | fuel + 1, c :: rest =>
      if c = '"' then some ([], rest)
      else if c = '\\' then
        match readEscape rest with
        | none => none
        | some (c, rest) => (readChars fuel rest).map fun r => (c :: r.1, r.2)
      else if c.toNat < 0x20 then none
      else (readChars fuel rest).map fun r => (c :: r.1, r.2)

def readString (fuel : Nat) (text : List Char) : Option (String × List Char) :=
  (readChars fuel text).map fun r => (String.ofList r.1, r.2)

/-- One digit or more. -/
def readDigits (text : List Char) : Option (List Char × List Char) :=
  if text.takeWhile Char.isDigit = [] then none
  else some (text.takeWhile Char.isDigit, text.dropWhile Char.isDigit)

def digitOf (c : Char) : Fin 10 := Fin.ofNat 10 (c.toNat - 48)

def readFraction : List Char → Option (List (Fin 10) × List Char)
  | '.' :: rest => (readDigits rest).map fun r => (r.1.map digitOf, r.2)
  | rest => some ([], rest)

def readExponent : List Char → Option (Option Int × List Char)
  | [] => some (none, [])
  | c :: rest =>
      if c = 'e' || c = 'E' then
        match rest with
        | '-' :: rest =>
            (readDigits rest).map fun r => (some (-(Nat.ofDigitChars 10 r.1 0 : Int)), r.2)
        | '+' :: rest => (readDigits rest).map fun r => (some (Nat.ofDigitChars 10 r.1 0 : Int), r.2)
        | rest => (readDigits rest).map fun r => (some (Nat.ofDigitChars 10 r.1 0 : Int), r.2)
      else some (none, c :: rest)

def readUnsigned (negative : Bool) (text : List Char) : Option (Number × List Char) :=
  match readDigits text with
  | none => none
  | some (digits, rest) =>
      let whole := Nat.ofDigitChars 10 digits 0
      -- no zeros in front
      if digits = Nat.toDigits 10 whole then
        match readFraction rest with
        | none => none
        | some (fraction, rest) =>
            (readExponent rest).map fun r =>
              ({ negative, whole, fraction, exponent := r.1 }, r.2)
      else none

def readNumber : List Char → Option (Number × List Char)
  | '-' :: rest => readUnsigned true rest
  | rest => readUnsigned false rest

section Lists

variable {α : Type} (read : List Char → Option (α × List Char)) (close : Char)

/-- Further elements, each after a comma, up to the closing character. -/
def readMore : Nat → List Char → Option (List α × List Char)
  | 0, _ => none
  | fuel + 1, text =>
      match skipSpace text with
      | [] => none
      | c :: rest =>
          if c = close then some ([], rest)
          else if c = ',' then
            match read rest with
            | none => none
            | some (a, rest) => (readMore fuel rest).map fun r => (a :: r.1, r.2)
          else none

def readList (fuel : Nat) (text : List Char) : Option (List α × List Char) :=
  match skipSpace text with
  | [] => none
  | c :: rest =>
      if c = close then some ([], rest)
      else
        match read (c :: rest) with
        | none => none
        | some (a, rest) => (readMore read close fuel rest).map fun r => (a :: r.1, r.2)

end Lists

def readMember (fuel : Nat) (read : List Char → Option (Value × List Char)) (text : List Char) :
    Option ((String × Value) × List Char) :=
  match skipSpace text with
  | '"' :: rest =>
      match readString fuel rest with
      | none => none
      | some (key, rest) =>
          match skipSpace rest with
          | ':' :: rest => (read rest).map fun r => ((key, r.1), r.2)
          | _ => none
  | _ => none

/-- The rest of the text after a word. -/
def readWord (word text : List Char) : Option (List Char) :=
  if text.take word.length = word then some (text.drop word.length) else none

/-- One value, and what follows it. -/
def readValue : Nat → List Char → Option (Value × List Char)
  | 0, _ => none
  | fuel + 1, text =>
      match skipSpace text with
      | [] => none
      | c :: rest =>
          if c = '"' then (readString fuel rest).map fun r => (.string r.1, r.2)
          else if c = '[' then
            (readList (readValue fuel) ']' fuel rest).map fun r => (.array r.1, r.2)
          else if c = '{' then
            (readList (readMember fuel (readValue fuel)) '}' fuel rest).map fun r =>
              (.object r.1, r.2)
          else if c = 'n' then (readWord "ull".toList rest).map fun rest => (.null, rest)
          else if c = 't' then (readWord "rue".toList rest).map fun rest => (.bool true, rest)
          else if c = 'f' then (readWord "alse".toList rest).map fun rest => (.bool false, rest)
          else (readNumber (c :: rest)).map fun r => (.number r.1, r.2)

/-- The value of a whole text. -/
def parse (text : List Char) : Option Value :=
  match readValue text.length text with
  | some (v, rest) => if skipSpace rest = [] then some v else none
  | none => none

/-! ## Strings are read back -/

theorem hexVal_digitChar {d : Nat} (small : d < 16) : hexVal (Nat.digitChar d) = some d := by
  have all : ∀ d < 16, hexVal (Nat.digitChar d) = some d := by decide
  exact all d small

/-- A control character is read from the four digits of its code. -/
theorem readUnicode_control {c : Char} (control : c.toNat < 0x20) (rest : List Char) :
    readUnicode ('0' :: '0' :: Nat.digitChar (c.toNat / 16) :: Nat.digitChar (c.toNat % 16) ::
      rest) = some (c, rest) := by
  have code : ((0 * 16 + 0) * 16 + c.toNat / 16) * 16 + c.toNat % 16 = c.toNat := by omega
  have high : hexVal (Nat.digitChar (c.toNat / 16)) = some (c.toNat / 16) :=
    hexVal_digitChar (by omega)
  have low : hexVal (Nat.digitChar (c.toNat % 16)) = some (c.toNat % 16) :=
    hexVal_digitChar (by omega)
  have zero : hexVal '0' = some 0 := by decide
  have notHigh : isHighSurrogate c.toNat = false := by
    simp only [isHighSurrogate, Bool.and_eq_false_iff, decide_eq_false_iff_not]
    omega
  have notLow : isLowSurrogate c.toNat = false := by
    simp only [isLowSurrogate, Bool.and_eq_false_iff, decide_eq_false_iff_not]
    omega
  simp only [readUnicode, readHex4, zero, high, low, code, notHigh, notLow, Bool.false_eq_true,
    if_false, Char.ofNat_toNat]

theorem readEscape_short {c letter : Char} (short : shortEscape c = some letter)
    (rest : List Char) : readEscape (letter :: rest) = some (c, rest) := by
  unfold shortEscape at short
  iterate 7 (split at short; · subst c; cases short; rfl)
  cases short

/-- An escaped character is read back, whatever follows. -/
theorem readChars_escape (fuel : Nat) (c : Char) (rest : List Char) :
    readChars (fuel + 1) (escape c ++ rest) =
      (readChars fuel rest).map fun r => (c :: r.1, r.2) := by
  unfold escape
  cases short : shortEscape c with
  | some letter =>
      simp only [List.cons_append, List.nil_append, readChars, Char.reduceEq, if_false, if_true,
        readEscape_short short]
  | none =>
      dsimp only
      split
      · rename_i control
        have escaped : readEscape ('u' :: '0' :: '0' :: Nat.digitChar (c.toNat / 16) ::
            Nat.digitChar (c.toNat % 16) :: rest) = some (c, rest) :=
          readUnicode_control control rest
        simp only [List.cons_append, List.nil_append, readChars, Char.reduceEq, if_false, if_true,
          escaped]
      · rename_i notControl
        have notQuote : c ≠ '"' := by
          rintro rfl
          cases short
        have notBackslash : c ≠ '\\' := by
          rintro rfl
          cases short
        simp only [List.cons_append, List.nil_append, readChars, notQuote, notBackslash, notControl,
          if_false]

/-- Each character of a string takes one turn, the closing quote one more. -/
theorem readChars_flatMap_escape (chars : List Char) (fuel : Nat) (enough : chars.length < fuel)
    (rest : List Char) :
    readChars fuel (chars.flatMap escape ++ '"' :: rest) = some (chars, rest) := by
  induction chars generalizing fuel with
  | nil =>
      cases fuel with
      | zero => exact absurd enough (Nat.not_lt_zero _)
      | succ fuel => rfl
  | cons c chars ih =>
      cases fuel with
      | zero => exact absurd enough (Nat.not_lt_zero _)
      | succ fuel =>
          have others := ih fuel (by simpa using enough)
          rw [List.flatMap_cons, List.append_assoc, readChars_escape, others]
          rfl

theorem readString_print (s : String) (fuel : Nat) (enough : s.toList.length < fuel)
    (rest : List Char) :
    readString fuel (s.toList.flatMap escape ++ '"' :: rest) = some (s, rest) := by
  rw [readString, readChars_flatMap_escape s.toList fuel enough, Option.map_some]
  simp

theorem one_le_length_escape (c : Char) : 1 ≤ (escape c).length := by
  unfold escape
  split
  · simp
  · split <;> simp

/-- The text of a string is longer than the string by the two quotes at least. -/
theorem length_printString (s : String) : s.toList.length + 2 ≤ (printString s).length := by
  have chars : ∀ l : List Char, l.length ≤ (l.flatMap escape).length := by
    intro l
    induction l with
    | nil => exact Nat.le_refl _
    | cons c l ih =>
        have first := one_le_length_escape c
        rw [List.flatMap_cons, List.length_append, List.length_cons]
        omega
  have := chars s.toList
  simp only [printString, List.length_cons, List.length_append, List.length_nil]
  omega

/-! ## Numbers are read back -/

/-- What may follow a number. -/
def ends : List Char → Bool
  | [] => true
  | c :: _ => !c.isDigit && c != '.' && c != 'e' && c != 'E'

/-- What may follow digits. -/
def stops : List Char → Bool
  | [] => true
  | c :: _ => !c.isDigit

theorem stops_of_ends {text : List Char} (last : ends text = true) : stops text = true := by
  cases text with
  | nil => rfl
  | cons c rest =>
      simp only [ends, Bool.and_eq_true] at last
      exact last.1.1.1

theorem readDigits_append {digits rest : List Char} (all : ∀ c ∈ digits, c.isDigit = true)
    (nonempty : digits ≠ []) (last : stops rest = true) :
    readDigits (digits ++ rest) = some (digits, rest) := by
  have nothing : rest.takeWhile Char.isDigit = [] ∧ rest.dropWhile Char.isDigit = rest := by
    cases rest with
    | nil => exact ⟨rfl, rfl⟩
    | cons c rest =>
        have notDigit : c.isDigit = false := by simpa [stops] using last
        simp [notDigit]
  rw [readDigits, List.takeWhile_append_of_pos all, List.dropWhile_append_of_pos all, nothing.1,
    nothing.2, List.append_nil, if_neg nonempty]

theorem isDigit_toDigits (n : Nat) : ∀ c ∈ Nat.toDigits 10 n, c.isDigit = true :=
  fun _ member => Nat.isDigit_of_mem_toDigits (by omega) (by omega) member

theorem readDigits_toDigits (n : Nat) {rest : List Char} (last : stops rest = true) :
    readDigits (Nat.toDigits 10 n ++ rest) = some (Nat.toDigits 10 n, rest) :=
  readDigits_append (isDigit_toDigits n) Nat.toDigits_ne_nil last

theorem toDigits_head (n : Nat) :
    ∃ c digits, Nat.toDigits 10 n = c :: digits ∧ c.isDigit = true := by
  obtain ⟨c, digits, shape⟩ := List.exists_cons_of_ne_nil (Nat.toDigits_ne_nil (b := 10) (n := n))
  exact ⟨c, digits, shape, isDigit_toDigits n c (by simp [shape])⟩

theorem readFraction_print (digits : List (Fin 10)) {rest : List Char} (last : stops rest = true)
    (noPoint : digits = [] → rest.head? ≠ some '.') :
    readFraction (printFraction digits ++ rest) = some (digits, rest) := by
  cases digits with
  | nil =>
      cases rest with
      | nil => rfl
      | cons c rest =>
          have ne : c ≠ '.' := by simpa using noPoint rfl
          simp only [printFraction, List.nil_append]
          unfold readFraction
          split
          · rename_i same
            exact absurd (List.cons.inj same).1 ne
          · rfl
  | cons d digits =>
      have all : ∀ c ∈ (d :: digits).map (fun d => Nat.digitChar d.val), c.isDigit = true := by
        intro c member
        obtain ⟨d, -, rfl⟩ := List.mem_map.mp member
        simp
      have back : ∀ d : Fin 10, digitOf (Nat.digitChar d.val) = d := by decide
      have read := readDigits_append all (by simp) last
      simp only [printFraction, List.cons_append, readFraction]
      rw [read]
      simp [Function.comp_def, back]

/-- The text of an exponent starts with `e`, so what follows it starts as it ends. -/
theorem printExponent_append (exponent : Option Int) {rest : List Char} (last : ends rest = true) :
    stops (printExponent exponent ++ rest) = true ∧
      (printExponent exponent ++ rest).head? ≠ some '.' := by
  cases exponent with
  | none =>
      refine ⟨stops_of_ends last, ?_⟩
      cases rest with
      | nil => simp [printExponent]
      | cons c rest =>
          simp only [ends, Bool.and_eq_true, bne_iff_ne] at last
          simpa [printExponent] using last.1.1.2
  | some e => cases e <;> exact ⟨rfl, by simp [printExponent]⟩

theorem readExponent_print (exponent : Option Int) {rest : List Char} (last : ends rest = true) :
    readExponent (printExponent exponent ++ rest) = some (exponent, rest) := by
  have digits := fun n => readDigits_toDigits n (stops_of_ends last)
  match exponent with
  | none =>
      cases rest with
      | nil => rfl
      | cons c rest =>
          simp only [ends, Bool.and_eq_true, bne_iff_ne] at last
          simp [printExponent, readExponent, last.1.2, last.2]
  | some (.negSucc n) =>
      simp only [printExponent, List.cons_append, readExponent, digits]
      simp [Int.negSucc_eq]
  | some (.ofNat n) =>
      have read := digits n
      obtain ⟨c, others, shape, isDigit⟩ := toDigits_head n
      simp only [printExponent, List.cons_append, readExponent, decide_true, Bool.true_or, if_true]
      -- the digits start with no sign
      split
      · rename_i same
        rw [shape] at same
        cases same
        cases isDigit
      · rename_i same
        rw [shape] at same
        cases same
        cases isDigit
      · rw [read]
        simp

theorem readUnsigned_print (n : Number) {rest : List Char} (last : ends rest = true) :
    readUnsigned n.negative (Nat.toDigits 10 n.whole ++
      (printFraction n.fraction ++ printExponent n.exponent) ++ rest) = some (n, rest) := by
  obtain ⟨exponentStops, noPoint⟩ := printExponent_append n.exponent last
  have wholeStops : stops (printFraction n.fraction ++ (printExponent n.exponent ++ rest)) = true := by
    cases n.fraction with
    | nil => exact exponentStops
    | cons d digits => rfl
  rw [List.append_assoc, List.append_assoc, readUnsigned, readDigits_toDigits _ wholeStops]
  simp only [Nat.ofDigitChars_ten_toDigits, if_true,
    readFraction_print n.fraction exponentStops fun _ => noPoint,
    readExponent_print n.exponent last, Option.map_some]

/-- The first character of a number. -/
theorem printNumber_head (n : Number) :
    ∃ c rest, printNumber n = c :: rest ∧ (c = '-' ∨ c.isDigit = true) := by
  unfold printNumber
  split
  · exact ⟨'-', _, rfl, .inl rfl⟩
  · obtain ⟨c, digits, shape, isDigit⟩ := toDigits_head n.whole
    rw [shape]
    exact ⟨c, _, rfl, .inr isDigit⟩

theorem readNumber_print (n : Number) {rest : List Char} (last : ends rest = true) :
    readNumber (printNumber n ++ rest) = some (n, rest) := by
  have read := readUnsigned_print n last
  unfold printNumber
  cases negative : n.negative with
  | true =>
      rw [negative] at read
      exact read
  | false =>
      rw [negative] at read
      obtain ⟨c, digits, shape, isDigit⟩ := toDigits_head n.whole
      simp only [Bool.false_eq_true, if_false, List.nil_append]
      unfold readNumber
      split
      · rename_i same
        rw [shape] at same
        cases same
        cases isDigit
      · exact read

/-! ## Values are read back -/

/-- The first character of a value. -/
def opens (c : Char) : Bool :=
  c = '"' || c = '[' || c = '{' || c = 'n' || c = 't' || c = 'f' || c = '-' || c.isDigit

theorem print_head (v : Value) : ∃ c rest, print v = c :: rest ∧ opens c = true := by
  cases v with
  | null => exact ⟨'n', _, rfl, rfl⟩
  | bool b =>
      cases b with
      | true => exact ⟨'t', _, rfl, rfl⟩
      | false => exact ⟨'f', _, rfl, rfl⟩
  | number n =>
      obtain ⟨c, rest, shape, sign | digit⟩ := printNumber_head n
      · exact ⟨c, rest, shape, by simp [opens, sign]⟩
      · exact ⟨c, rest, shape, by simp [opens, digit]⟩
  | string s => exact ⟨'"', _, rfl, rfl⟩
  | array items => exact ⟨'[', _, print_array items, rfl⟩
  | object members => exact ⟨'{', _, print_object members, rfl⟩

theorem not_space_of_opens {c : Char} (first : opens c = true) : isSpace c = false := by
  cases space : isSpace c with
  | false => rfl
  | true =>
      simp only [isSpace, Bool.or_eq_true, decide_eq_true_eq] at space
      rcases space with ((rfl | rfl) | rfl) | rfl <;> cases first

theorem skipSpace_cons {c : Char} (rest : List Char) (visible : isSpace c = false) :
    skipSpace (c :: rest) = c :: rest := by
  simp [skipSpace, visible]

section Lists

variable {α : Type} {read : List Char → Option (α × List Char)} {close : Char}
  {text : α → List Char}

/-- What is asked of the elements of a list: each is read back before a comma and before
the end, and starts with a character that is neither blank nor the end. -/
structure Element (read : List Char → Option (α × List Char)) (close : Char)
    (text : α → List Char) (a : α) : Prop where
  reads : ∀ rest, ends rest = true → read (text a ++ rest) = some (a, rest)
  head : ∃ c rest, text a = c :: rest ∧ isSpace c = false ∧ c ≠ close

variable (text) in
/-- An element is followed by a comma or by the end. -/
theorem ends_more (last : ∀ rest, ends (close :: rest) = true) (items : List α) (rest : List Char) :
    ends ((items.flatMap fun a => ',' :: text a) ++ close :: rest) = true := by
  cases items with
  | nil => exact last rest
  | cons b items => rfl

theorem readMore_print (blank : isSpace close = false) (notComma : close ≠ ',')
    (last : ∀ rest, ends (close :: rest) = true) (items : List α)
    (elements : ∀ a ∈ items, Element read close text a) (fuel : Nat)
    (enough : items.length < fuel) (rest : List Char) :
    readMore read close fuel ((items.flatMap fun a => ',' :: text a) ++ close :: rest) =
      some (items, rest) := by
  induction items generalizing fuel with
  | nil =>
      cases fuel with
      | zero => exact absurd enough (Nat.not_lt_zero _)
      | succ fuel =>
          simp [readMore, skipSpace_cons rest blank]
  | cons a items ih =>
      cases fuel with
      | zero => exact absurd enough (Nat.not_lt_zero _)
      | succ fuel =>
          have others := ih (fun b member => elements b (by simp [member])) fuel (by simpa using enough)
          have comma : skipSpace (',' :: (text a ++
              ((items.flatMap fun a => ',' :: text a) ++ close :: rest))) =
              ',' :: (text a ++ ((items.flatMap fun a => ',' :: text a) ++ close :: rest)) :=
            skipSpace_cons _ rfl
          have first := (elements a List.mem_cons_self).reads _ (ends_more text last items rest)
          rw [List.flatMap_cons, List.append_assoc, List.cons_append, readMore, comma]
          simp only [notComma.symm, if_false, if_true, first, others, Option.map_some]

/-- **A list is read back** when its elements are. -/
theorem readList_print (blank : isSpace close = false) (notComma : close ≠ ',')
    (last : ∀ rest, ends (close :: rest) = true) (items : List α)
    (elements : ∀ a ∈ items, Element read close text a) (fuel : Nat)
    (enough : items.length ≤ fuel) (rest : List Char) :
    readList read close fuel (separated (items.map text) ++ close :: rest) = some (items, rest) := by
  cases items with
  | nil => simp [separated, readList, skipSpace_cons rest blank]
  | cons a items =>
      have others := readMore_print blank notComma last items
        (fun b member => elements b (by simp [member])) fuel enough rest
      have first := (elements a List.mem_cons_self).reads _ (ends_more text last items rest)
      obtain ⟨c, tail, shape, visible, notClose⟩ := (elements a List.mem_cons_self).head
      rw [List.map_cons, separated, List.flatMap_map, List.append_assoc, readList]
      rw [shape, List.cons_append] at first ⊢
      rw [skipSpace_cons _ visible]
      simp only [notClose, if_false, first, others, Option.map_some]

end Lists

theorem length_le_separated (texts : List (List Char)) :
    texts.length ≤ (separated texts).length + 1 := by
  have commas : ∀ texts : List (List Char),
      texts.length ≤ (texts.flatMap fun text => ',' :: text).length := by
    intro texts
    induction texts with
    | nil => exact Nat.le_refl _
    | cons text texts ih =>
        rw [List.flatMap_cons, List.length_append, List.length_cons, List.length_cons]
        omega
  cases texts with
  | nil => exact Nat.zero_le _
  | cons text texts =>
      have := commas texts
      rw [separated, List.length_append, List.length_cons]
      omega

theorem length_le_of_mem_separated {text : List Char} {texts : List (List Char)}
    (member : text ∈ texts) : text.length ≤ (separated texts).length := by
  cases texts with
  | nil => cases member
  | cons first texts =>
      rw [separated, List.length_append]
      rcases List.mem_cons.mp member with rfl | member
      · omega
      · have within : ',' :: text ∈ texts.map fun text => ',' :: text :=
          List.mem_map_of_mem member
        have shorter := (List.sublist_flatten_of_mem within).length_le
        rw [List.length_cons, ← List.flatMap_def] at shorter
        omega

/-- A value is read back from its text, before whatever may follow it, by a reader that
may take as many turns as the text is long. -/
def Reads (v : Value) : Prop :=
  ∀ (fuel : Nat) (rest : List Char), (print v).length ≤ fuel → ends rest = true →
    readValue fuel (print v ++ rest) = some (v, rest)

/-- The reader has at least one turn. -/
theorem reads_of_succ {v : Value}
    (reads : ∀ (fuel : Nat) (rest : List Char), (print v).length ≤ fuel + 1 → ends rest = true →
      readValue (fuel + 1) (print v ++ rest) = some (v, rest)) : Reads v := by
  intro fuel rest enough last
  cases fuel with
  | zero =>
      obtain ⟨c, tail, shape, -⟩ := print_head v
      simp [shape] at enough
  | succ fuel => exact reads fuel rest enough last

theorem Reads.element {v : Value} (reads : Reads v) {fuel : Nat} (enough : (print v).length ≤ fuel) :
    Element (readValue fuel) ']' print v := by
  refine ⟨fun rest last => reads fuel rest enough last, ?_⟩
  obtain ⟨c, tail, shape, first⟩ := print_head v
  refine ⟨c, tail, shape, not_space_of_opens first, ?_⟩
  rintro rfl
  cases first

/-- So is a member of an object. -/
theorem Reads.member {key : String} {v : Value} (reads : Reads v) {fuel : Nat}
    (enough : (printMember (key, v)).length ≤ fuel) :
    Element (readMember fuel (readValue fuel)) '}' printMember (key, v) := by
  have keyLength := length_printString key
  have shape : printMember (key, v) = printString key ++ ':' :: print v := rfl
  rw [shape, List.length_append, List.length_cons] at enough
  refine ⟨?_, '"', _, rfl, rfl, by decide⟩
  intro rest last
  have value := reads fuel rest (by omega) last
  have text : printMember (key, v) ++ rest =
      '"' :: (key.toList.flatMap escape ++ '"' :: (':' :: (print v ++ rest))) := by
    simp [shape, printString]
  have keyRead := readString_print key fuel (by omega) (':' :: (print v ++ rest))
  rw [text, readMember, skipSpace_cons _ rfl]
  simp only [keyRead, skipSpace_cons (c := ':') _ rfl, value, Option.map_some]

theorem reads_number (n : Number) : Reads (.number n) := by
  apply reads_of_succ
  intro fuel rest _ last
  have number := readNumber_print n last
  obtain ⟨c, tail, shape, isNumber⟩ := printNumber_head n
  have visible : isSpace c = false := by
    apply not_space_of_opens
    rcases isNumber with sign | digit
    · simp [opens, sign]
    · simp [opens, digit]
  have others : c ≠ '"' ∧ c ≠ '[' ∧ c ≠ '{' ∧ c ≠ 'n' ∧ c ≠ 't' ∧ c ≠ 'f' := by
    refine ⟨?_, ?_, ?_, ?_, ?_, ?_⟩ <;> rintro rfl <;> rcases isNumber with h | h <;> cases h
  obtain ⟨notQuote, notBracket, notBrace, notN, notT, notF⟩ := others
  have text : print (.number n) = c :: tail := shape
  rw [shape, List.cons_append] at number
  rw [text, List.cons_append, readValue, skipSpace_cons _ visible]
  simp only [notQuote, notBracket, notBrace, notN, notT, notF, if_false, number, Option.map_some]

theorem reads_string (s : String) : Reads (.string s) := by
  apply reads_of_succ
  intro fuel rest enough _
  have length := length_printString s
  have shape : print (.string s) = printString s := rfl
  rw [shape] at enough
  have read := readString_print s fuel (by omega) rest
  have text : print (.string s) ++ rest = '"' :: (s.toList.flatMap escape ++ '"' :: rest) := by
    simp [shape, printString]
  rw [text, readValue, skipSpace_cons _ rfl]
  simp only [if_true, read, Option.map_some]

theorem reads_array {items : List Value} (each : ∀ v ∈ items, Reads v) : Reads (.array items) := by
  apply reads_of_succ
  intro fuel rest enough _
  simp only [print_array, List.length_cons, List.length_append, List.length_nil] at enough
  have count := length_le_separated (items.map print)
  rw [List.length_map] at count
  have elements : ∀ v ∈ items, Element (readValue fuel) ']' print v := by
    intro v member
    have shorter := length_le_of_mem_separated (List.mem_map_of_mem (f := print) member)
    exact (each v member).element (by omega)
  have read := readList_print rfl (by decide) (fun _ => rfl) items elements fuel (by omega) rest
  rw [print_array, List.cons_append, List.append_assoc, readValue, skipSpace_cons _ rfl]
  simp [read]

theorem reads_object {members : List (String × Value)} (each : ∀ m ∈ members, Reads m.2) :
    Reads (.object members) := by
  apply reads_of_succ
  intro fuel rest enough _
  simp only [print_object, List.length_cons, List.length_append, List.length_nil] at enough
  have count := length_le_separated (members.map printMember)
  rw [List.length_map] at count
  have elements : ∀ m ∈ members, Element (readMember fuel (readValue fuel)) '}' printMember m := by
    intro m member
    have shorter := length_le_of_mem_separated (List.mem_map_of_mem (f := printMember) member)
    exact (each m member).member (Nat.le_trans shorter (by omega))
  have read := readList_print rfl (by decide) (fun _ => rfl) members elements fuel (by omega) rest
  rw [print_object, List.cons_append, List.append_assoc, readValue, skipSpace_cons _ rfl]
  simp [read]

theorem reads (v : Value) : Reads v := by
  induction v using Value.induction with
  | null =>
      apply reads_of_succ
      intro fuel rest _ _
      have text : print .null = ['n', 'u', 'l', 'l'] := rfl
      simp [text, readValue, skipSpace_cons (c := 'n') _ rfl, readWord]
  | bool b =>
      apply reads_of_succ
      intro fuel rest _ _
      cases b with
      | true =>
          have text : print (.bool true) = ['t', 'r', 'u', 'e'] := rfl
          simp [text, readValue, skipSpace_cons (c := 't') _ rfl, readWord]
      | false =>
          have text : print (.bool false) = ['f', 'a', 'l', 's', 'e'] := rfl
          simp [text, readValue, skipSpace_cons (c := 'f') _ rfl, readWord]
  | number n => exact reads_number n
  | string s => exact reads_string s
  | array items ih => exact reads_array ih
  | object members ih => exact reads_object ih

/-- **Reading undoes printing.** -/
theorem parse_print (v : Value) : parse (print v) = some v := by
  have read := reads v (print v).length [] (Nat.le_refl _) rfl
  rw [List.append_nil] at read
  simp [parse, read, skipSpace]

end Ursa.Theory.Json
