import Mathlib.Data.Rat.Defs
import Mathlib.Algebra.Field.Rat
import DeepFeeder.Core.Contracts

set_option autoImplicit false

namespace DeepFeeder

inductive PyFloat where
  | finite (q : Rat)
  | inf (negative : Bool)
  | nan
  deriving DecidableEq

def PyFloat.toRat : PyFloat → Option Rat
  | .finite q => some q
  | .inf _ | .nan => none

def Value.ofFloat : PyFloat → Value
  | .finite q => .float q
  | .inf negative => .inf negative
  | .nan => .nan

theorem kind_ofFloat (q : PyFloat) : (Value.ofFloat q).kind = .float := by
  cases q <;> rfl

namespace Numeral

-- `str.isspace`.
def isSpace (c : Char) : Bool :=
  (9 ≤ c.toNat && c.toNat ≤ 13) || (28 ≤ c.toNat && c.toNat ≤ 32) ||
    (8192 ≤ c.toNat && c.toNat ≤ 8202) ||
    [133, 160, 5760, 8232, 8233, 8239, 8287, 12288].contains c.toNat

def strip (cs : List Char) : List Char :=
  ((cs.dropWhile isSpace).reverse.dropWhile isSpace).reverse

-- The zeros of the decimal digits of Unicode; the nine others follow each of them.
def zeros : List Nat :=
  [0x30, 0x660, 0x6f0, 0x7c0, 0x966, 0x9e6, 0xa66, 0xae6, 0xb66, 0xbe6, 0xc66, 0xce6, 0xd66, 0xde6,
    0xe50, 0xed0, 0xf20, 0x1040, 0x1090, 0x17e0, 0x1810, 0x1946, 0x19d0, 0x1a80, 0x1a90, 0x1b50,
    0x1bb0, 0x1c40, 0x1c50, 0xa620, 0xa8d0, 0xa900, 0xa9d0, 0xa9f0, 0xaa50, 0xabf0, 0xff10, 0x104a0,
    0x10d30, 0x11066, 0x110f0, 0x11136, 0x111d0, 0x112f0, 0x11450, 0x114d0, 0x11650, 0x116c0,
    0x11730, 0x118e0, 0x11950, 0x11c50, 0x11d50, 0x11da0, 0x16a60, 0x16ac0, 0x16b50, 0x1d7ce,
    0x1d7d8, 0x1d7e2, 0x1d7ec, 0x1d7f6, 0x1e140, 0x1e2f0, 0x1e950, 0x1fbf0]

def digitValue (c : Char) : Option Nat :=
  (zeros.find? fun first => first ≤ c.toNat && c.toNat ≤ first + 9).map fun first => c.toNat - first

def signed : List Char → Int × List Char
  | '-' :: rest => (-1, rest)
  | '+' :: rest => (1, rest)
  | rest => (1, rest)

-- Digits with single underscores between them; `afterDigit` tells what was read last.
def digitsFrom (value : Nat) (afterDigit : Bool) : List Char → Option Nat
  | [] => if afterDigit then some value else none
  | c :: rest =>
      if c = '_' then if afterDigit then digitsFrom value false rest else none
      else
        match digitValue c with
        | some d => digitsFrom (value * 10 + d) true rest
        | none => none

def digits (cs : List Char) : Option Nat := digitsFrom 0 false cs

def parseInt (s : String) : Option Int :=
  let (sign, numeral) := signed (strip s.toList)
  (digits numeral).map fun n => sign * n

def pow10 (e : Int) : Rat := if 0 ≤ e then (10 : Rat) ^ e.toNat else 1 / (10 : Rat) ^ (-e).toNat

def mantissa (cs : List Char) : Option (Nat × Nat) :=
  let whole := cs.takeWhile (· ≠ '.')
  match cs.drop whole.length with
  | [] => (digits whole).map fun n => (n, 0)
  | _ :: fraction =>
      let places := fraction.countP fun c => (digitValue c).isSome
      match whole, fraction with
      | [], [] => none
      | [], _ => (digits fraction).map fun m => (m, places)
      | _, [] => (digits whole).map fun n => (n, 0)
      | _, _ => do
          let n ← digits whole
          let m ← digits fraction
          some (n * 10 ^ places + m, places)

def parseDecimal (sign : Int) (numeral : List Char) : Option Rat := do
  let body := numeral.takeWhile fun c => c ≠ 'e' ∧ c ≠ 'E'
  let (value, places) ← mantissa body
  match numeral.drop body.length with
  | [] => some (sign * value * pow10 (-places))
  | _ :: expNumeral =>
      let (expSign, expDigits) := signed expNumeral
      let e ← digits expDigits
      some (sign * value * pow10 (expSign * e - places))

def parseFloat (s : String) : Option PyFloat :=
  let (sign, numeral) := signed (strip s.toList)
  let word := numeral.map Char.toLower
  if word = "inf".toList ∨ word = "infinity".toList then some (.inf (sign < 0))
  else if word = "nan".toList then some .nan
  else (parseDecimal sign numeral).map .finite

end Numeral

-- `a or b`.
def Value.or (a b : Value) : Value := if a.truthy then a else b

/-- `int(value)`; none where it raises. -/
def pyInt : Value → Option Int
  | .bool b => some (if b then 1 else 0)
  | .int n => some n
  | .float q => some (if 0 ≤ q then q.floor else q.ceil)
  | .str s => Numeral.parseInt s
  | .none | .inf _ | .nan | .list _ | .dict _ => none

/-- `float(value)`, before it is rounded to a double; none where it raises. -/
def pyFloat : Value → Option PyFloat
  | .bool b => some (.finite (if b then 1 else 0))
  | .int n => some (.finite n)
  | .float q => some (.finite q)
  | .inf negative => some (.inf negative)
  | .nan => some .nan
  | .str s => Numeral.parseFloat s
  | .none | .list _ | .dict _ => none

theorem pyFloat_ofFloat (q : PyFloat) : pyFloat (.ofFloat q) = some q := by
  cases q <;> rfl

def field (payload : Payload) (key : String) : Value := (payload.lookup key).getD .none

theorem Value.or_of_truthy {a : Value} (truthy : a.truthy = true) (b : Value) : a.or b = a :=
  if_pos truthy

theorem Value.or_of_falsy {a : Value} (falsy : a.truthy = false) (b : Value) : a.or b = b := by
  unfold Value.or
  rw [falsy]
  rfl

example : Numeral.parseFloat " -12.50e1" = some (.finite (-125)) := by decide +kernel

/-- `str.upper`: what each letter becomes. A capital stays, and only a backtick becomes one. -/
class Uppercase where
  letter : Char → List Char
  capital : ∀ c, ∀ d ∈ letter c, letter d = [d]
  backtick : ∀ c, Char.ofNat 96 ∈ letter c ↔ c = Char.ofNat 96

def upper [Uppercase] (s : String) : String :=
  String.ofList (s.toList.flatMap Uppercase.letter)

theorem upper_letter [Uppercase] (c : Char) :
    (Uppercase.letter c).flatMap Uppercase.letter = Uppercase.letter c := by
  have capital := Uppercase.capital c
  generalize Uppercase.letter c = letters at capital ⊢
  induction letters with
  | nil => rfl
  | cons d rest ih =>
      rw [List.flatMap_cons, capital d List.mem_cons_self,
        ih fun other member => capital other (List.mem_cons_of_mem _ member)]
      rfl

theorem upper_upper [Uppercase] (s : String) : upper (upper s) = upper s := by
  unfold upper
  rw [String.toList_ofList, List.flatMap_assoc]
  exact congrArg (fun letter => String.ofList (s.toList.flatMap letter)) (funext upper_letter)

theorem backtick_mem_upper [Uppercase] (s : String) :
    Char.ofNat 96 ∈ (upper s).toList ↔ Char.ofNat 96 ∈ s.toList := by
  unfold upper
  rw [String.toList_ofList, List.mem_flatMap]
  constructor
  · rintro ⟨c, member, here⟩
    exact (Uppercase.backtick c).mp here ▸ member
  · exact fun member => ⟨_, member, (Uppercase.backtick _).mpr rfl⟩

theorem toUpper_cases (c : Char) :
    c.toUpper = c ∨ 97 ≤ c.val.toNat ∧ c.val.toNat ≤ 122 ∧ c.toUpper.val.toNat = c.val.toNat - 32 := by
  by_cases lower : 'a'.val ≤ c.val ∧ c.val ≤ 'z'.val
  · have low : 97 ≤ c.val.toNat := lower.1
    have high : c.val.toNat ≤ 122 := lower.2
    have shift : ('A'.val - 'a'.val).toNat = 4294967264 := by decide
    refine .inr ⟨low, high, ?_⟩
    unfold Char.toUpper
    rw [dif_pos lower]
    change (c.val + ('A'.val - 'a'.val)).toNat = _
    rw [UInt32.toNat_add, shift]
    omega
  · refine .inl ?_
    unfold Char.toUpper
    exact dif_neg lower

abbrev asciiUppercase : Uppercase where
  letter c := [c.toUpper]
  capital c d member := by
    rw [List.mem_singleton.mp member]
    rcases toUpper_cases c with same | ⟨low, high, value⟩
    · rw [same, same]
    · rcases toUpper_cases c.toUpper with same | ⟨low', _, _⟩
      · rw [same]
      · omega
  backtick c := by
    rw [List.mem_singleton]
    rcases toUpper_cases c with same | ⟨low, high, value⟩
    · rw [same, eq_comm]
    · have mark : (Char.ofNat 96).val.toNat = 96 := by decide
      constructor
      · intro equal
        rw [← equal, mark] at value
        omega
      · rintro rfl
        omega

end DeepFeeder
