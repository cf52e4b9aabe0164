import Mathlib.Data.List.Basic
import DeepFeeder.Shared.Framing

set_option autoImplicit false

namespace Urlencode

open Framing

def utf8 (s : String) : List UInt8 := s.toList.flatMap String.utf8EncodeChar

-- None where the bytes are no UTF-8, so that the text has replacement characters in it.
def decode (bytes : List UInt8) : Option String :=
  bytes.toByteArray.utf8Decode?.map fun letters => String.ofList letters.toList

theorem decode_utf8 (s : String) : decode (utf8 s) = some s := by
  have whole : s.toList.utf8Encode.utf8Decode? = some s.toList.toArray := List.utf8Decode?_utf8Encode
  unfold List.utf8Encode at whole
  unfold decode utf8
  rw [whole]
  simp

def alwaysSafe (c : Char) : Bool := c.isAlphanum || c == '_' || c == '.' || c == '-' || c == '~'

def hexDigit (n : Nat) : Char := if n < 10 then Char.ofNat (48 + n) else Char.ofNat (55 + n)

def hexValue (c : Char) : Option Nat :=
  if c.isDigit then some (c.toNat - 48)
  else if 'A' ≤ c ∧ c ≤ 'F' then some (c.toNat - 55)
  else if 'a' ≤ c ∧ c ≤ 'f' then some (c.toNat - 87)
  else none

def quoteByte (b : UInt8) : List Char :=
  if b = 32 then ['+']
  else if b < 128 ∧ alwaysSafe (Char.ofNat b.toNat) then [Char.ofNat b.toNat]
  else ['%', hexDigit (b.toNat / 16), hexDigit (b.toNat % 16)]

def quotePlus (s : String) : List Char := (utf8 s).flatMap quoteByte

-- A percent sign without two hexadecimal digits behind it stays as it is.
def unquoteToBytes : List Char → List UInt8
  | '%' :: h :: l :: rest =>
      match hexValue h, hexValue l with
      | some high, some low => UInt8.ofNat (16 * high + low) :: unquoteToBytes rest
      | _, _ => 37 :: unquoteToBytes (h :: l :: rest)
  | c :: rest => String.utf8EncodeChar c ++ unquoteToBytes rest
  | [] => []

def plusToBlank (c : Char) : Char := if c = '+' then ' ' else c

def unquotePlus (text : List Char) : Option String := decode (unquoteToBytes (text.map plusToBlank))

def pairText (param : String × String) : List Char := quotePlus param.1 ++ '=' :: quotePlus param.2

def urlencode (params : List (String × String)) : List Char := ['&'].intercalate (params.map pairText)

def readPair (pair : List Char) : Option (String × String) :=
  match splitOnce ['='] pair with
  | some (name, value) => do some (← unquotePlus name, ← unquotePlus value)
  | none => do some (← unquotePlus pair, "")

def parseQsl (text : List Char) : Option (List (String × String)) :=
  ((text.splitOn '&').filter (· ≠ [])).mapM readPair

theorem hexValue_hexDigit : ∀ n < 16, hexValue (hexDigit n) = some n := by decide

theorem hexDigit_ne : ∀ n < 16, hexDigit n ≠ '+' ∧ hexDigit n ≠ '&' ∧ hexDigit n ≠ '=' := by decide

theorem alwaysSafe_ne {c : Char} (safe : alwaysSafe c = true) :
    c ≠ '+' ∧ c ≠ '%' ∧ c ≠ '&' ∧ c ≠ '=' := by
  have apart {d : Char} (unsafeChar : alwaysSafe d = false) : c ≠ d := by
    rintro rfl
    rw [safe] at unsafeChar
    cases unsafeChar
  exact ⟨apart (by decide), apart (by decide), apart (by decide), apart (by decide)⟩

theorem utf8EncodeChar_ofNat {b : UInt8} (ascii : b < 128) :
    String.utf8EncodeChar (Char.ofNat b.toNat) = [b] := by
  have less : b.toNat < 128 := by simpa [UInt8.lt_iff_toNat_lt] using ascii
  have value : (Char.ofNat b.toNat).val.toNat = b.toNat := by
    have valid : b.toNat.isValidChar := .inl (by omega)
    rw [Char.ofNat, dif_pos valid]
    rfl
  unfold String.utf8EncodeChar
  simp only [value]
  rw [if_pos (by omega), UInt8.ofNat_toNat]

theorem quoteByte_cases (b : UInt8) :
    (b = 32 ∧ quoteByte b = ['+']) ∨
      (∃ c, quoteByte b = [c] ∧ alwaysSafe c = true ∧ String.utf8EncodeChar c = [b]) ∨
      quoteByte b = ['%', hexDigit (b.toNat / 16), hexDigit (b.toNat % 16)] := by
  unfold quoteByte
  split
  next blank => exact .inl ⟨blank, rfl⟩
  next =>
    split
    next safe => exact .inr (.inl ⟨_, rfl, safe.2, utf8EncodeChar_ofNat safe.1⟩)
    next => exact .inr (.inr rfl)

theorem unquoteToBytes_cons {c : Char} (notPercent : c ≠ '%') (rest : List Char) :
    unquoteToBytes (c :: rest) = String.utf8EncodeChar c ++ unquoteToBytes rest := by
  rw [unquoteToBytes]
  intro h l rest' percent
  exact absurd percent notPercent

theorem decode_unquoteToBytes {s : String} (plain : '%' ∉ s.toList) :
    decode (unquoteToBytes s.toList) = some s := by
  have bytes : ∀ letters : List Char, '%' ∉ letters →
      unquoteToBytes letters = letters.flatMap String.utf8EncodeChar := by
    intro letters plain
    induction letters with
    | nil => rfl
    | cons c rest ih =>
        rw [List.mem_cons, not_or] at plain
        rw [unquoteToBytes_cons (Ne.symm plain.1), ih plain.2, List.flatMap_cons]
  rw [bytes _ plain]
  exact decode_utf8 s

theorem unquote_quoteByte (b : UInt8) (rest : List Char) :
    unquoteToBytes ((quoteByte b).map plusToBlank ++ rest) = b :: unquoteToBytes rest := by
  rcases quoteByte_cases b with ⟨rfl, quoted⟩ | ⟨c, quoted, safe, encoded⟩ | quoted
  next =>
    rw [quoted]
    exact unquoteToBytes_cons (by decide) rest
  next =>
    obtain ⟨notPlus, notPercent, _⟩ := alwaysSafe_ne safe
    rw [quoted, List.map_singleton, List.singleton_append, plusToBlank, if_neg notPlus,
      unquoteToBytes_cons notPercent, encoded]
    rfl
  next =>
    have bound := b.toNat_lt
    have high : b.toNat / 16 < 16 := by omega
    have low : b.toNat % 16 < 16 := by omega
    have kept : (quoteByte b).map plusToBlank = quoteByte b := by
      rw [quoted]
      simp only [List.map_cons, List.map_nil, plusToBlank, if_neg (hexDigit_ne _ high).1,
        if_neg (hexDigit_ne _ low).1]
      rfl
    rw [kept, quoted]
    simp only [List.cons_append, List.nil_append, unquoteToBytes, hexValue_hexDigit _ high,
      hexValue_hexDigit _ low]
    rw [Nat.div_add_mod, UInt8.ofNat_toNat]

theorem unquotePlus_quotePlus (s : String) : unquotePlus (quotePlus s) = some s := by
  have whole (bytes : List UInt8) :
      unquoteToBytes ((bytes.flatMap quoteByte).map plusToBlank) = bytes := by
    induction bytes with
    | nil => rfl
    | cons b rest ih =>
        rw [List.flatMap_cons, List.map_append, unquote_quoteByte, ih]
  rw [unquotePlus, quotePlus, whole, decode_utf8]

theorem notMem_quotePlus (s : String) : '&' ∉ quotePlus s ∧ '=' ∉ quotePlus s := by
  have byte (b : UInt8) : '&' ∉ quoteByte b ∧ '=' ∉ quoteByte b := by
    rcases quoteByte_cases b with ⟨_, quoted⟩ | ⟨c, quoted, safe, _⟩ | quoted
    next =>
      rw [quoted]
      decide
    next =>
      obtain ⟨_, _, notAnd, notEqual⟩ := alwaysSafe_ne safe
      rw [quoted, List.mem_singleton, List.mem_singleton]
      exact ⟨Ne.symm notAnd, Ne.symm notEqual⟩
    next =>
      have bound := b.toNat_lt
      have high := hexDigit_ne (b.toNat / 16) (by omega)
      have low := hexDigit_ne (b.toNat % 16) (by omega)
      rw [quoted]
      simp [high.2.1.symm, high.2.2.symm, low.2.1.symm, low.2.2.symm]
  constructor
  next =>
    intro member
    obtain ⟨b, _, inside⟩ := List.mem_flatMap.mp member
    exact (byte b).1 inside
  next =>
    intro member
    obtain ⟨b, _, inside⟩ := List.mem_flatMap.mp member
    exact (byte b).2 inside

theorem readPair_pairText (param : String × String) : readPair (pairText param) = some param := by
  have split := splitOnce_behind (notMem_quotePlus param.1).2 [] (quotePlus param.2)
  rw [List.append_assoc, List.singleton_append] at split
  simp only [readPair, pairText, split, unquotePlus_quotePlus]
  rfl

theorem notMem_pairText (param : String × String) : '&' ∉ pairText param := by
  simp [pairText, (notMem_quotePlus param.1).1, (notMem_quotePlus param.2).1]

theorem parseQsl_urlencode (params : List (String × String)) :
    parseQsl (urlencode params) = some params := by
  have pairs : ((urlencode params).splitOn '&').filter (· ≠ []) = params.map pairText := by
    cases params with
    | nil => rfl
    | cons first rest =>
        have plain : ∀ pair ∈ (first :: rest).map pairText, '&' ∉ pair := by
          intro pair member
          obtain ⟨param, _, rfl⟩ := List.mem_map.mp member
          exact notMem_pairText param
        rw [urlencode, List.splitOn_intercalate '&' plain (by simp), List.filter_eq_self]
        intro pair member
        obtain ⟨param, _, rfl⟩ := List.mem_map.mp member
        simp [pairText]
  have read : (fun param => readPair (pairText param)) = fun param => some param :=
    funext readPair_pairText
  have whole := List.mapM_pure (m := Option) (l := params) (f := fun param => param)
  rw [List.map_id'] at whole
  rw [parseQsl, pairs, List.mapM_map]
  exact (congrArg params.mapM read).trans whole

end Urlencode
