import Mathlib.Data.List.TakeWhile

set_option autoImplicit false

namespace DecimalText

variable {m n : Nat} {c : Char}

theorem natText_inj (same : Nat.repr m = Nat.repr n) : m = n := by
  have letters := congrArg String.toList same
  rw [Nat.toList_repr, Nat.toList_repr] at letters
  have read (k : Nat) : Nat.ofDigitChars 10 (Nat.toDigits 10 k) 0 = k :=
    Nat.ofDigitChars_toDigits (by decide) (by decide)
  rw [← read m, ← read n, letters]

theorem notMem_natText (notDigit : c.isDigit = false) (n : Nat) : c ∉ (Nat.repr n).toList := by
  rw [Nat.toList_repr]
  intro inside
  have digit := Nat.isDigit_of_mem_toDigits (by decide) (by decide) inside
  rw [notDigit] at digit
  cases digit

theorem intText_inj {a b : Int} (same : toString a = toString b) : a = b := by
  cases a with
  | ofNat m =>
      cases b with
      | ofNat n => exact congrArg Int.ofNat (natText_inj same)
      | negSucc n =>
          have letters : Nat.repr m = "-" ++ Nat.repr (n + 1) := same
          exact absurd (by simp [letters]) (notMem_natText (c := '-') rfl m)
  | negSucc m =>
      cases b with
      | ofNat n =>
          have letters : "-" ++ Nat.repr (m + 1) = Nat.repr n := same
          exact absurd (by simp [← letters]) (notMem_natText (c := '-') rfl n)
      | negSucc n =>
          have letters : "-" ++ Nat.repr (m + 1) = "-" ++ Nat.repr (n + 1) := same
          have digits := natText_inj ((String.append_right_inj "-").mp letters)
          rw [Nat.add_right_cancel digits]

theorem takeWhile_reverse {front back : List Char} (absent : c ∉ back) :
    ((front ++ c :: back).reverse.takeWhile (· ≠ c)).reverse = back := by
  have apart : ∀ d ∈ back.reverse, decide (d ≠ c) = true := by
    intro d member
    rw [decide_eq_true_eq]
    rintro rfl
    exact absent (List.mem_reverse.mp member)
  rw [List.reverse_append, List.reverse_cons, List.append_assoc, List.singleton_append,
    List.takeWhile_append_of_pos apart, List.takeWhile_cons_of_neg (by simp), List.append_nil,
    List.reverse_reverse]

theorem separated_inj {front front' : String} (notDigit : c.isDigit = false)
    (same : front ++ String.singleton c ++ Nat.repr m = front' ++ String.singleton c ++ Nat.repr n) :
    m = n := by
  have letters := congrArg String.toList same
  simp only [String.toList_append, String.toList_singleton, List.append_assoc,
    List.singleton_append] at letters
  have behind := congrArg (fun letters => (letters.reverse.takeWhile (· ≠ c)).reverse) letters
  rw [takeWhile_reverse (notMem_natText notDigit m), takeWhile_reverse (notMem_natText notDigit n)]
    at behind
  exact natText_inj (String.toList_inj.mp behind)

end DecimalText
