import Mathlib.Algebra.Order.Ring.Nat
import Mathlib.Data.List.TakeWhile
import Mathlib.Data.Int.Notation

/-! # C strings

The functions of the C library on text, over lists of bytes: an array is a list, and the string in
it ends before its first NUL. `strncmp` and the conversions of `sscanf` follow their documentation,
on a machine whose `unsigned long` has 64 bits and whose `unsigned int` has 32. -/

namespace CLib

/-- The string at the start of an array. -/
def cString (bytes : List UInt8) : List UInt8 := bytes.takeWhile (· ≠ 0)

/-- `strncmp(s, t, n)`, of arrays that hold a NUL or at least `n` bytes. -/
def strncmp : List UInt8 → List UInt8 → ℕ → ℤ
  | a :: s, b :: t, n + 1 =>
      if a ≠ b then a.toNat - b.toNat
      else if a = 0 then 0
      else strncmp s t n
  | _, _, _ => 0

/-- `isspace(c)`. -/
def isspace (c : UInt8) : Bool := c = 32 ∨ 9 ≤ c ∧ c ≤ 13

/-- `isdigit(c)`. -/
def isdigit (c : UInt8) : Bool := 48 ≤ c ∧ c ≤ 57

/-- The number that decimal digits stand for. -/
def decimal (digits : List UInt8) : ℕ := digits.foldl (fun v d => 10 * v + (d.toNat - 48)) 0

/-- The value of `strtoul` on a sign and digits: too large a number becomes `ULONG_MAX`, a minus
sign negates in `unsigned long`. -/
def strtoul (negative : Bool) (digits : List UInt8) : ℕ :=
  if 2 ^ 64 ≤ decimal digits then 2 ^ 64 - 1
  else if negative then (2 ^ 64 - decimal digits) % 2 ^ 64
  else decimal digits

/-- The conversion `%u`: the number stored and what is left of the input. -/
def scanUnsigned (s : List UInt8) : Option (UInt32 × List UInt8) :=
  let s := s.dropWhile isspace
  let (negative, s) := match s with
    | 45 :: s => (true, s)
    | 43 :: s => (false, s)
    | s => (false, s)
  let digits := s.takeWhile isdigit
  if digits = [] then none
  else some (UInt32.ofNat (strtoul negative digits), s.dropWhile isdigit)

/-- `sscanf(s, "%u,%u", ..)`: the two numbers, if both are stored. -/
def scanPair (s : List UInt8) : Option (UInt32 × UInt32) :=
  match scanUnsigned s with
  | some (x, 44 :: s) => (scanUnsigned s).map fun q => (x, q.1)
  | _ => none

/-- `sprintf("%u", n)`. -/
def printUnsigned (n : ℕ) : List UInt8 := (Nat.toDigits 10 n).map fun c => UInt8.ofNat c.toNat

variable {s t u : List UInt8} {b : UInt8}

/-- A comparison as long as a literal tells whether the array starts with it. -/
theorem strncmp_eq_zero_iff (ht : 0 ∉ t) (hlen : t.length ≤ s.length) :
    strncmp s (t ++ u) t.length = 0 ↔ t <+: s := by
  induction t generalizing s with
  | nil =>
      rw [List.length_nil, strncmp.eq_2 _ _ _ (by simp)]
      simp
  | cons b t ih =>
      cases s with
      | nil => simp at hlen
      | cons a s =>
          rw [List.length_cons, List.cons_append, strncmp, List.cons_prefix_cons]
          by_cases hab : a = b
          · subst hab
            have ha : a ≠ 0 := fun h => ht (h ▸ List.mem_cons_self)
            rw [if_neg (not_not.mpr rfl), if_neg ha,
              ih (fun h => ht (List.mem_cons_of_mem _ h)) (by simpa using hlen)]
            exact (and_iff_right rfl).symm
          · rw [if_pos hab]
            have hne : (a.toNat : ℤ) - b.toNat ≠ 0 := by
              intro h
              apply hab
              apply UInt8.toNat_inj.mp
              omega
            exact iff_of_false hne fun h => hab h.1.symm

/-- A NUL ends the string wherever it stands. -/
theorem cString_append_nul (s u : List UInt8) : cString (s ++ 0 :: u) = cString s := by
  induction s with
  | nil => rfl
  | cons a s ih =>
      by_cases ha : a = 0
      · subst ha
        rfl
      · rw [List.cons_append, cString, cString, List.takeWhile_cons_of_pos (by simpa using ha),
          List.takeWhile_cons_of_pos (by simpa using ha)]
        exact congrArg _ ih

/-! ### Numbers in decimal -/

section Decimal

variable {digits : List UInt8} {c : UInt8} {n : ℕ}

theorem decimal_concat (digits : List UInt8) (d : UInt8) :
    decimal (digits ++ [d]) = 10 * decimal digits + (d.toNat - 48) := by
  rw [decimal, decimal, List.foldl_append]
  rfl

theorem toNat_digitChar (hn : n < 10) : (UInt8.ofNat n.digitChar.toNat).toNat = 48 + n := by
  rw [Nat.toNat_digitChar_of_lt_ten hn, UInt8.toNat_ofNat']
  omega

/-- The last digit printed. -/
theorem printUnsigned_eq (n : ℕ) : printUnsigned n =
    (if n < 10 then [] else printUnsigned (n / 10)) ++ [UInt8.ofNat (n % 10).digitChar.toNat] := by
  by_cases hn : n < 10
  · rw [if_pos hn, printUnsigned, Nat.toDigits_of_lt_base hn, Nat.mod_eq_of_lt hn]
    rfl
  · rw [if_neg hn, printUnsigned, Nat.toDigits_of_base_le (by decide) (not_lt.mp hn), List.map_append]
    rfl

/-- What is printed stands for the number. -/
theorem decimal_printUnsigned (n : ℕ) : decimal (printUnsigned n) = n := by
  induction n using Nat.strong_induction_on with
  | _ n ih =>
      have hdigit := toNat_digitChar (Nat.mod_lt n (by decide : 10 > 0))
      rw [printUnsigned_eq, decimal_concat, hdigit]
      by_cases hn : n < 10
      · rw [if_pos hn, show decimal [] = 0 from rfl]
        omega
      · rw [if_neg hn, ih (n / 10) (by omega)]
        omega

theorem isdigit_of_mem_printUnsigned (hc : c ∈ printUnsigned n) : isdigit c = true := by
  induction n using Nat.strong_induction_on with
  | _ n ih =>
      rw [printUnsigned_eq, List.mem_append, List.mem_singleton] at hc
      rcases hc with hc | rfl
      · by_cases hn : n < 10
        · rw [if_pos hn] at hc
          cases hc
        · rw [if_neg hn] at hc
          exact ih (n / 10) (by omega) hc
      · have hdigit := toNat_digitChar (Nat.mod_lt n (by decide : 10 > 0))
        rw [isdigit, decide_eq_true_eq, UInt8.le_iff_toNat_le, UInt8.le_iff_toNat_le, hdigit]
        exact ⟨Nat.le_add_right 48 _, show 48 + n % 10 ≤ 57 by omega⟩

theorem printUnsigned_ne_nil : printUnsigned n ≠ [] := by
  rw [printUnsigned_eq]
  simp

theorem length_printUnsigned_le (hn : n < 10 ^ 10) : (printUnsigned n).length ≤ 10 := by
  rw [printUnsigned, List.length_map]
  exact (Nat.length_toDigits_le_iff (by decide) (by decide)).mpr hn

theorem not_isspace_of_isdigit (hc : isdigit c = true) : isspace c = false := by
  rw [isdigit, decide_eq_true_eq] at hc
  rw [isspace, decide_eq_false_iff_not]
  have h₁ : 48 ≤ c.toNat := hc.1
  rintro (rfl | ⟨-, h₂⟩)
  · exact absurd h₁ (by decide)
  · exact absurd (h₁.trans h₂) (by decide)

/-- `%u` takes the digits up to the next byte. -/
theorem scanUnsigned_digits (hne : digits ≠ []) (hdigits : ∀ d ∈ digits, isdigit d = true)
    (hlt : decimal digits < 2 ^ 64) (hc : isdigit c = false) :
    scanUnsigned (digits ++ c :: s) = some (UInt32.ofNat (decimal digits), c :: s) := by
  obtain ⟨d, ds, rfl⟩ := List.exists_cons_of_ne_nil hne
  have hd : isdigit d = true := hdigits d List.mem_cons_self
  have hspace : ((d :: ds) ++ c :: s).dropWhile isspace = (d :: ds) ++ c :: s := by
    rw [List.cons_append, List.dropWhile_cons_of_neg (by simp [not_isspace_of_isdigit hd])]
  have htake : ((d :: ds) ++ c :: s).takeWhile isdigit = d :: ds := by
    rw [List.takeWhile_append_of_pos hdigits, List.takeWhile_cons_of_neg (by simp [hc]),
      List.append_nil]
  have hdrop : ((d :: ds) ++ c :: s).dropWhile isdigit = c :: s := by
    rw [List.dropWhile_append_of_pos hdigits, List.dropWhile_cons_of_neg (by simp [hc])]
  -- a digit is no sign
  have hsign : (match (d :: ds) ++ c :: s with
      | 45 :: s => (true, s)
      | 43 :: s => (false, s)
      | s => (false, s)) = (false, (d :: ds) ++ c :: s) := by
    split
    · rename_i heq
      cases heq
      exact absurd hd (by decide)
    · rename_i heq
      cases heq
      exact absurd hd (by decide)
    · rfl
  unfold scanUnsigned
  simp only [hspace, hsign, htake, hdrop]
  rw [if_neg (List.cons_ne_nil _ _), strtoul, if_neg (not_le.mpr hlt), if_neg Bool.false_ne_true]

/-- `sscanf` reads back what was printed. -/
theorem scanPair_print {x y : ℕ} (hx : x < 2 ^ 64) (hy : y < 2 ^ 64) (hc : isdigit c = false) :
    scanPair (printUnsigned x ++ 44 :: (printUnsigned y ++ c :: s)) =
      some (UInt32.ofNat x, UInt32.ofNat y) := by
  have hscan : ∀ {n d t}, n < 2 ^ 64 → isdigit d = false →
      scanUnsigned (printUnsigned n ++ d :: t) = some (UInt32.ofNat n, d :: t) := by
    intro n d t hn hd
    have h := scanUnsigned_digits (s := t) printUnsigned_ne_nil
      (fun _ => isdigit_of_mem_printUnsigned) (by rwa [decimal_printUnsigned]) hd
    rwa [decimal_printUnsigned] at h
  rw [scanPair, hscan hx (by decide)]
  show (scanUnsigned (printUnsigned y ++ c :: s)).map (fun q => (UInt32.ofNat x, q.1)) = _
  rw [hscan hy hc]
  rfl

/-- A string that holds no NUL. -/
theorem cString_of_notMem (h : 0 ∉ s) : cString s = s := by
  rw [cString, List.takeWhile_eq_self_iff]
  intro c hc
  rw [decide_eq_true_eq]
  rintro rfl
  exact h hc

end Decimal

end CLib
