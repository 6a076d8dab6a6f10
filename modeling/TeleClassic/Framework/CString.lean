import Mathlib.Data.BitVec
import Mathlib.Data.List.Lex
import Mathlib.Data.List.TakeWhile
import Mathlib.Tactic.Common

/-!
# C strings

Bytes, the text of a C string (`cstr`), and the comparison of two of them
(`strncmp`). A list of bytes stands for memory that is zero past its end, so a
literal stands for itself with its terminator. `strncmp n` is zero when the
texts within the first `n` bytes agree (`strncmp_eq_zero_iff`), and negative when the first
comes before the second in the order of dictionaries (`strncmp_neg_iff`).
-/

namespace TC

abbrev Byte := BitVec 8

/-- The text of a C string: the bytes before the first NUL. -/
def cstr (s : List Byte) : List Byte := s.takeWhile (· ≠ 0)

/-- The text within the first `n` bytes. -/
def strn (n : Nat) (s : List Byte) : List Byte := cstr (s.take n)

def strnlen (s : List Byte) (n : Nat) : Nat := (strn n s).length

/-- The difference of the first bytes that differ, before a NUL in both and
within `n` bytes. -/
def strncmp : List Byte → List Byte → Nat → Int
  | _, _, 0 => 0
  | s, t, n + 1 =>
    if s.headD 0 ≠ t.headD 0 then ((s.headD 0).toNat : Int) - (t.headD 0).toNat
    else if s.headD 0 = 0 then 0
    else strncmp s.tail t.tail n

theorem strn_succ (n : Nat) (s : List Byte) :
    strn (n + 1) s = if s.headD 0 = 0 then [] else s.headD 0 :: strn n s.tail := by
  cases s with
  | nil => rfl
  | cons b s =>
    rw [strn, cstr, List.take_succ_cons, List.takeWhile_cons, List.headD_cons, List.tail_cons]
    by_cases h : b = 0
    · rw [if_pos h, if_neg (by simpa using h)]
    · rw [if_neg h, if_pos (by simpa using h), strn, cstr]

/-- The bytes of a list without a NUL are its text. -/
theorem cstr_eq_self {s : List Byte} (h : ∀ b ∈ s, b ≠ 0) : cstr s = s := by
  rw [cstr, List.takeWhile_eq_self_iff]
  simpa using h

theorem strncmp_eq_zero_iff {s t : List Byte} {n : Nat} : strncmp s t n = 0 ↔ strn n s = strn n t := by
  induction n generalizing s t with
  | zero => simp [strncmp, strn]
  | succ n ih =>
    rw [strncmp, strn_succ, strn_succ]
    by_cases h : s.headD 0 = t.headD 0
    · rw [if_neg (not_not.mpr h), ← h]
      split
      · simp
      · rw [ih, List.cons.injEq, and_iff_right rfl]
    · have hne : ((s.headD 0).toNat : Int) - (t.headD 0).toNat ≠ 0 := by
        intro h0
        exact h (BitVec.eq_of_toNat_eq (by omega))
      rw [if_pos h]
      refine iff_of_false hne ?_
      split <;> split
      · rename_i hs ht; exact absurd (hs.trans ht.symm) h
      · simp
      · simp
      · intro hc; exact h (List.cons.inj hc).1

/-- The text within the first `n` bytes, as numbers. -/
def codes (n : Nat) (s : List Byte) : List Nat := (strn n s).map BitVec.toNat

theorem strncmp_neg_iff {s t : List Byte} {n : Nat} : strncmp s t n < 0 ↔ codes n s < codes n t := by
  induction n generalizing s t with
  | zero => simp [strncmp, codes, strn]
  | succ n ih =>
    rw [strncmp, codes, codes, strn_succ, strn_succ]
    by_cases h : s.headD 0 = t.headD 0
    · rw [if_neg (not_not.mpr h), ← h]
      split
      · simp
      · rw [ih, List.map_cons, List.map_cons, List.cons_lt_cons_iff]
        simp [codes]
    · have hne : (s.headD 0).toNat ≠ (t.headD 0).toNat := fun h' => h (BitVec.eq_of_toNat_eq h')
      have hzero : BitVec.toNat (0 : Byte) = 0 := rfl
      rw [if_pos h]
      split <;> split
      · rename_i hs ht; exact absurd (hs.trans ht.symm) h
      · rename_i hs ht
        rw [hs, hzero] at hne ⊢
        exact iff_of_true (by omega) (List.nil_lt_cons _ _)
      · rename_i hs ht
        rw [ht, hzero]
        exact iff_of_false (by omega) (List.not_lt_nil _)
      · rw [List.map_cons, List.map_cons, List.cons_lt_cons_iff]
        refine ⟨fun hlt => .inl (by omega), fun hlt => ?_⟩
        obtain hlt | ⟨heq, -⟩ := hlt
        · omega
        · exact absurd heq hne

theorem strncmp_swap (s t : List Byte) (n : Nat) : strncmp t s n = -strncmp s t n := by
  induction n generalizing s t with
  | zero => rfl
  | succ n ih =>
    rw [strncmp, strncmp]
    by_cases h : s.headD 0 = t.headD 0
    · rw [if_neg (not_not.mpr h), if_neg (not_not.mpr h.symm), ← h, ih]
      split <;> rfl
    · rw [if_pos h, if_pos (Ne.symm h), neg_sub]

end TC
