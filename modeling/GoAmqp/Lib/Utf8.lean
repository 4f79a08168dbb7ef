import Mathlib.Tactic.Common

set_option autoImplicit false

/-! # UTF-8 validity

`validUtf8` accepts exactly the byte strings that are a concatenation of well-formed UTF-8
sequences: one byte below 0x80, or two to four bytes with the second byte in the range the first one
allows (no overlong forms, no surrogates, nothing above U+10FFFF). -/

namespace GoAmqp.Lib

/-- A continuation byte. -/
def utf8Cont (b : UInt8) : Bool := 0x80 ≤ b && b ≤ 0xbf

/-- `a b` start a well-formed sequence of two bytes. -/
def utf8Two (a b : UInt8) : Bool := 0xc2 ≤ a && a ≤ 0xdf && utf8Cont b

/-- `a b` start a well-formed sequence of three bytes. -/
def utf8Three (a b : UInt8) : Bool :=
  0xe0 ≤ a && a ≤ 0xef && utf8Cont b && (a != 0xe0 || 0xa0 ≤ b) && (a != 0xed || b ≤ 0x9f)

/-- `a b` start a well-formed sequence of four bytes. -/
def utf8Four (a b : UInt8) : Bool :=
  0xf0 ≤ a && a ≤ 0xf4 && utf8Cont b && (a != 0xf0 || 0x90 ≤ b) && (a != 0xf4 || b ≤ 0x8f)

/-- The bytes are a sequence of well-formed code points: no overlong form, no surrogate, nothing above U+10FFFF. -/
def validUtf8 : List UInt8 → Bool
  | [] => true
  | a :: s =>
    if a < 0x80 then validUtf8 s
    else match s with
      | [] => false
      | b :: s₂ =>
        if utf8Two a b then validUtf8 s₂
        else match s₂ with
          | [] => false
          | c :: s₃ =>
            if utf8Three a b && utf8Cont c then validUtf8 s₃
            else match s₃ with
              | [] => false
              | d :: s₄ => if utf8Four a b && utf8Cont c && utf8Cont d then validUtf8 s₄ else false

/-! ## Code points

What a range loop over a string gives: the code points of the well-formed sequences, and U+FFFD for each byte
that starts none. -/

/-- U+FFFD, which stands for a byte that is not well formed. -/
def runeError : Nat := 0xfffd

/-- The code point in front of `a :: s`, and how many bytes of `s` belong to it. -/
def decodeRune (a : UInt8) (s : List UInt8) : Nat × Nat :=
  if a < 0x80 then (a.toNat, 0)
  else match s with
    | [] => (runeError, 0)
    | b :: s =>
      if utf8Two a b then (a.toNat % 32 * 64 + b.toNat % 64, 1)
      else match s with
        | [] => (runeError, 0)
        | c :: s =>
          if utf8Three a b && utf8Cont c then
            (a.toNat % 16 * 4096 + b.toNat % 64 * 64 + c.toNat % 64, 2)
          else match s with
            | [] => (runeError, 0)
            | d :: _ =>
              if utf8Four a b && utf8Cont c && utf8Cont d then
                (a.toNat % 8 * 262144 + b.toNat % 64 * 4096 + c.toNat % 64 * 64 + d.toNat % 64, 3)
              else (runeError, 0)

/-- The code points behind the next `k` bytes. -/
def runesFrom : Nat → List UInt8 → List Nat
  | _, [] => []
  | k + 1, _ :: s => runesFrom k s
  | 0, a :: s => (decodeRune a s).1 :: runesFrom (decodeRune a s).2 s

/-- The code points of a string. -/
def runes (s : List UInt8) : List Nat := runesFrom 0 s

/-- A byte from 0x80 on gives a code point from 0x80 on, with such bytes only. -/
theorem decodeRune_of_le {a : UInt8} (h : 0x80 ≤ a.toNat) (s : List UInt8) :
    0x80 ≤ (decodeRune a s).1 ∧ ∀ b ∈ s.take (decodeRune a s).2, 0x80 ≤ b.toNat := by
  have herror (s : List UInt8) : 0x80 ≤ runeError ∧ ∀ b ∈ s.take 0, 0x80 ≤ b.toNat := by simp [runeError]
  unfold decodeRune
  rw [if_neg (by rw [UInt8.lt_iff_toNat_lt]; exact Nat.not_lt.mpr h)]
  split
  · exact herror _
  split_ifs with htwo
  · simp [utf8Two, utf8Cont, UInt8.le_iff_toNat_le] at htwo ⊢
    omega
  split
  · exact herror _
  split_ifs with hthree
  · simp [utf8Three, utf8Cont, UInt8.le_iff_toNat_le, ← UInt8.toNat_inj] at hthree
    simp
    omega
  split
  · exact herror _
  split_ifs with hfour
  · simp [utf8Four, utf8Cont, UInt8.le_iff_toNat_le, ← UInt8.toNat_inj] at hfour
    simp
    omega
  · exact herror _

/-- Every byte below 0x80 is a code point of its own. So a test that does not tell the other code points
    apart can be made on the bytes. -/
theorem any_runesFrom {p : Nat → Bool} {v : Bool} (hp : ∀ n, 0x80 ≤ n → p n = v) (k : Nat)
    (s : List UInt8) (hk : ∀ b ∈ s.take k, 0x80 ≤ b.toNat) :
    (s.any fun b => p b.toNat) = ((s.take k).any (fun b => p b.toNat) || (runesFrom k s).any p) := by
  induction s generalizing k with
  | nil => cases k <;> rfl
  | cons a s ih =>
    cases k with
    | succ k =>
      have hs := ih k fun b hb => hk b (List.mem_cons_of_mem _ hb)
      rw [List.any_cons, hs, List.take_succ_cons, List.any_cons, Bool.or_assoc]
      rfl
    | zero =>
      show _ = (p (decodeRune a s).1 || (runesFrom (decodeRune a s).2 s).any p)
      by_cases ha : a < 0x80
      · have hone : decodeRune a s = (a.toNat, 0) := if_pos ha
        rw [List.any_cons, hone, ih 0 (by simp)]
        rfl
      · rw [UInt8.lt_iff_toNat_lt, Nat.not_lt] at ha
        obtain ⟨hrune, hrest⟩ := decodeRune_of_le ha s
        rw [List.any_cons, ih _ hrest, hp _ ha, hp _ hrune]
        cases v with
        | true => rfl
        | false =>
          have hnone : (s.take (decodeRune a s).2).any (fun b => p b.toNat) = false := by
            rw [List.any_eq_false]
            intro b hb
            simp [hp _ (hrest b hb)]
          rw [hnone, Bool.false_or]

theorem any_runes {p : Nat → Bool} {v : Bool} (hp : ∀ n, 0x80 ≤ n → p n = v) (s : List UInt8) :
    (runes s).any p = s.any fun b => p b.toNat :=
  (any_runesFrom hp 0 s (by simp)).symm

end GoAmqp.Lib
