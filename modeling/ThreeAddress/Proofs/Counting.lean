import Mathlib.Tactic
import ThreeAddress.Code.Names

namespace ThreeAddress

namespace Counter

variable {N : Type} [Counter N] {counter : N} {count front back : Nat}

/-- A counter after this many more names. -/
def after : N → Nat → N
  | counter, 0 => counter
  | counter, count + 1 => after (next counter) count

/-- The numbers of this many more names. -/
def numbers : N → Nat → List Nat
  | _, 0 => []
  | counter, count + 1 => number (next counter) :: numbers (next counter) count

theorem after_succ : after counter (count + 1) = after (next counter) count := rfl

theorem after_add : after counter (front + back) = after (after counter front) back := by
  induction front generalizing counter with
  | zero => rw [Nat.zero_add, after]
  | succ front ih => rw [Nat.succ_add, after_succ, after_succ, ih]

theorem numbers_add :
    numbers counter (front + back) = numbers counter front ++ numbers (after counter front) back := by
  induction front generalizing counter with
  | zero => rw [Nat.zero_add, numbers, after, List.nil_append]
  | succ front ih => rw [Nat.succ_add, numbers, numbers, after, ih, List.cons_append]

theorem after_nat {counter : Nat} : after counter count = counter + count := by
  induction count generalizing counter with
  | zero => rfl
  | succ count ih => rw [after_succ, ih, next_nat, Nat.add_assoc, Nat.add_comm 1]

theorem numbers_nat {counter : Nat} : numbers counter count = List.range' (counter + 1) count := by
  induction count generalizing counter with
  | zero => rfl
  | succ count ih => rw [numbers, ih, List.range'_succ]; rfl

end Counter

/-- This many numbers behind a word. Behind the last word they go on at zero. -/
def numbersBehind (word : UInt32) (count : Nat) : List Nat :=
  (List.range' (word.toNat + 1) count).map (· % 2 ^ 32)

theorem numbersBehind_eq {word : UInt32} {count : Nat} (fits : word.toNat + count < 2 ^ 32) :
    numbersBehind word count = List.range' (word.toNat + 1) count := by
  refine (List.map_congr_left fun number member => ?_).trans (List.map_id _)
  rw [List.mem_range'_1] at member
  exact Nat.mod_eq_of_lt (by omega)

/-- No number comes twice until all words have come. -/
theorem nodup_numbersBehind {word : UInt32} {count : Nat} (few : count ≤ 2 ^ 32) :
    (numbersBehind word count).Nodup := by
  refine List.Nodup.map_on (fun first firstIn second secondIn same => ?_) List.nodup_range'
  rw [List.mem_range'_1] at firstIn secondIn
  omega

theorem nodup_numbersBehind_of_few {word : UInt32} {count : Nat} {stops : Prop}
    (fits : stops → word.toNat + count < 2 ^ 32) (few : stops ∨ count ≤ 2 ^ 32) :
    (numbersBehind word count).Nodup := by
  refine nodup_numbersBehind ?_
  rcases few with stopped | small
  · have sum := fits stopped
    omega
  · exact small

namespace WordCounter

open Counter

variable {counter : WordCounter} {count start : Nat}

theorem next_toNat : (next counter).word.toNat = (counter.word.toNat + 1) % 2 ^ 32 :=
  UInt32.toNat_add ..

theorem next_overflowed : (next counter).overflowed = true ↔
    counter.overflowed = true ∨ counter.word.toNat + 1 = 2 ^ 32 := by
  have small := counter.word.toNat_lt
  have zero : counter.word + 1 = 0 ↔ (counter.word.toNat + 1) % 2 ^ 32 = 0 := by
    rw [← UInt32.toNat_inj]
    exact Eq.congr_left next_toNat
  change (counter.overflowed || counter.word + 1 == 0) = true ↔ _
  rw [Bool.or_eq_true, beq_iff_eq, zero]
  exact or_congr_right (by omega)

theorem next_begun (begun : counter.word.toNat = start % 2 ^ 32) :
    (next counter).word.toNat = (start + 1) % 2 ^ 32 := by
  rw [next_toNat, begun, Nat.mod_add_mod]

/-- The word is the number of names since the start, as far as a word can hold it. -/
theorem after_toNat (begun : counter.word.toNat = start % 2 ^ 32) :
    (after counter count).word.toNat = (start + count) % 2 ^ 32 := by
  induction count generalizing counter start with
  | zero => exact begun
  | succ count ih => rw [after_succ, ih (next_begun begun), Nat.add_assoc, Nat.add_comm 1]

theorem after_word {word : UInt32} : (after { word : WordCounter } count).word.toNat =
    (word.toNat + count) % 2 ^ 32 :=
  after_toNat (Nat.mod_eq_of_lt word.toNat_lt).symm

theorem numbers_of_begun (begun : counter.word.toNat = start % 2 ^ 32) :
    numbers counter count = (List.range' (start + 1) count).map (· % 2 ^ 32) := by
  induction count generalizing counter start with
  | zero => rfl
  | succ count ih =>
      rw [numbers, ih (next_begun begun), List.range'_succ, List.map_cons]
      exact congrArg (· :: _) (next_begun begun)

theorem numbers_eq : numbers counter count = numbersBehind counter.word count :=
  numbers_of_begun (Nat.mod_eq_of_lt counter.word.toNat_lt).symm

/-- There is an overflow just if the sum does not fit in a word, or there was one before. -/
theorem after_overflowed : (after counter count).overflowed = true ↔
    counter.overflowed = true ∨ 2 ^ 32 ≤ counter.word.toNat + count := by
  induction count generalizing counter with
  | zero =>
      have small := counter.word.toNat_lt
      exact (or_iff_left (by omega)).symm
  | succ count ih =>
      have small := counter.word.toNat_lt
      rw [after_succ, ih, next_overflowed, next_toNat, or_assoc]
      exact or_congr_right (by omega)

theorem fits_of_kept {word : UInt32}
    (kept : (after { word : WordCounter } count).overflowed = false) :
    word.toNat + count < 2 ^ 32 := by
  rw [← Bool.not_eq_true, after_overflowed] at kept
  exact Nat.lt_of_not_le fun passed => kept (.inr passed)

end WordCounter

end ThreeAddress
