import Mathlib.Algebra.Order.Group.Nat
import Mathlib.Tactic.Ring

/-!
# Counter words of a fixed width

An atomic counter of `w` bits holds a number below `2 ^ w`, and adding to it or taking from
it wraps round. `fetchAdd` and `fetchSub` are the two operations on the value stored; they
agree with `+ 1` and `- 1` as long as the count stays inside the word, which is what each
use has to show.

A word that only ever climbs is read back through `% 2 ^ w` of an unbounded count of its
moves: two counts less than `2 ^ w` apart with the same word are equal
(`eq_of_mod_eq_of_lt`), so an exchange that lands on a word unchanged for fewer than
`2 ^ w` moves landed on an unmoved one. `wrappingSub` is how far two such words are apart.
-/

namespace Atap

/-- What a counter word of `w` bits holds after `fetch_add(1)`. -/
def fetchAdd (w x : ℕ) : ℕ := if x + 1 = 2 ^ w then 0 else x + 1

/-- What a counter word of `w` bits holds after `fetch_sub(1)`. -/
def fetchSub (w x : ℕ) : ℕ := if x = 0 then 2 ^ w - 1 else x - 1

theorem fetchAdd_of_lt {w x : ℕ} (h : x + 1 < 2 ^ w) : fetchAdd w x = x + 1 :=
  if_neg h.ne

theorem fetchSub_of_pos {w x : ℕ} (h : 0 < x) : fetchSub w x = x - 1 :=
  if_neg h.ne'

/-- A climbing word found as it was, less than a full turn later, has not moved. -/
theorem eq_of_mod_eq_of_lt {w a b : ℕ} (hle : a ≤ b) (hlt : b < a + 2 ^ w)
    (h : a % 2 ^ w = b % 2 ^ w) : a = b := by
  have hd : (b - a) % 2 ^ w = 0 := Nat.sub_mod_eq_zero_of_mod_eq h.symm
  rw [Nat.mod_eq_of_lt (by omega)] at hd
  omega

/-- `wrapping_sub` of two words of `w` bits, given as counts. -/
def wrappingSub (w a b : ℕ) : ℕ := (a + (2 ^ w - b % 2 ^ w)) % 2 ^ w

/-- Two counts less than a full turn apart are as far apart as their words. -/
theorem wrappingSub_eq {w a b : ℕ} (hle : b ≤ a) (hlt : a < b + 2 ^ w) :
    wrappingSub w a b = a - b := by
  have hb := Nat.mod_lt b (Nat.two_pow_pos w)
  have hd := Nat.div_add_mod b (2 ^ w)
  have hsum : a + (2 ^ w - b % 2 ^ w) = a - b + 2 ^ w * (b / 2 ^ w + 1) := by
    rw [Nat.mul_add, Nat.mul_one]
    omega
  rw [wrappingSub, hsum, Nat.add_mul_mod_self_left, Nat.mod_eq_of_lt (by omega)]

end Atap
