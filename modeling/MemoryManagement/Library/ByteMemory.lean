import Mathlib.Logic.Function.Basic
import Mathlib.Data.Nat.Basic
import Mathlib.Tactic.Ring

/-!
# Byte-addressed memory

A memory assigns a byte to every natural-number address. Words are stored little-endian over
consecutive bytes: `storeLE m a k v` writes the `k` low bytes of `v` at `a`, and `loadLE m a k` reads
them back (`loadLE_storeLE_same`). Two accesses whose byte ranges do not meet are independent
(`loadLE_storeLE_disjoint`). `memset` and `memcpy` are the forward byte loops of the C library; each
has one lemma for the bytes it writes and one for the bytes it leaves alone.
-/

set_option autoImplicit false

namespace MemoryManagement.Library.ByteMemory

/-- Byte-addressed memory. -/
abbrev Mem := Nat → UInt8

/-- `x` lies in the `k` bytes that start at `a`. -/
abbrev InRange (a k x : Nat) : Prop := a ≤ x ∧ x < a + k

/-- Two byte ranges that share no address. -/
abbrev DisjointRange (a k b l : Nat) : Prop := a + k ≤ b ∨ b + l ≤ a

/-! ## Little-endian words -/

/-- The little-endian value of the `k` bytes at `a`. -/
def loadLE (m : Mem) (a : Nat) : Nat → Nat
  | 0 => 0
  | k + 1 => (m a).toNat + 256 * loadLE m (a + 1) k

/-- The `k` low bytes of `v` written at `a`, least significant byte first. -/
def storeLE (m : Mem) (a k v : Nat) : Mem :=
  fun x => if a ≤ x ∧ x < a + k then UInt8.ofNat (v / 256 ^ (x - a)) else m x

theorem storeLE_of_inRange {m : Mem} {a k v x : Nat} (h : InRange a k x) :
    storeLE m a k v x = UInt8.ofNat (v / 256 ^ (x - a)) := if_pos h

theorem storeLE_of_not_inRange {m : Mem} {a k v x : Nat} (h : ¬ InRange a k x) :
    storeLE m a k v x = m x := if_neg h

/-- A load reads only the bytes of its range. -/
theorem loadLE_congr {m m' : Mem} {a k : Nat} (h : ∀ x, InRange a k x → m' x = m x) :
    loadLE m' a k = loadLE m a k := by
  induction k generalizing a with
  | zero => rfl
  | succ k ih =>
      have hhead : m' a = m a := h a ⟨Nat.le_refl a, by omega⟩
      have htail := ih (a := a + 1) fun x hx => h x ⟨by omega, by omega⟩
      simp only [loadLE, hhead, htail]

theorem loadLE_lt (m : Mem) (a k : Nat) : loadLE m a k < 256 ^ k := by
  induction k generalizing a with
  | zero => simp [loadLE]
  | succ k ih =>
      have hbyte : (m a).toNat < 256 := (m a).toNat_lt
      have hrest := ih (a + 1)
      rw [loadLE, pow_succ]
      omega

/-- Bytes that are the base-256 digits of `v` load as `v` modulo the width. -/
theorem loadLE_of_digits {m : Mem} {a k v : Nat}
    (h : ∀ i, i < k → m (a + i) = UInt8.ofNat (v / 256 ^ i)) : loadLE m a k = v % 256 ^ k := by
  induction k generalizing a v with
  | zero => simp [loadLE, Nat.mod_one]
  | succ k ih =>
      have hhead : (m a).toNat = v % 256 := by
        have := h 0 (by omega)
        simp only [Nat.add_zero, pow_zero, Nat.div_one] at this
        simp [this]
      have htail : loadLE m (a + 1) k = v / 256 % 256 ^ k := by
        refine ih fun i hi => ?_
        rw [Nat.add_assoc, h (1 + i) (by omega), Nat.div_div_eq_div_mul, Nat.add_comm 1 i,
          pow_succ']
      rw [loadLE, hhead, htail, pow_succ', Nat.mod_mul]

/-- A load at the address of a store of the same width gives the stored value back. -/
theorem loadLE_storeLE_same (m : Mem) (a k v : Nat) :
    loadLE (storeLE m a k v) a k = v % 256 ^ k := by
  refine loadLE_of_digits fun i hi => ?_
  rw [storeLE_of_inRange ⟨by omega, by omega⟩, Nat.add_sub_cancel_left]

/-- A store does not change a load from a range it does not meet. -/
theorem loadLE_storeLE_disjoint {m : Mem} {a k v b l : Nat} (h : DisjointRange a k b l) :
    loadLE (storeLE m a k v) b l = loadLE m b l := by
  refine loadLE_congr fun x hx => storeLE_of_not_inRange fun hx' => ?_
  omega

/-- The low bytes of a load are the load of fewer bytes. -/
theorem loadLE_mod {m : Mem} {a k l : Nat} (h : k ≤ l) : loadLE m a l % 256 ^ k = loadLE m a k := by
  induction k generalizing a l with
  | zero => simp [loadLE, Nat.mod_one]
  | succ k ih =>
      obtain ⟨l, rfl⟩ : ∃ l', l = l' + 1 := ⟨l - 1, by omega⟩
      have hbyte : (m a).toNat < 256 := (m a).toNat_lt
      rw [loadLE, loadLE, pow_succ', Nat.mod_mul, Nat.add_mul_mod_self_left, Nat.mod_eq_of_lt hbyte,
        Nat.add_mul_div_left _ _ (by decide), Nat.div_eq_of_lt hbyte, Nat.zero_add, ih (by omega)]

/-- Copied bytes load the same. -/
theorem loadLE_of_copy {m m' : Mem} {a b k : Nat} (h : ∀ i, i < k → m' (b + i) = m (a + i)) :
    loadLE m' b k = loadLE m a k := by
  induction k generalizing a b with
  | zero => rfl
  | succ k ih =>
      have hhead : m' b = m a := h 0 (Nat.succ_pos k)
      have htail : loadLE m' (b + 1) k = loadLE m (a + 1) k := by
        refine ih fun i hi => ?_
        rw [Nat.add_assoc, Nat.add_assoc, Nat.add_comm 1 i]
        exact h (i + 1) (Nat.succ_lt_succ hi)
      rw [loadLE, loadLE, hhead, htail]

/-- The `n` consecutive 8-byte words from `a` on. -/
def words (m : Mem) (a n : Nat) : List Nat := (List.range n).map fun i => loadLE m (a + 8 * i) 8

/-- Words are determined one by one. -/
theorem words_eq {m : Mem} {a : Nat} {vs : List Nat}
    (h : ∀ i (hi : i < vs.length), loadLE m (a + 8 * i) 8 = vs[i]) : words m a vs.length = vs := by
  apply List.ext_getElem
  · rw [words, List.length_map, List.length_range]
  · intro i hi hi'
    simp only [words, List.getElem_map, List.getElem_range]
    exact h i hi'

/-! ## Byte loops of the C library -/

/-- `for (p = v; n > 0; ++p, --n) *p = c`. -/
def memset (m : Mem) (v : Nat) (c : UInt8) : Nat → Mem
  | 0 => m
  | n + 1 => memset (Function.update m v c) (v + 1) c n

/-- `for (d = dst; n > 0; --n, ++s, ++d) *d = *s`. -/
def memcpy (m : Mem) (dst src : Nat) : Nat → Mem
  | 0 => m
  | n + 1 => memcpy (Function.update m dst (m src)) (dst + 1) (src + 1) n

theorem memset_of_not_inRange {m : Mem} {v n x : Nat} {c : UInt8} (h : ¬ InRange v n x) :
    memset m v c n x = m x := by
  induction n generalizing m v with
  | zero => rfl
  | succ n ih =>
      rw [memset, ih (by omega), Function.update_of_ne (by omega)]

theorem memset_of_inRange {m : Mem} {v n x : Nat} {c : UInt8} (h : InRange v n x) :
    memset m v c n x = c := by
  induction n generalizing m v with
  | zero => omega
  | succ n ih =>
      rw [memset]
      by_cases hx : x = v
      · subst hx
        rw [memset_of_not_inRange (by omega), Function.update_self]
      · exact ih ⟨by omega, by omega⟩

theorem memcpy_of_not_inRange {m : Mem} {dst src n x : Nat} (h : ¬ InRange dst n x) :
    memcpy m dst src n x = m x := by
  induction n generalizing m dst src with
  | zero => rfl
  | succ n ih =>
      rw [memcpy, ih (by omega), Function.update_of_ne (by omega)]

/-- A copied byte is the source byte as it was, unless the copy has overwritten that first. -/
theorem memcpy_of_lt {m : Mem} {dst src n i : Nat} (hi : i < n) (h : ¬ InRange dst n (src + i)) :
    memcpy m dst src n (dst + i) = m (src + i) := by
  induction n generalizing m dst src i with
  | zero => omega
  | succ n ih =>
      rw [memcpy]
      cases i with
      | zero =>
          rw [memcpy_of_not_inRange (by omega)]
          exact Function.update_self dst (m src) m
      | succ i =>
          have hfar : ¬ InRange (dst + 1) n (src + 1 + i) := by omega
          have hdst : dst + (i + 1) = dst + 1 + i := by omega
          have hsrc : src + 1 + i = src + (i + 1) := by omega
          rw [hdst, ih (by omega) hfar, Function.update_of_ne (by omega), hsrc]

end MemoryManagement.Library.ByteMemory
