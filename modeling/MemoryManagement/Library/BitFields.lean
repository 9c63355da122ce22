import Mathlib.Data.List.Pairwise

/-!
# Packed bit fields

A word is packed from parts, each of which has its set bits in a range of its own (`Part`). When the
ranges do not meet, a range of the packed word reads as the part that was put there (`extract_pack`);
where no part has put anything it reads as zero (`extract_pack_eq_zero`). `Mask` and `Within` say where
the bits of masked and shifted words are.
-/

set_option autoImplicit false

namespace MemoryManagement.Library.BitFields

variable {n : Nat}

/-- All set bits of `w` lie in `[lo, hi)`. -/
def Within (w : BitVec n) (lo hi : Nat) : Prop := ∀ i, w.getLsbD i = true → lo ≤ i ∧ i < hi

/-- Exactly the bits in `[lo, hi)` of `m` are set. -/
def Mask (m : BitVec n) (lo hi : Nat) : Prop := ∀ i, m.getLsbD i = decide (lo ≤ i ∧ i < hi)

section Ranges

variable {v w m : BitVec n} {lo hi k start len : Nat}

/-- A literal is a mask when its bits are. -/
theorem mask_of_fin (h : ∀ i : Fin n, m.getLsbD i = decide (lo ≤ i.val ∧ i.val < hi)) (hhi : hi ≤ n) :
    Mask m lo hi := by
  intro i
  by_cases hi' : i < n
  · exact h ⟨i, hi'⟩
  · rw [BitVec.getLsbD_of_ge m i (Nat.le_of_not_lt hi'), eq_comm, decide_eq_false_iff_not]
    omega

/-- A literal is within a range when its bits are. -/
theorem within_of_fin (h : ∀ i : Fin n, w.getLsbD i = true → lo ≤ i.val ∧ i.val < hi) :
    Within w lo hi := by
  intro i hset
  by_cases hi' : i < n
  · exact h ⟨i, hi'⟩ hset
  · rw [BitVec.getLsbD_of_ge w i (Nat.le_of_not_lt hi')] at hset
    cases hset

theorem Mask.within_and (h : Mask m lo hi) : Within (v &&& m) lo hi := by
  intro i hset
  rw [BitVec.getLsbD_and, h i, Bool.and_eq_true, decide_eq_true_iff] at hset
  exact hset.2

theorem Within.shiftLeft (h : Within w lo hi) : Within (w <<< k) (lo + k) (hi + k) := by
  intro i hset
  rw [BitVec.getLsbD_shiftLeft, Bool.and_eq_true, Bool.and_eq_true] at hset
  obtain ⟨⟨-, hk⟩, hbit⟩ := hset
  have hrange := h (i - k) hbit
  have hle : k ≤ i := by
    apply Nat.le_of_not_lt
    simpa using hk
  omega

theorem within_setWidth {l : Nat} (t : BitVec l) : Within (t.setWidth n) 0 l := by
  intro i hset
  rw [BitVec.getLsbD_setWidth, Bool.and_eq_true] at hset
  exact ⟨Nat.zero_le i, BitVec.lt_of_getLsbD hset.2⟩

/-- Bits that are not there read as zero. -/
theorem Within.extract_eq_zero (h : Within w lo hi) (hout : hi ≤ start ∨ start + len ≤ lo) :
    w.extractLsb' start len = BitVec.ofNat len 0 := by
  apply BitVec.eq_of_getLsbD_eq
  intro i hi'
  rw [BitVec.getLsbD_extractLsb', BitVec.getLsbD_zero, Bool.and_eq_false_iff]
  right
  apply Bool.eq_false_iff.2
  intro hset
  have := h (start + i) hset
  omega

/-- A mask does not change what is read inside its range. -/
theorem Mask.extract_and (h : Mask m lo hi) (hlo : lo ≤ start) (hhi : start + len ≤ hi) :
    (v &&& m).extractLsb' start len = v.extractLsb' start len := by
  apply BitVec.eq_of_getLsbD_eq
  intro i hi'
  have hbit : m.getLsbD (start + i) = true := by
    rw [h (start + i), decide_eq_true_iff]
    omega
  rw [BitVec.getLsbD_extractLsb', BitVec.getLsbD_extractLsb', BitVec.getLsbD_and, hbit, Bool.and_true]

/-- A shift moves a range as long as it does not push it out of the word. -/
theorem extract_shiftLeft (hfit : start + k + len ≤ n) :
    (w <<< k).extractLsb' (start + k) len = w.extractLsb' start len := by
  apply BitVec.eq_of_getLsbD_eq
  intro i hi'
  have hindex : start + k + i - k = start + i := by omega
  rw [BitVec.getLsbD_extractLsb', BitVec.getLsbD_extractLsb', BitVec.getLsbD_shiftLeft, hindex,
    decide_eq_true (by omega : start + k + i < n), decide_eq_false (by omega : ¬ start + k + i < k)]
  rfl

theorem extract_ushiftRight : (w >>> k).extractLsb' start len = w.extractLsb' (k + start) len := by
  apply BitVec.eq_of_getLsbD_eq
  intro i hi'
  rw [BitVec.getLsbD_extractLsb', BitVec.getLsbD_extractLsb', BitVec.getLsbD_ushiftRight, Nat.add_assoc]

/-- Adjacent ranges read together. -/
theorem extract_append_extract {l l' : Nat} (hnext : k = start + l) :
    w.extractLsb' k l' ++ w.extractLsb' start l = w.extractLsb' start (l' + l) := by
  apply BitVec.eq_of_getLsbD_eq
  intro i hi'
  rw [BitVec.getLsbD_append, BitVec.getLsbD_extractLsb', BitVec.getLsbD_extractLsb',
    BitVec.getLsbD_extractLsb', decide_eq_true hi']
  by_cases hl : i < l
  · rw [if_pos hl, decide_eq_true hl]
  · have hindex : k + (i - l) = start + i := by omega
    rw [if_neg hl, hindex, decide_eq_true (by omega : i - l < l')]

end Ranges

/-- Two ranges, each given by its start and its length, do not meet. -/
def Apart (r r' : Nat × Nat) : Prop := r.1 + r.2 ≤ r'.1 ∨ r'.1 + r'.2 ≤ r.1

instance (r r' : Nat × Nat) : Decidable (Apart r r') := inferInstanceAs (Decidable (_ ∨ _))

theorem Apart.symm {r r' : Nat × Nat} (h : Apart r r') : Apart r' r := Or.symm h

/-- Bits with the range they are in. -/
structure Part (n : Nat) where
  bits : BitVec n
  lo : Nat
  len : Nat
  within : Within bits lo (lo + len)

/-- The start and the length of a part. -/
def Part.range (p : Part n) : Nat × Nat := (p.lo, p.len)

/-- The word with all the parts. -/
def pack (parts : List (Part n)) : BitVec n := parts.foldr (fun p w => p.bits ||| w) (BitVec.ofNat n 0)

/-- A range that no part meets reads as zero. -/
theorem extract_pack_eq_zero {parts : List (Part n)} {start len : Nat}
    (h : ∀ r ∈ parts.map Part.range, Apart r (start, len)) :
    (pack parts).extractLsb' start len = BitVec.ofNat len 0 := by
  induction parts with
  | nil =>
      apply BitVec.eq_of_getLsbD_eq
      intro i hi
      rw [pack, List.foldr_nil, BitVec.getLsbD_extractLsb', BitVec.getLsbD_zero, BitVec.getLsbD_zero,
        Bool.and_false]
  | cons p ps ih =>
      have hself := p.within.extract_eq_zero (h p.range List.mem_cons_self)
      have hrest := ih fun r hr => h r (List.mem_cons_of_mem p.range hr)
      rw [pack, List.foldr_cons, BitVec.extractLsb'_or, hself, BitVec.zero_or]
      exact hrest

/-- The range of a part reads as the part. -/
theorem extract_pack {parts : List (Part n)} (h : (parts.map Part.range).Pairwise Apart) {p : Part n}
    (hp : p ∈ parts) : (pack parts).extractLsb' p.lo p.len = p.bits.extractLsb' p.lo p.len := by
  induction parts with
  | nil => cases hp
  | cons q ps ih =>
      obtain ⟨hq, hps⟩ := List.pairwise_cons.1 h
      rw [pack, List.foldr_cons, BitVec.extractLsb'_or]
      rcases List.mem_cons.1 hp with rfl | hp
      · -- the parts behind it leave its range alone
        have hrest : (pack ps).extractLsb' p.lo p.len = BitVec.ofNat p.len 0 :=
          extract_pack_eq_zero fun r hr => (hq r hr).symm
        rw [pack] at hrest
        rw [hrest, BitVec.or_zero]
      · have hmeet : Apart q.range p.range := hq p.range (List.mem_map_of_mem hp)
        have hself : q.bits.extractLsb' p.lo p.len = BitVec.ofNat p.len 0 :=
          q.within.extract_eq_zero hmeet
        rw [hself, BitVec.zero_or]
        exact ih hps hp

end MemoryManagement.Library.BitFields
