import Mathlib.Data.List.Range

/-!
# Round robin

The candidates `0, …, n - 1` stand in a circle, and whoever is picked is the first ready one behind the
candidate that was picked last. `ahead n c p` counts the candidates that are looked at before `p` when the
search starts behind `c`. A ready candidate that is passed over gets nearer to the front with each pick
(`ahead_pick`), which is what bounds its waiting.
-/

set_option autoImplicit false

namespace MemoryManagement.Library.RoundRobin

/-- The candidates in the order in which they are looked at. -/
def order (n c : Nat) : List Nat := (List.range n).map fun i => (c + 1 + i) % n

/-- The first ready candidate behind `c`. -/
def pick (n c : Nat) (ready : Nat → Bool) : Option Nat := (order n c).find? ready

/-- The number of candidates that stand before `p`. -/
def ahead (n c p : Nat) : Nat := (p + n - 1 - c) % n

section Circle

variable {n c p q : Nat}

theorem mem_order (hn : 0 < n) : p ∈ order n c ↔ p < n := by
  rw [order, List.mem_map]
  constructor
  · rintro ⟨i, -, rfl⟩
    exact Nat.mod_lt _ hn
  · intro hp
    refine ⟨(p + (n - (c + 1) % n)) % n, List.mem_range.2 (Nat.mod_lt _ hn), ?_⟩
    have hlt : (c + 1) % n < n := Nat.mod_lt _ hn
    calc (c + 1 + (p + (n - (c + 1) % n)) % n) % n
        = ((c + 1) % n + (p + (n - (c + 1) % n))) % n := by simp only [Nat.add_mod, Nat.mod_mod]
      _ = (p + n) % n := by rw [show (c + 1) % n + (p + (n - (c + 1) % n)) = p + n by omega]
      _ = p := by rw [Nat.add_mod_right, Nat.mod_eq_of_lt hp]

/-- A candidate behind `c` stands at its place, one that is not behind `c` after the turn of the circle. -/
theorem ahead_eq (hc : c < n) (hp : p < n) : ahead n c p = if c < p then p - c - 1 else p + n - c - 1 := by
  rw [ahead]
  split
  · rw [show p + n - 1 - c = p - c - 1 + n by omega, Nat.add_mod_right, Nat.mod_eq_of_lt (by omega)]
  · rw [show p + n - 1 - c = p + n - c - 1 by omega, Nat.mod_eq_of_lt (by omega)]

/-- The candidate at a place of the order. -/
theorem place (hc : c < n) (hp : p < n) : (c + 1 + ahead n c p) % n = p := by
  rw [ahead_eq hc hp]
  split
  · rw [show c + 1 + (p - c - 1) = p by omega, Nat.mod_eq_of_lt hp]
  · rw [show c + 1 + (p + n - c - 1) = p + n by omega, Nat.add_mod_right, Nat.mod_eq_of_lt hp]

/-- Different candidates stand at different places. -/
theorem ahead_inj (hc : c < n) (hp : p < n) (hq : q < n) (h : ahead n c p = ahead n c q) : p = q := by
  rw [← place hc hp, h, place hc hq]

/-- Nobody has more candidates before it than the candidate that was picked last. -/
theorem ahead_lt_of_ne (hc : c < n) (hp : p < n) (hne : p ≠ c) : ahead n c p + 1 < n := by
  rw [ahead_eq hc hp]
  split
  · omega
  · omega

/-- When the search goes on behind `q`, those up to `q` no longer stand before `p`. -/
theorem ahead_next (hc : c < n) (hp : p < n) (hq : q < n) (hlt : ahead n c q < ahead n c p) :
    ahead n q p + ahead n c q + 1 = ahead n c p := by
  rw [ahead_eq hc hp, ahead_eq hc hq] at hlt
  rw [ahead_eq hc hp, ahead_eq hc hq, ahead_eq hq hp]
  by_cases hcq : c < q
  · rw [if_pos hcq] at hlt ⊢
    by_cases hcp : c < p
    · rw [if_pos hcp] at hlt ⊢
      rw [if_pos (by omega : q < p)]
      omega
    · rw [if_neg hcp, if_neg (by omega : ¬ q < p)]
      omega
  · rw [if_neg hcq] at hlt ⊢
    by_cases hcp : c < p
    · rw [if_pos hcp] at hlt
      omega
    · rw [if_neg hcp] at hlt ⊢
      rw [if_pos (by omega : q < p)]
      omega

end Circle

section Pick

variable {n c p q : Nat} {ready : Nat → Bool}

/-- Nobody is picked if and only if nobody is ready. -/
theorem pick_eq_none (hn : 0 < n) : pick n c ready = none ↔ ∀ p, p < n → ready p = false := by
  rw [pick, List.find?_eq_none]
  constructor
  · intro h p hp
    exact Bool.eq_false_iff.2 (h p ((mem_order hn).2 hp))
  · intro h p hp
    rw [h p ((mem_order hn).1 hp)]
    exact Bool.false_ne_true

/-- The candidate that is picked is ready, and it is the one with the fewest candidates before it. -/
theorem pick_eq_some (hc : c < n) (h : pick n c ready = some q) :
    q < n ∧ ready q = true ∧ ∀ p, p < n → ready p = true → ahead n c q ≤ ahead n c p := by
  have hn : 0 < n := Nat.lt_of_le_of_lt (Nat.zero_le c) hc
  have hq := (mem_order hn).1 (List.mem_of_find?_eq_some h)
  refine ⟨hq, List.find?_some h, fun p hp hready => ?_⟩
  rw [pick, order, List.find?_map, Option.map_eq_some_iff] at h
  obtain ⟨i, hfind, hi⟩ := h
  obtain ⟨hlt, hbefore⟩ : i < n ∧ ∀ j, j < i → ready ((c + 1 + j) % n) = false := by
    rw [List.find?_range_eq_some] at hfind
    refine ⟨List.mem_range.1 hfind.2.1, fun j hj => ?_⟩
    have hnot := hfind.2.2 j hj
    simpa using hnot
  have hplace : ahead n c q = i := by
    rw [← hi, ahead_eq hc (Nat.mod_lt _ hn)]
    rcases Nat.lt_or_ge (c + 1 + i) n with hsmall | hlarge
    · rw [Nat.mod_eq_of_lt hsmall, if_pos (by omega)]
      omega
    · rw [Nat.mod_eq_sub_mod hlarge, Nat.mod_eq_of_lt (by omega), if_neg (by omega)]
      omega
  rw [hplace]
  by_contra hgt
  have hnot := hbefore (ahead n c p) (by omega)
  rw [place hc hp, hready] at hnot
  exact Bool.noConfusion hnot

/-- A ready candidate that is passed over has fewer candidates before it than before. -/
theorem ahead_pick (hc : c < n) (h : pick n c ready = some q) (hp : p < n) (hready : ready p = true)
    (hne : q ≠ p) : ahead n q p < ahead n c p := by
  obtain ⟨hq, -, hmin⟩ := pick_eq_some hc h
  have hle := hmin p hp hready
  have hlt : ahead n c q < ahead n c p := by
    apply Nat.lt_of_le_of_ne hle
    intro e
    exact hne (ahead_inj hc hq hp e)
  have := ahead_next hc hp hq hlt
  omega

end Pick

end MemoryManagement.Library.RoundRobin
