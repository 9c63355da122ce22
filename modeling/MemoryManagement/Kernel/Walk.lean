import MemoryManagement.Kernel.Paging

/-!
# Page-table walks

`tableAt` follows present entries by their indices. `virtual_memory_lookup` visits the tables of its
index path (`tableAt_levels`) and depends on nothing else (`lookupLevels_congr`);
`lookup_l4pagetable` returns the table three steps down (`lookupL4pagetable_eq`). A write to a
last-level table of a tree changes no table that a walk of at most three steps reaches.

The lookup clears permission bits of an entry that the entry before it still carries. What it reports
is the conjunction of the four levels exactly when the entries above a leaf are set in the right
combination (`lookup_permissions_iff`).
-/

set_option autoImplicit false

namespace MemoryManagement.Kernel

open MemoryManagement.Library.ByteMemory

/-! ## Tables and index paths -/

/-- The table that the indices lead to through present entries. -/
def tableAt (m : Mem) (pt : Nat) : List Nat → Option Nat
  | [] => some pt
  | i :: path =>
      if entry m pt i &&& PTE_P ≠ 0 then tableAt m (pteAddr (entry m pt i)) path else none

/-- Indices of a walk: at most three of them, each below 512. -/
def IndexPath (path : List Nat) : Prop := path.length ≤ 3 ∧ ∀ i ∈ path, i < 512

/-- No table page is reached by two different index paths. -/
def Tree (m : Mem) (root : Nat) : Prop :=
  ∀ p q t, IndexPath p → IndexPath q → tableAt m root p = some t → tableAt m root q = some t → p = q

/-- The indices of the first three levels. -/
def indices (va : Nat) : List Nat := [pageindex va 0, pageindex va 1, pageindex va 2]

/-- The page of a 48-bit virtual address. -/
def page48 (va : Nat) : Nat := va / 4096 % 2 ^ 36

theorem page48_page {i : Nat} (hi : i < 2 ^ 36) : page48 (PAGESIZE * i) = i := by
  simp only [page48, PAGESIZE]
  omega

theorem indexPath_indices (va : Nat) : IndexPath (indices va) := by
  refine ⟨Nat.le_refl 3, fun i hi => ?_⟩
  simp only [indices, List.mem_cons, List.not_mem_nil, or_false] at hi
  rcases hi with rfl | rfl | rfl <;> exact pageindex_lt va _

/-- The four indices are the digits of the page number. -/
theorem page48_eq (va : Nat) :
    page48 va = ((pageindex va 0 * 512 + pageindex va 1) * 512 + pageindex va 2) * 512 +
      pageindex va 3 := by
  simp only [page48, pageindex_eq, Nat.sub_zero]
  norm_num
  omega

theorem page48_eq_iff (a b : Nat) :
    page48 a = page48 b ↔ indices a = indices b ∧ pageindex a 3 = pageindex b 3 := by
  have ha := page48_eq a
  have hb := page48_eq b
  have h : ∀ i, pageindex a i < 512 ∧ pageindex b i < 512 := fun i =>
    ⟨pageindex_lt a i, pageindex_lt b i⟩
  have h1 := h 1
  have h2 := h 2
  have h3 := h 3
  simp only [indices, List.cons.injEq, and_true]
  constructor
  · intro e
    omega
  · rintro ⟨⟨e0, e1, e2⟩, e3⟩
    rw [ha, hb, e0, e1, e2, e3]

section Walks

variable {m : Mem} {root t : Nat}

theorem tableAt_append (p q : List Nat) :
    tableAt m root (p ++ q) = (tableAt m root p).bind fun t => tableAt m t q := by
  induction p generalizing root with
  | nil => rfl
  | cons i p ih =>
      rw [List.cons_append, tableAt, tableAt]
      split
      · exact ih
      · rfl

theorem tableAt_aligned (hroot : root % 4096 = 0) {path : List Nat}
    (h : tableAt m root path = some t) : t % 4096 = 0 := by
  induction path generalizing root with
  | nil =>
      rw [← Option.some.inj h]
      exact hroot
  | cons i path ih =>
      rw [tableAt] at h
      split at h
      · exact ih (pteAddr_mod _) h
      · cases h

/-- A write to a table three steps down is not seen by walks of at most three steps. -/
theorem Tree.tableAt_setEntry (htree : Tree m root) (hroot : root % 4096 = 0) {p : List Nat}
    (hp : IndexPath p) (hlen : p.length = 3) (ht : tableAt m root p = some t) {j v : Nat}
    (hj : j < 512) (hv : v < 2 ^ 64) {q : List Nat} (hq : IndexPath q) :
    tableAt (setEntry m t j v) root q = tableAt m root q := by
  -- induction over what is left of the path, with the part already walked
  suffices h : ∀ (rest done : List Nat) (s : Nat), IndexPath (done ++ rest) →
      tableAt m root done = some s → tableAt (setEntry m t j v) s rest = tableAt m s rest from
    h q [] root hq rfl
  intro rest
  induction rest with
  | nil =>
      intro done s _ _
      rfl
  | cons i rest ih =>
      intro done s hpath hs
      have hi : i < 512 := hpath.2 i (by simp)
      have hdone : IndexPath done := by
        refine ⟨?_, fun k hk => hpath.2 k (List.mem_append_left _ hk)⟩
        have := hpath.1
        rw [List.length_append] at this
        omega
      have hst : s ≠ t := by
        rintro rfl
        have hsame := htree _ _ _ hdone hp hs ht
        have := hpath.1
        rw [hsame, List.length_append, hlen] at this
        simp at this
      have hentry : entry (setEntry m t j v) s i = entry m s i := by
        rw [entry_setEntry (tableAt_aligned hroot ht) (tableAt_aligned hroot hs) hi hj hv,
          if_neg fun e => hst e.1]
      rw [tableAt, tableAt, hentry]
      split
      · rename_i hpresent
        apply ih (done ++ [i])
        · rw [List.append_assoc]
          exact hpath
        · rw [tableAt_append, hs]
          show tableAt m s [i] = _
          rw [tableAt, if_pos hpresent]
          rfl
      · rfl

theorem Tree.setEntry (htree : Tree m root) (hroot : root % 4096 = 0) {p : List Nat}
    (hp : IndexPath p) (hlen : p.length = 3) (ht : tableAt m root p = some t) {j v : Nat}
    (hj : j < 512) (hv : v < 2 ^ 64) : Tree (Kernel.setEntry m t j v) root := by
  intro q r s hq hr h1 h2
  rw [htree.tableAt_setEntry hroot hp hlen ht hj hv hq] at h1
  rw [htree.tableAt_setEntry hroot hp hlen ht hj hv hr] at h2
  exact htree q r s hq hr h1 h2

/-! ## The lookup walk -/

theorem present_iff (pe : Nat) : pe &&& PTE_P ≠ 0 ↔ pe.testBit 0 = true := and_two_pow_ne_zero pe 0

/-- Bits of an entry after the permission bits of `y` have been cleared in it. -/
theorem testBit_masked {e : Nat} (he : e < 2 ^ 64) (y i : Nat) :
    (e &&& not64 (y &&& (PTE_W ||| PTE_U))).testBit i =
      (e.testBit i && !(y.testBit i && (decide (i = 1) || decide (i = 2)))) := by
  have hsix : Nat.testBit (PTE_W ||| PTE_U) i = (decide (i = 1) || decide (i = 2)) := by
    rw [Nat.testBit_or, show PTE_W = 2 ^ 1 from rfl, show PTE_U = 2 ^ 2 from rfl,
      Nat.testBit_two_pow, Nat.testBit_two_pow]
    simp only [eq_comm]
  have hlt : y &&& (PTE_W ||| PTE_U) < 2 ^ 64 :=
    Nat.lt_of_le_of_lt Nat.and_le_right (by decide)
  rw [Nat.testBit_and, testBit_not64 hlt, Nat.testBit_and, hsix]
  by_cases hi : i < 64
  · simp [hi]
  · have : e.testBit i = false := Nat.testBit_lt_two_pow
      (Nat.lt_of_lt_of_le he (Nat.pow_le_pow_right (by decide) (by omega)))
    simp [this]

theorem present_masked {e : Nat} (he : e < 2 ^ 64) (y : Nat) :
    (e &&& not64 (y &&& (PTE_W ||| PTE_U))) &&& PTE_P ≠ 0 ↔ e &&& PTE_P ≠ 0 := by
  rw [present_iff, present_iff, testBit_masked he]
  simp

theorem pteAddr_masked {e : Nat} (he : e < 2 ^ 64) (y : Nat) :
    pteAddr (e &&& not64 (y &&& (PTE_W ||| PTE_U))) = pteAddr e := by
  apply Nat.eq_of_testBit_eq
  intro i
  rw [testBit_pteAddr, testBit_pteAddr, testBit_masked he]
  by_cases hi : 12 ≤ i
  · have h1 : ¬ i = 1 := by omega
    have h2 : ¬ i = 2 := by omega
    simp [h1, h2]
  · simp [hi]

/-- The walk of `virtual_memory_lookup` visits the tables of its index path. -/
theorem tableAt_levels (va : Nat) {levels : List Nat} {pt pe : Nat} (hpe : pe &&& PTE_P ≠ 0)
    (hne : levels ≠ []) :
    tableAt m pt (levels.map (pageindex va)) =
      if lookupLevels m va levels pt pe &&& PTE_P ≠ 0 then
        some (pteAddr (lookupLevels m va levels pt pe)) else none := by
  induction levels generalizing pt pe with
  | nil => exact absurd rfl hne
  | cons i levels ih =>
      have he := entry_lt m pt (pageindex va i)
      have hpresent := present_masked he pe
      rw [List.map_cons, tableAt, lookupLevels, if_pos hpe]
      simp only
      cases levels with
      | nil =>
          simp only [lookupLevels, hpresent, pteAddr_masked he, List.map_nil, tableAt]
      | cons j levels =>
          by_cases h : entry m pt (pageindex va i) &&& PTE_P ≠ 0
          · rw [if_pos h, pteAddr_masked he]
            exact ih (hpresent.2 h) (by simp)
          · have hstop := mt hpresent.1 h
            rw [if_neg h, lookupLevels, if_neg hstop, if_neg hstop]

/-- The walk depends only on the entries it visits. -/
theorem lookupLevels_congr {m' : Mem} {va : Nat} {levels : List Nat} {pt pe : Nat}
    (h : ∀ done i rest, levels = done ++ i :: rest → ∀ s,
      tableAt m pt (done.map (pageindex va)) = some s →
        entry m' s (pageindex va i) = entry m s (pageindex va i)) :
    lookupLevels m' va levels pt pe = lookupLevels m va levels pt pe := by
  induction levels generalizing pt pe with
  | nil => rfl
  | cons i levels ih =>
      have he := entry_lt m pt (pageindex va i)
      rw [lookupLevels, lookupLevels]
      split
      · simp only
        rw [h [] i levels rfl pt rfl, pteAddr_masked he]
        by_cases hpresent : entry m pt (pageindex va i) &&& PTE_P ≠ 0
        · apply ih
          intro done j rest hsplit s hs
          apply h (i :: done) j rest (by rw [hsplit]; rfl)
          rw [List.map_cons, tableAt, if_pos hpresent]
          exact hs
        · have hstop := mt (present_masked he pe).1 hpresent
          cases levels with
          | nil => rfl
          | cons j levels => rw [lookupLevels, lookupLevels, if_neg hstop, if_neg hstop]
      · rfl

/-- The entries above the last-level table of `va` grant the permissions in `perm`. -/
def Grants (m : Mem) (root va perm : Nat) : Prop :=
  ∀ done i rest, [0, 1, 2] = done ++ i :: rest → ∀ s,
    tableAt m root (done.map (pageindex va)) = some s → ∀ k, k = 1 ∨ k = 2 →
      perm.testBit k = true → (entry m s (pageindex va i)).testBit k = true

/-- A present entry that the loop of `lookup_l4pagetable` accepts: its assertions have passed. -/
theorem l4Levels_cons {va perm i : Nat} {levels : List Nat} {pt : Nat}
    (hpresent : entry m pt (pageindex va i) &&& PTE_P ≠ 0)
    (h : l4Levels m va perm (i :: levels) pt = .ok t) :
    (perm &&& PTE_W ≠ 0 → entry m pt (pageindex va i) &&& PTE_W ≠ 0) ∧
    (perm &&& PTE_U ≠ 0 → entry m pt (pageindex va i) &&& PTE_U ≠ 0) ∧
    l4Levels m va perm levels (pteAddr (entry m pt (pageindex va i))) = .ok t := by
  rw [l4Levels] at h
  simp only at h
  rw [if_neg hpresent] at h
  obtain ⟨-, h⟩ := assert_bind_eq_ok.1 h
  by_cases hpw : perm &&& PTE_W ≠ 0 <;> by_cases hpu : perm &&& PTE_U ≠ 0
  · rw [if_pos hpw, if_pos hpu] at h
    obtain ⟨hw, h⟩ := assert_bind_eq_ok.1 h
    obtain ⟨hu, h⟩ := assert_bind_eq_ok.1 h
    exact ⟨fun _ => hw, fun _ => hu, h⟩
  · rw [if_pos hpw, if_neg hpu] at h
    obtain ⟨hw, h⟩ := assert_bind_eq_ok.1 h
    exact ⟨fun _ => hw, fun e => absurd e hpu, h⟩
  · rw [if_neg hpw, if_pos hpu] at h
    obtain ⟨hu, h⟩ := assert_bind_eq_ok.1 h
    exact ⟨fun e => absurd e hpw, fun _ => hu, h⟩
  · rw [if_neg hpw, if_neg hpu] at h
    exact ⟨fun e => absurd e hpw, fun e => absurd e hpu, h⟩

/-- What the loop of `lookup_l4pagetable` promises about a table it returns. -/
theorem l4Levels_ok {va perm : Nat} {levels : List Nat} {pt : Nat}
    (h : l4Levels m va perm levels pt = .ok t) (ht : t ≠ NULL) :
    tableAt m pt (levels.map (pageindex va)) = some t ∧
      ∀ done i rest, levels = done ++ i :: rest → ∀ s,
        tableAt m pt (done.map (pageindex va)) = some s → ∀ k, k = 1 ∨ k = 2 →
          perm.testBit k = true → (entry m s (pageindex va i)).testBit k = true := by
  induction levels generalizing pt with
  | nil =>
      refine ⟨congrArg some (Except.ok.inj h), fun done i rest hsplit => ?_⟩
      simp at hsplit
  | cons i levels ih =>
      by_cases hpresent : entry m pt (pageindex va i) &&& PTE_P = 0
      · rw [l4Levels] at h
        simp only at h
        rw [if_pos hpresent] at h
        exact absurd (Except.ok.inj h).symm ht
      · obtain ⟨hw, hu, hrest⟩ := l4Levels_cons hpresent h
        obtain ⟨htable, hbits⟩ := ih hrest
        refine ⟨?_, ?_⟩
        · rw [List.map_cons, tableAt, if_pos hpresent]
          exact htable
        · intro done j rest hsplit s hs k hk hperm
          -- the entry asked about is the first one, or one further down
          cases done with
          | nil =>
              obtain ⟨rfl, rfl⟩ := List.cons.inj hsplit
              obtain rfl := Option.some.inj hs
              rcases hk with rfl | rfl
              · exact (and_two_pow_ne_zero _ 1).1 (hw ((and_two_pow_ne_zero perm 1).2 hperm))
              · exact (and_two_pow_ne_zero _ 2).1 (hu ((and_two_pow_ne_zero perm 2).2 hperm))
          | cons d done =>
              obtain ⟨rfl, hsplit'⟩ := List.cons.inj hsplit
              rw [List.map_cons, tableAt, if_pos hpresent] at hs
              exact hbits done j rest hsplit' s hs k hk hperm

theorem lookupLevels_cons {va i pt pe : Nat} {levels : List Nat} (hpe : pe &&& PTE_P ≠ 0) :
    lookupLevels m va (i :: levels) pt pe = lookupLevels m va levels
      (pteAddr (entry m pt (pageindex va i)))
      (entry m pt (pageindex va i) &&& not64 (pe &&& (PTE_W ||| PTE_U))) := by
  rw [lookupLevels, if_pos hpe]
  simp only
  rw [pteAddr_masked (entry_lt m pt _)]

theorem tableAt_cons_eq_some {i : Nat} {path : List Nat} (h : tableAt m root (i :: path) = some t) :
    entry m root i &&& PTE_P ≠ 0 ∧ tableAt m (pteAddr (entry m root i)) path = some t := by
  rw [tableAt] at h
  split at h
  · rename_i hpresent
    exact ⟨hpresent, h⟩
  · cases h

/-- The table that `lookup_l4pagetable` returns is the one three steps down, or `NULL`. -/
theorem l4Levels_eq {va perm : Nat} {levels : List Nat} {pt : Nat}
    (h : l4Levels m va perm levels pt = .ok t) :
    t = (tableAt m pt (levels.map (pageindex va))).getD NULL := by
  by_cases ht : t = NULL
  · -- an absent entry, or a walk that ends at address 0
    subst ht
    induction levels generalizing pt with
    | nil => exact (Except.ok.inj h).symm
    | cons i levels ih =>
        rw [List.map_cons, tableAt]
        by_cases hpresent : entry m pt (pageindex va i) &&& PTE_P ≠ 0
        · rw [if_pos hpresent]
          exact ih (l4Levels_cons hpresent h).2.2
        · rw [if_neg hpresent]
          rfl
  · rw [(l4Levels_ok h ht).1]
    rfl

theorem lookupL4pagetable_eq {va perm : Nat} (h : lookupL4pagetable m root va perm = .ok t) :
    t = (tableAt m root (indices va)).getD NULL :=
  l4Levels_eq h

/-! ## Permissions -/

theorem testBit_pteFlags (pe : Nat) {k : Nat} (hk : k < 12) :
    (pteFlags pe).testBit k = pe.testBit k := by
  rw [pteFlags_eq, show (4096 : Nat) = 2 ^ 12 from rfl, Nat.testBit_mod_two_pow, decide_eq_true hk,
    Bool.true_and]

/-- The entries on the path of an address, from the first level on. -/
def pathEntry (m : Mem) (root va : Nat) : Nat → Nat
  | 0 => entry m root (pageindex va 0)
  | i + 1 => entry m (pteAddr (pathEntry m root va i)) (pageindex va (i + 1))

/-- All four entries on the path are present. -/
def AllPresent (m : Mem) (root va : Nat) : Prop := ∀ i, i < 4 → pathEntry m root va i &&& PTE_P ≠ 0

theorem pathEntry_lt (va i : Nat) : pathEntry m root va i < 2 ^ 64 := by
  cases i with
  | zero => exact entry_lt m _ _
  | succ i => exact entry_lt m _ _

/-- The entry that the lookup has at hand after the levels up to `i`, all of them present. -/
def foldedEntry (m : Mem) (root va : Nat) : Nat → Nat
  | 0 => pathEntry m root va 0 &&& not64 ((PTE_W ||| PTE_U ||| PTE_P) &&& (PTE_W ||| PTE_U))
  | i + 1 => pathEntry m root va (i + 1) &&& not64 (foldedEntry m root va i &&& (PTE_W ||| PTE_U))

theorem foldedEntry_present {va i : Nat} :
    foldedEntry m root va i &&& PTE_P ≠ 0 ↔ pathEntry m root va i &&& PTE_P ≠ 0 := by
  cases i with
  | zero => exact present_masked (pathEntry_lt va 0) _
  | succ i => exact present_masked (pathEntry_lt va (i + 1)) _

theorem lookupLevels_stop {va pt pe : Nat} {levels : List Nat} (hpe : ¬ pe &&& PTE_P ≠ 0) :
    lookupLevels m va levels pt pe = pe := by
  cases levels with
  | nil => rfl
  | cons i levels => rw [lookupLevels, if_neg hpe]

/-- One level of the walk, from an entry that is present. -/
theorem lookupLevels_step {va i : Nat} {levels : List Nat}
    (h : foldedEntry m root va i &&& PTE_P ≠ 0) :
    lookupLevels m va ((i + 1) :: levels) (pteAddr (pathEntry m root va i)) (foldedEntry m root va i) =
      lookupLevels m va levels (pteAddr (pathEntry m root va (i + 1)))
        (foldedEntry m root va (i + 1)) :=
  lookupLevels_cons h

theorem lookupLevels_first {va : Nat} {levels : List Nat} :
    lookupLevels m va (0 :: levels) root (PTE_W ||| PTE_U ||| PTE_P) =
      lookupLevels m va levels (pteAddr (pathEntry m root va 0)) (foldedEntry m root va 0) :=
  lookupLevels_cons (by decide)

theorem lookupLevels_of_allPresent {va : Nat} (h : AllPresent m root va) :
    lookupLevels m va [0, 1, 2, 3] root (PTE_W ||| PTE_U ||| PTE_P) = foldedEntry m root va 3 := by
  rw [lookupLevels_first, lookupLevels_step (foldedEntry_present.2 (h 0 (by decide))),
    lookupLevels_step (foldedEntry_present.2 (h 1 (by decide))),
    lookupLevels_step (foldedEntry_present.2 (h 2 (by decide))), lookupLevels]

/-- The walk stops at the first entry that is not present. -/
theorem lookupLevels_of_not_allPresent {va : Nat} (h : ¬ AllPresent m root va) :
    ¬ lookupLevels m va [0, 1, 2, 3] root (PTE_W ||| PTE_U ||| PTE_P) &&& PTE_P ≠ 0 := by
  rw [lookupLevels_first]
  by_cases h0 : foldedEntry m root va 0 &&& PTE_P ≠ 0
  · rw [lookupLevels_step h0]
    by_cases h1 : foldedEntry m root va 1 &&& PTE_P ≠ 0
    · rw [lookupLevels_step h1]
      by_cases h2 : foldedEntry m root va 2 &&& PTE_P ≠ 0
      · rw [lookupLevels_step h2, lookupLevels]
        intro h3
        apply h
        intro i hi
        apply foldedEntry_present.1
        match i, hi with
        | 0, _ => exact h0
        | 1, _ => exact h1
        | 2, _ => exact h2
        | 3, _ => exact h3
      · rw [lookupLevels_stop h2]
        exact h2
    · rw [lookupLevels_stop h1]
      exact h1
  · rw [lookupLevels_stop h0]
    exact h0

theorem lookup_of_allPresent {va : Nat} (h : AllPresent m root va) :
    virtualMemoryLookup m root va = ⟨pageNumber (foldedEntry m root va 3),
      pteAddr (pathEntry m root va 3) + pageOffset va, pteFlags (foldedEntry m root va 3)⟩ := by
  rw [virtualMemoryLookup, lookupLevels_of_allPresent h]
  show (if foldedEntry m root va 3 &&& PTE_P ≠ 0 then _ else _) = _
  rw [if_pos (foldedEntry_present.2 (h 3 (by decide))), foldedEntry,
    pteAddr_masked (pathEntry_lt va 3)]

theorem lookup_of_not_allPresent {va : Nat} (h : ¬ AllPresent m root va) :
    virtualMemoryLookup m root va = Vamapping.unmapped := by
  rw [virtualMemoryLookup]
  exact if_neg (lookupLevels_of_not_allPresent h)

/-- The lookup reports an address as mapped exactly when all entries on its path are present. -/
theorem lookup_eq_unmapped_iff {va : Nat} :
    virtualMemoryLookup m root va = Vamapping.unmapped ↔ ¬ AllPresent m root va := by
  constructor
  · intro h hall
    rw [lookup_of_allPresent hall] at h
    have hperm : pteFlags (foldedEntry m root va 3) = 0 := congrArg Vamapping.perm h
    have hbit := (present_iff _).1 (foldedEntry_present.2 (hall 3 (by decide)))
    rw [← testBit_pteFlags _ (by decide), hperm] at hbit
    exact absurd hbit (by decide)
  · exact lookup_of_not_allPresent

/-- A permission bit that survives the folding of all four levels. -/
theorem testBit_foldedEntry {va k : Nat} (hk : k = 1 ∨ k = 2) :
    (foldedEntry m root va 3).testBit k = ((pathEntry m root va 3).testBit k &&
      !((pathEntry m root va 2).testBit k && !(pathEntry m root va 1).testBit k)) := by
  have hstart : (PTE_W ||| PTE_U ||| PTE_P).testBit k = true := by
    rcases hk with rfl | rfl <;> decide
  have hmask : (decide (k = 1) || decide (k = 2)) = true := by
    rcases hk with rfl | rfl <;> rfl
  simp only [foldedEntry]
  rw [testBit_masked (pathEntry_lt va 3), testBit_masked (pathEntry_lt va 2),
    testBit_masked (pathEntry_lt va 1), testBit_masked (pathEntry_lt va 0), hstart, hmask]
  simp

end Walks

/-- What the processor's walk of the same tables says: the address is mapped when all four entries are
present, it lies in the leaf's frame, and it may be written or used in user mode when all four entries
say so. -/
def AgreesWithHardware (m : Mem) (root va : Nat) : Prop :=
  (virtualMemoryLookup m root va ≠ Vamapping.unmapped ↔ AllPresent m root va) ∧
  (AllPresent m root va →
    (virtualMemoryLookup m root va).pa = pteAddr (pathEntry m root va 3) + pageOffset va ∧
    ∀ bit ∈ [PTE_W, PTE_U], ((virtualMemoryLookup m root va).perm &&& bit ≠ 0 ↔
      ∀ i, i < 4 → pathEntry m root va i &&& bit ≠ 0))

/-- The lookup agrees with the processor exactly when every permission of a leaf stands in the entry
above it too, and in the first entry if it stands in the second. -/
theorem lookup_permissions_iff (m : Mem) (root va : Nat) :
    AgreesWithHardware m root va ↔
      (AllPresent m root va → ∀ bit ∈ [PTE_W, PTE_U], pathEntry m root va 3 &&& bit ≠ 0 →
        pathEntry m root va 2 &&& bit ≠ 0 ∧
        (pathEntry m root va 1 &&& bit ≠ 0 → pathEntry m root va 0 &&& bit ≠ 0)) := by
  have hmapped : virtualMemoryLookup m root va ≠ Vamapping.unmapped ↔ AllPresent m root va :=
    not_iff_comm.1 lookup_eq_unmapped_iff.symm
  -- the claim about one bit, as a statement about the four levels
  have hbit : AllPresent m root va → ∀ bit ∈ [PTE_W, PTE_U],
      (((virtualMemoryLookup m root va).perm &&& bit ≠ 0 ↔
        ∀ i, i < 4 → pathEntry m root va i &&& bit ≠ 0) ↔
      (pathEntry m root va 3 &&& bit ≠ 0 → pathEntry m root va 2 &&& bit ≠ 0 ∧
        (pathEntry m root va 1 &&& bit ≠ 0 → pathEntry m root va 0 &&& bit ≠ 0))) := by
    intro hall bit hmem
    obtain ⟨k, hk, rfl⟩ : ∃ k, (k = 1 ∨ k = 2) ∧ bit = 2 ^ k := by
      simp only [List.mem_cons, List.not_mem_nil, or_false] at hmem
      rcases hmem with rfl | rfl
      · exact ⟨1, Or.inl rfl, rfl⟩
      · exact ⟨2, Or.inr rfl, rfl⟩
    have hperm : (virtualMemoryLookup m root va).perm = pteFlags (foldedEntry m root va 3) := by
      rw [lookup_of_allPresent hall]
    have hlevels : (∀ i, i < 4 → pathEntry m root va i &&& 2 ^ k ≠ 0) ↔
        (pathEntry m root va 0).testBit k = true ∧ (pathEntry m root va 1).testBit k = true ∧
        (pathEntry m root va 2).testBit k = true ∧ (pathEntry m root va 3).testBit k = true := by
      simp only [and_two_pow_ne_zero]
      constructor
      · intro h
        exact ⟨h 0 (by decide), h 1 (by decide), h 2 (by decide), h 3 (by decide)⟩
      · rintro ⟨h0, h1, h2, h3⟩ i hi
        match i, hi with
        | 0, _ => exact h0
        | 1, _ => exact h1
        | 2, _ => exact h2
        | 3, _ => exact h3
    rw [hlevels, hperm]
    simp only [and_two_pow_ne_zero]
    rw [testBit_pteFlags _ (by omega), testBit_foldedEntry hk]
    cases (pathEntry m root va 0).testBit k <;> cases (pathEntry m root va 1).testBit k <;>
      cases (pathEntry m root va 2).testBit k <;> cases (pathEntry m root va 3).testBit k <;> simp
  constructor
  · rintro ⟨-, h⟩ hall bit hmem
    exact (hbit hall bit hmem).1 ((h hall).2 bit hmem)
  · intro h
    refine ⟨hmapped, fun hall => ⟨?_, fun bit hmem => (hbit hall bit hmem).2 (h hall bit hmem)⟩⟩
    rw [lookup_of_allPresent hall]

/-- A chain of tables whose third-level entry is not writable, with a writable leaf. -/
def readOnlyChain : Mem :=
  setEntry (setEntry (setEntry (setEntry (fun _ => 0) 0x1000 0 0x2007) 0x2000 0 0x3007) 0x3000 0
    0x4005) 0x4000 0 0x5007

theorem readOnlyChain_disagrees : ¬ AgreesWithHardware readOnlyChain 0x1000 0 := by
  rintro ⟨-, h⟩
  have hall : AllPresent readOnlyChain 0x1000 0 := by
    unfold AllPresent
    decide
  have hreported : (virtualMemoryLookup readOnlyChain 0x1000 0).perm &&& PTE_W ≠ 0 := by decide
  have hthird := ((h hall).2 PTE_W (by decide)).1 hreported 2 (by decide)
  exact absurd hthird (by decide)

end MemoryManagement.Kernel
