import MemoryManagement.Kernel.MapLookup
import MemoryManagement.Kernel.Machine

/-!
# Well-formed address spaces

What the kernel relies on about the page table of a process (`TableOk`): its tables form a tree in
physical memory, every entry above the last level is writable and user-accessible, every page lies in
physical memory, and no page that the process may use is a page of the table itself.

On such a table the functions of `vm.c` pass their assertions for user addresses, and mapping or hiding
one page has the effect of `TableOk.map_page`: one entry of a last-level table is written, and the page
of that entry is the only one whose translation changes.
-/

set_option autoImplicit false

namespace MemoryManagement.Kernel

open MemoryManagement.Library.ByteMemory

/-! ## Page tables of processes -/

/-- The address has a translation. -/
def Mapped (m : Mem) (root va : Nat) : Prop := virtualMemoryLookup m root va ≠ Vamapping.unmapped

instance (m : Mem) (root va : Nat) : Decidable (Mapped m root va) := inferInstanceAs (Decidable (_ ≠ _))

/-- A page that the walks from `root` can reach. -/
def IsTable (m : Mem) (root t : Nat) : Prop := ∃ path, IndexPath path ∧ tableAt m root path = some t

/-- The part of an address space that belongs to the process. -/
def UserPart (va : Nat) : Prop := PROC_START_ADDR ≤ va ∧ va < MEMSIZE_VIRTUAL

/-- A present entry above the last level. -/
structure UpperEntry (pe : Nat) : Prop where
  writable : pe &&& PTE_W ≠ 0
  user : pe &&& PTE_U ≠ 0
  nonnull : pteAddr pe ≠ NULL
  physical : pteAddr pe < MEMSIZE_PHYSICAL

/-- The levels above the last one are in order. -/
structure WalkOk (m : Mem) (root : Nat) : Prop where
  aligned : root % PAGESIZE = 0
  tree : Tree m root
  upper : ∀ path i t, IndexPath (path ++ [i]) → tableAt m root path = some t →
    entry m t i &&& PTE_P ≠ 0 → UpperEntry (entry m t i)

/-- A page table that the kernel can work on. -/
structure TableOk (m : Mem) (root : Nat) : Prop extends WalkOk m root where
  physical : ∀ va, Mapped m root va → (virtualMemoryLookup m root va).pa < MEMSIZE_PHYSICAL
  -- a page that the process may use is none of the tables
  apart : ∀ va, Mapped m root va →
    UserPart va ∨ (virtualMemoryLookup m root va).perm &&& PTE_U ≠ 0 →
    ∀ t, IsTable m root t → ¬ InRange t PAGESIZE (virtualMemoryLookup m root va).pa

section Tables

variable {m : Mem} {root t : Nat}

theorem IsTable.aligned (hroot : root % 4096 = 0) (h : IsTable m root t) : t % 4096 = 0 := by
  obtain ⟨path, -, ht⟩ := h
  exact tableAt_aligned hroot ht

theorem mapped_iff {va : Nat} : Mapped m root va ↔ AllPresent m root va := by
  rw [Mapped, ne_eq, lookup_eq_unmapped_iff, not_not]

/-- The tables on the path of an address whose first three entries are present. -/
theorem tableAt_of_present {va : Nat} (h : ∀ i, i < 3 → pathEntry m root va i &&& PTE_P ≠ 0) :
    tableAt m root (indices va) = some (pteAddr (pathEntry m root va 2)) := by
  have h0 := h 0 (by decide)
  have h1 := h 1 (by decide)
  have h2 := h 2 (by decide)
  rw [pathEntry] at h0
  rw [pathEntry, pathEntry] at h1
  rw [pathEntry, pathEntry, pathEntry] at h2
  rw [indices, tableAt, if_pos h0, tableAt, if_pos h1, tableAt, if_pos h2]
  rfl

theorem Mapped.table {va : Nat} (h : Mapped m root va) : ∃ t, tableAt m root (indices va) = some t :=
  ⟨_, tableAt_of_present fun i hi => mapped_iff.1 h i (by omega)⟩

/-- Translations depend on the bytes of the tables only. -/
theorem lookup_congr {m' : Mem} (h : ∀ t x, IsTable m root t → InRange t PAGESIZE x → m' x = m x)
    (va : Nat) : virtualMemoryLookup m' root va = virtualMemoryLookup m root va := by
  rw [virtualMemoryLookup, virtualMemoryLookup, lookupLevels_congr]
  intro done i rest hsplit s hs
  apply entry_congr (pageindex_lt va i)
  intro x hx
  refine h s x ⟨_, ⟨?_, ?_⟩, hs⟩ hx
  · have hlen := congrArg List.length hsplit
    simp only [List.length_append, List.length_cons, List.length_nil] at hlen
    rw [List.length_map]
    omega
  · intro j hj
    obtain ⟨l, -, rfl⟩ := List.mem_map.1 hj
    exact pageindex_lt va l

/-- The entry that the walk of `virtual_memory_lookup` ends with. -/
def lastEntry (m : Mem) (root va : Nat) : Nat :=
  lookupLevels m va [0, 1, 2, 3] root (PTE_W ||| PTE_U ||| PTE_P)

theorem mapped_iff_lastEntry {va : Nat} : Mapped m root va ↔ lastEntry m root va &&& PTE_P ≠ 0 := by
  rw [mapped_iff]
  constructor
  · intro h
    rw [lastEntry, lookupLevels_of_allPresent h]
    exact foldedEntry_present.2 (h 3 (by decide))
  · intro h
    by_contra hnot
    exact lookupLevels_of_not_allPresent hnot h

theorem Mapped.lookup {va : Nat} (h : Mapped m root va) :
    virtualMemoryLookup m root va = ⟨pageNumber (lastEntry m root va),
      pteAddr (lastEntry m root va) + pageOffset va, pteFlags (lastEntry m root va)⟩ :=
  if_pos (mapped_iff_lastEntry.1 h)

theorem lastEntry_of_page48 {a va : Nat} (ha : page48 a = page48 va) :
    lastEntry m root a = lastEntry m root va := lookupLevels_of_page48 ha

theorem Mapped.of_page48 {a va : Nat} (ha : page48 a = page48 va) :
    Mapped m root a ↔ Mapped m root va := by
  rw [mapped_iff_lastEntry, mapped_iff_lastEntry, lastEntry_of_page48 ha]

theorem not_mapped {va : Nat} : ¬ Mapped m root va ↔ virtualMemoryLookup m root va = .unmapped := not_not

/-- Addresses of one page are translated to one physical page, with the same permissions. -/
theorem Mapped.same_page {a va : Nat} (h : Mapped m root va) (ha : page48 a = page48 va) :
    (virtualMemoryLookup m root a).pn = (virtualMemoryLookup m root va).pn ∧
    (virtualMemoryLookup m root a).pa / 4096 = (virtualMemoryLookup m root va).pa / 4096 ∧
    (virtualMemoryLookup m root a).pa % 4096 = a % 4096 ∧
    (virtualMemoryLookup m root a).perm = (virtualMemoryLookup m root va).perm := by
  have halign := pteAddr_mod (lastEntry m root va)
  rw [((Mapped.of_page48 ha).2 h).lookup, h.lookup, lastEntry_of_page48 ha]
  simp only [pageOffset_eq, true_and, and_true]
  omega

theorem pteFlags_and (pe k : Nat) (hk : k &&& 0xFFF = k) : pteFlags pe &&& k = pe &&& k := by
  rw [pteFlags, Nat.and_assoc, Nat.and_comm 0xFFF k, hk]

/-- A translation has the present flag, and only a translation has flags at all. -/
theorem mapped_iff_perm {va : Nat} :
    Mapped m root va ↔ (virtualMemoryLookup m root va).perm &&& PTE_P ≠ 0 := by
  by_cases h : Mapped m root va
  · rw [h.lookup]
    simp only [h, true_iff]
    rw [pteFlags_and _ _ rfl]
    exact mapped_iff_lastEntry.1 h
  · rw [not_mapped.1 h]
    simp [h, Vamapping.unmapped]

/-- What an entry of a last-level table says about the addresses of its page. -/
def translation (leaf va : Nat) : Vamapping :=
  if leaf &&& PTE_P ≠ 0 then ⟨pageNumber leaf, pteAddr leaf + pageOffset va, pteFlags leaf⟩
  else Vamapping.unmapped

namespace WalkOk

/-- The entries on a walk through a table are as `lookup_l4pagetable` wants them. -/
theorem l4Levels_eq (h : WalkOk m root) {va perm : Nat} {levels : List Nat} {path : List Nat} {pt : Nat}
    (hpt : tableAt m root path = some pt) (hpath : IndexPath path)
    (hlen : path.length + levels.length ≤ 3) :
    l4Levels m va perm levels pt = .ok ((tableAt m pt (levels.map (pageindex va))).getD NULL) := by
  induction levels generalizing path pt with
  | nil => rfl
  | cons i levels ih =>
      have hnext : IndexPath (path ++ [pageindex va i]) := by
        refine ⟨?_, fun j hj => ?_⟩
        · rw [List.length_append, List.length_singleton]
          rw [List.length_cons] at hlen
          omega
        · rcases List.mem_append.1 hj with hj | hj
          · exact hpath.2 j hj
          · rw [List.mem_singleton.1 hj]
            exact pageindex_lt va i
      rw [l4Levels, List.map_cons, tableAt]
      -- a missing level ends the walk with NULL
      by_cases hpresent : entry m pt (pageindex va i) &&& PTE_P = 0
      · rw [if_neg (not_not.2 hpresent)]
        simp only [if_pos hpresent]
        rfl
      · have hup := h.upper path _ pt hnext hpt hpresent
        have hpt' : tableAt m root (path ++ [pageindex va i]) =
            some (pteAddr (entry m pt (pageindex va i))) := by
          rw [tableAt_append, hpt, Option.bind_some, tableAt, if_pos hpresent]
          rfl
        rw [if_pos hpresent]
        simp only [if_neg hpresent]
        rw [assert_bind_of hup.physical]
        have key := ih hpt' hnext (by
          rw [List.length_append, List.length_singleton]
          rw [List.length_cons] at hlen
          omega)
        -- the assertions are made only for the permissions asked for, and upper levels have them all
        by_cases hw : perm &&& PTE_W ≠ 0 <;> by_cases hu : perm &&& PTE_U ≠ 0
        · rw [if_pos hw, if_pos hu, assert_bind_of hup.writable, assert_bind_of hup.user]
          exact key
        · rw [if_pos hw, if_neg hu, assert_bind_of hup.writable]
          exact key
        · rw [if_neg hw, if_pos hu, assert_bind_of hup.user]
          exact key
        · rw [if_neg hw, if_neg hu]
          exact key

theorem lookupL4pagetable_eq (h : WalkOk m root) (va perm : Nat) :
    lookupL4pagetable m root va perm = .ok ((tableAt m root (indices va)).getD NULL) :=
  h.l4Levels_eq rfl ⟨Nat.zero_le _, List.forall_mem_nil _⟩ (Nat.le_refl 3)

/-- One page given to `virtual_memory_map`: its entry is written when the tables above it exist. -/
theorem map_page (h : WalkOk m root) {va pa perm : Nat} (hva : va % 4096 = 0) (hlt : va < 2 ^ 48)
    (hperm : perm < 4096) (hpa : perm &&& PTE_P ≠ 0 → pa % 4096 = 0 ∧ pa + 4096 ≤ 0x200000) :
    virtualMemoryMap m root va pa PAGESIZE perm = .ok
      (match tableAt m root (indices va) with
      | some t => (Kernel.setEntry m t (pageindex va 3) (leafValue pa perm), 0)
      | none => (m, if perm &&& PTE_P ≠ 0 then -1 else 0)) := by
  have hroot : root % PAGESIZE = 0 := h.aligned
  have hwrap : va ≤ (va + PAGESIZE) % 2 ^ 64 := by
    simp only [PAGESIZE]
    omega
  -- the index of the first page is not the one that the loop starts with
  have hindex : toInt32 (va >>> 21) ≠ -1 := by
    have hsmall : va >>> 21 < 2 ^ 31 := by
      rw [Nat.shiftRight_eq_div_pow]
      omega
    rw [toInt32_of_lt hsmall]
    omega
  have hloop : mapPages root perm (PAGESIZE / PAGESIZE) m va pa (-1) NULL = .ok
      (match tableAt m root (indices va) with
      | some t => (Kernel.setEntry m t (pageindex va 3) (leafValue pa perm), 0)
      | none => (m, if perm &&& PTE_P ≠ 0 then -1 else 0)) := by
    rw [show PAGESIZE / PAGESIZE = 0 + 1 from rfl, mapPages]
    simp only [if_pos hindex, h.lookupL4pagetable_eq, bind, Except.bind]
    cases ht : tableAt m root (indices va) with
    | none =>
        simp only [Option.getD_none, ne_eq, not_true_eq_false, and_false, if_false, mapPages]
        split <;> rfl
    | some t =>
        have hnull : t ≠ NULL := by
          obtain ⟨hp0, ht0⟩ := tableAt_cons_eq_some ht
          obtain ⟨hp1, ht1⟩ := tableAt_cons_eq_some ht0
          obtain ⟨hp2, ht2⟩ := tableAt_cons_eq_some ht1
          have hprefix : tableAt m root [pageindex va 0, pageindex va 1] =
              some (pteAddr (entry m (pteAddr (entry m root (pageindex va 0))) (pageindex va 1))) := by
            rw [tableAt, if_pos hp0, tableAt, if_pos hp1]
            rfl
          have hup := h.upper _ _ _ (indexPath_indices va) hprefix hp2
          rw [← Option.some.inj ht2]
          exact hup.nonnull
        rw [Option.getD_some, leafValue]
        by_cases hp : perm &&& PTE_P ≠ 0
        · rw [if_pos ⟨hp, hnull⟩, if_pos hp, mapPages]
        · rw [if_neg fun e => hp e.1, if_pos hnull, if_neg hp, mapPages]
  rw [virtualMemoryMap, assert_bind_of (show va % PAGESIZE = 0 from hva),
    assert_bind_of (show PAGESIZE % PAGESIZE = 0 from rfl), assert_bind_of (Or.inl hwrap)]
  by_cases hp : perm &&& PTE_P ≠ 0
  · obtain ⟨hpa0, hpalt⟩ := hpa hp
    have hsum : (pa + PAGESIZE) % 2 ^ 64 = pa + PAGESIZE := by
      simp only [PAGESIZE]
      omega
    rw [if_pos hp, assert_bind_of (show pa % PAGESIZE = 0 from hpa0), hsum,
      assert_bind_of (Nat.le_add_right pa PAGESIZE),
      assert_bind_of (show pa + PAGESIZE ≤ MEMSIZE_PHYSICAL from hpalt),
      assert_bind_of (show perm < 0x1000 from hperm), assert_bind_of hroot]
    exact hloop
  · rw [if_neg hp]
    show (assert (perm < 0x1000) >>= fun _ => _) = _
    rw [assert_bind_of (show perm < 0x1000 from hperm), assert_bind_of hroot]
    exact hloop

section Leaf

variable {va : Nat} (h : WalkOk m root) (ht : tableAt m root (indices va) = some t)
include h ht

/-- The entries on the way to a table that exists are present, hence as they should be. -/
theorem grants (perm : Nat) : Grants m root va perm := by
  intro done i rest hsplit s hs k hk _
  have hpath : indices va = done.map (pageindex va) ++ pageindex va i :: rest.map (pageindex va) := by
    rw [← List.map_cons, ← List.map_append, ← hsplit]
    rfl
  have hwalk := ht
  rw [hpath, tableAt_append, hs, Option.bind_some] at hwalk
  obtain ⟨hpresent, -⟩ := tableAt_cons_eq_some hwalk
  have hprefix : IndexPath (done.map (pageindex va) ++ [pageindex va i]) := by
    have hidx := indexPath_indices va
    rw [hpath] at hidx
    constructor
    · have hlen := hidx.1
      simp only [List.length_append, List.length_cons, List.length_nil] at hlen ⊢
      omega
    · intro j hj
      apply hidx.2
      rcases List.mem_append.1 hj with hj | hj
      · exact List.mem_append_left _ hj
      · exact List.mem_append_right _ (List.mem_cons.2 (Or.inl (List.mem_singleton.1 hj)))
  have hup := h.upper _ _ _ hprefix hs hpresent
  rcases hk with rfl | rfl
  · exact (and_two_pow_ne_zero _ 1).1 hup.writable
  · exact (and_two_pow_ne_zero _ 2).1 hup.user

theorem tableAt_setLeaf {v : Nat} (hv : v < 2 ^ 64) {q : List Nat} (hq : IndexPath q) :
    tableAt (Kernel.setEntry m t (pageindex va 3) v) root q = tableAt m root q :=
  h.tree.tableAt_setEntry h.aligned (indexPath_indices va) rfl ht (pageindex_lt va 3) hv hq

theorem isTable_setLeaf {v : Nat} (hv : v < 2 ^ 64) {x : Nat} :
    IsTable (Kernel.setEntry m t (pageindex va 3) v) root x ↔ IsTable m root x := by
  constructor
  · rintro ⟨q, hq, hx⟩
    rw [h.tableAt_setLeaf ht hv hq] at hx
    exact ⟨q, hq, hx⟩
  · rintro ⟨q, hq, hx⟩
    rw [← h.tableAt_setLeaf ht hv hq] at hx
    exact ⟨q, hq, hx⟩

/-- The page that the entry belongs to is the only one whose translation changes. -/
theorem lookup_setLeaf {pa perm : Nat} (hperm : perm < 4096)
    (hpa : perm &&& PTE_P ≠ 0 → pa % 4096 = 0 ∧ pa + 4096 ≤ 0x200000) (a : Nat) :
    virtualMemoryLookup (Kernel.setEntry m t (pageindex va 3) (leafValue pa perm)) root a =
      if page48 a = page48 va then mappedTo pa perm 0 a else virtualMemoryLookup m root a := by
  split
  · rename_i ha
    exact h.tree.lookup_leafValue h.aligned ht (h.grants ht perm) hperm hpa ha
  · rename_i ha
    exact h.tree.lookup_setEntry_other h.aligned ht (leafValue_lt hperm hpa) ha

/-- Entries above the last level are not the one that is written. -/
theorem entry_setLeaf {v : Nat} (hv : v < 2 ^ 64) {path : List Nat} {i s : Nat}
    (hpath : IndexPath (path ++ [i])) (hs : tableAt m root path = some s) :
    entry (Kernel.setEntry m t (pageindex va 3) v) s i = entry m s i := by
  have hi : i < 512 := hpath.2 i (by simp)
  have hlen := hpath.1
  rw [List.length_append, List.length_singleton] at hlen
  rw [entry_setEntry (tableAt_aligned h.aligned ht) (tableAt_aligned h.aligned hs) hi
    (pageindex_lt va 3) hv, if_neg]
  rintro ⟨rfl, -⟩
  have hprefix : IndexPath path :=
    ⟨by omega, fun j hj => hpath.2 j (List.mem_append_left _ hj)⟩
  have hsame := congrArg List.length (h.tree _ _ _ hprefix (indexPath_indices va) hs ht)
  simp only [indices, List.length_cons, List.length_nil] at hsame
  omega

/-- A write to a last-level table leaves the levels above in order. -/
theorem setLeaf {v : Nat} (hv : v < 2 ^ 64) : WalkOk (Kernel.setEntry m t (pageindex va 3) v) root := by
  constructor
  · exact h.aligned
  · exact h.tree.setEntry h.aligned (indexPath_indices va) rfl ht (pageindex_lt va 3) hv
  · intro path i s hpath hs hpresent
    have hprefix : IndexPath path := by
      have hlen := hpath.1
      rw [List.length_append] at hlen
      exact ⟨by omega, fun j hj => hpath.2 j (List.mem_append_left _ hj)⟩
    rw [h.tableAt_setLeaf ht hv hprefix] at hs
    rw [h.entry_setLeaf ht hv hpath hs] at hpresent ⊢
    exact h.upper path i s hpath hs hpresent

end Leaf

/-- On such a table the lookup is the translation that the entry of the page gives. -/
theorem lookup_eq (h : WalkOk m root) (va : Nat) :
    virtualMemoryLookup m root va =
      match tableAt m root (indices va) with
      | some t => translation (entry m t (pageindex va 3)) va
      | none => Vamapping.unmapped := by
  cases ht : tableAt m root (indices va) with
  | none =>
      rw [← not_mapped]
      intro hm
      obtain ⟨t, ht'⟩ := hm.table
      rw [ht] at ht'
      cases ht'
  | some t =>
      have hlast : lastEntry m root va = entry m t (pageindex va 3) :=
        lookupLevels_granted ht (h.grants ht _) rfl fun _ _ => rfl
      show _ = translation (entry m t (pageindex va 3)) va
      rw [translation, ← hlast]
      rfl

end WalkOk

namespace TableOk

/-- The physical page number of a translation. -/
theorem pn_eq (h : TableOk m root) {va : Nat} (hm : Mapped m root va) :
    (virtualMemoryLookup m root va).pn = ((virtualMemoryLookup m root va).pa / 4096 : Nat) := by
  have hphys := h.physical va hm
  have hlt : lastEntry m root va < 2 ^ 64 := by
    rw [lastEntry, lookupLevels_of_allPresent (mapped_iff.1 hm), foldedEntry]
    exact Nat.and_lt_two_pow _ (by simp only [not64]; omega)
  rw [hm.lookup] at hphys ⊢
  simp only [pteAddr_eq hlt, pageOffset_eq] at hphys ⊢
  have hshift : lastEntry m root va >>> 12 = lastEntry m root va / 4096 := by
    rw [Nat.shiftRight_eq_div_pow]
  have hsmall : lastEntry m root va / 4096 < 2 ^ 31 := by
    simp only [MEMSIZE_PHYSICAL] at hphys
    omega
  rw [pageNumber, hshift, toInt32_of_lt hsmall]
  omega

/-- The test of `sbrk` and `process_free` whether a page is mapped. -/
theorem pn_ne_iff (h : TableOk m root) {va : Nat} :
    (virtualMemoryLookup m root va).pn ≠ -1 ↔ Mapped m root va := by
  constructor
  · intro hpn hnone
    exact hpn (congrArg Vamapping.pn hnone)
  · intro hm
    rw [h.pn_eq hm]
    omega

section Leaf

variable {va : Nat} (h : TableOk m root) (ht : tableAt m root (indices va) = some t)
include h ht

/-- A page table stays well formed when an entry of a last-level table is written, unless a table is
made accessible. -/
theorem setLeaf {pa perm : Nat} (hperm : perm < 4096)
    (hpa : perm &&& PTE_P ≠ 0 → pa % 4096 = 0 ∧ pa + 4096 ≤ 0x200000)
    (hframe : perm &&& PTE_P ≠ 0 → ¬ IsTable m root pa) :
    TableOk (Kernel.setEntry m t (pageindex va 3) (leafValue pa perm)) root := by
  have hv := leafValue_lt hperm hpa
  have hlookup := h.lookup_setLeaf ht hperm hpa
  -- an address that is mapped afterwards is on the new page or was mapped before
  have hmapped : ∀ a, Mapped (Kernel.setEntry m t (pageindex va 3) (leafValue pa perm)) root a →
      (perm &&& PTE_P ≠ 0 ∧ virtualMemoryLookup (Kernel.setEntry m t (pageindex va 3)
        (leafValue pa perm)) root a = ⟨(pa / 4096 + 0 : Nat), pa + 4096 * 0 + a % 4096, perm⟩) ∨
      (Mapped m root a ∧ virtualMemoryLookup (Kernel.setEntry m t (pageindex va 3)
        (leafValue pa perm)) root a = virtualMemoryLookup m root a) := by
    intro a ha
    rw [Mapped, hlookup a] at ha
    rw [hlookup a]
    by_cases hpage : page48 a = page48 va
    · rw [if_pos hpage, mappedTo] at ha
      rw [if_pos hpage, mappedTo]
      by_cases hp : perm &&& PTE_P ≠ 0
      · rw [if_pos hp]
        exact Or.inl ⟨hp, rfl⟩
      · rw [if_neg hp] at ha
        exact absurd rfl ha
    · rw [if_neg hpage] at ha ⊢
      exact Or.inr ⟨ha, rfl⟩
  constructor
  · exact h.toWalkOk.setLeaf ht hv
  · intro a ha
    rcases hmapped a ha with ⟨hp, hnew⟩ | ⟨hold, hsame⟩
    · have := hpa hp
      rw [hnew]
      simp only [MEMSIZE_PHYSICAL]
      omega
    · rw [hsame]
      exact h.physical a hold
  · intro a ha huser s hs
    rw [h.isTable_setLeaf ht hv] at hs
    rcases hmapped a ha with ⟨hp, hnew⟩ | ⟨hold, hsame⟩
    · -- two pages that meet are the same
      have hs0 := hs.aligned h.aligned
      have hne : pa ≠ s := by
        rintro rfl
        exact hframe hp hs
      rw [hnew]
      simp only [InRange, PAGESIZE]
      omega
    · rw [hsame] at huser ⊢
      exact h.apart a hold huser s hs

end Leaf

/-- Only bytes of tables are written. -/
theorem setLeaf_byte {va v x : Nat} (ht : tableAt m root (indices va) = some t) (hx : ∀ s, IsTable m root s → ¬ InRange s PAGESIZE x) :
    Kernel.setEntry m t (pageindex va 3) v x = m x :=
  setEntry_of_not_inRange (pageindex_lt va 3) (hx t ⟨_, indexPath_indices va, ht⟩)


end TableOk

end Tables

end MemoryManagement.Kernel
