import MemoryManagement.Kernel.Boot
import MemoryManagement.Kernel.Break
import MemoryManagement.Kernel.ProcessTables

/-!
# Address spaces

The address space of a process as `process_setup` and `process_fork` build it (`Space`): five linked
pages, the kernel's memory below `PROC_START_ADDR`, pages of ordinary memory in the user part, each
mapped once, and nothing above. `KernelSpace` is the kernel's own address space. Both depend on the
bytes of their table pages only, and mapping pages has a closed effect on them (`Linked.map_pages`).
-/

set_option autoImplicit false

namespace MemoryManagement.Kernel

open MemoryManagement.Library.ByteMemory

/-! ## Linked pages -/

section Linked

variable {m m' : Mem} {T : Tables}

theorem Linked.congr (h : Linked m T)
    (hbytes : ∀ t ∈ [T.l1, T.l2, T.l3], ∀ x, InRange t 4096 x → m' x = m x) : Linked m' T := by
  have hentry : ∀ t ∈ [T.l1, T.l2, T.l3], ∀ i, i < 512 → entry m' t i = entry m t i :=
    fun t ht i hi => entry_congr hi (hbytes t ht)
  constructor
  · intro i hi
    rw [hentry T.l1 (by simp) i hi]
    exact h.first i hi
  · intro i hi
    rw [hentry T.l2 (by simp) i hi]
    exact h.second i hi
  · intro i hi
    rw [hentry T.l3 (by simp) i hi]
    exact h.third i hi

theorem Tables.upper_subset (T : Tables) : ∀ t ∈ [T.l1, T.l2, T.l3], t ∈ T.pages := by
  intro t ht
  simp only [Tables.pages, List.mem_cons, List.not_mem_nil, or_false] at ht ⊢
  omega

/-- A last-level table is one of the last two pages. -/
theorem Tables.leafTable_mem {page t : Nat} (h : T.leafTable page = some t) : t = T.l4a ∨ t = T.l4b := by
  rw [Tables.leafTable] at h
  split at h
  · exact Or.inl (Option.some.inj h).symm
  · split at h
    · exact Or.inr (Option.some.inj h).symm
    · cases h

theorem Tables.leafTable_pages {page t : Nat} (h : T.leafTable page = some t) : t ∈ T.pages := by
  rcases Tables.leafTable_mem h with rfl | rfl
  · simp
  · simp

theorem Tables.leafTable_of_lt {page : Nat} (h : page < 1024) : ∃ t, T.leafTable page = some t := by
  rw [Tables.leafTable, if_pos h]
  split
  · exact ⟨_, rfl⟩
  · exact ⟨_, rfl⟩

theorem Tables.leafTable_congr {i j : Nat} (h : i / 512 = j / 512) : T.leafTable i = T.leafTable j := by
  have hlow : i < 512 ↔ j < 512 := by omega
  have hhigh : i < 1024 ↔ j < 1024 := by omega
  simp only [Tables.leafTable, hlow, hhigh]

/-- An entry of a last-level table is no link. -/
theorem Linked.setLeaf (h : Linked m T) (hT : T.Ok) {page t i v : Nat} (ht : T.leafTable page = some t)
    (hi : i < 512) : Linked (setEntry m t i v) T := by
  apply h.congr
  intro s hs x hx
  apply setEntry_of_not_inRange hi
  have hne : s ≠ t := by
    have hnodup := hT.nodup
    simp only [Tables.pages, List.nodup_cons, List.mem_cons, List.not_mem_nil, or_false, not_or] at hnodup
    simp only [List.mem_cons, List.not_mem_nil, or_false] at hs
    rcases Tables.leafTable_mem ht with rfl | rfl
    · omega
    · omega
  have hs0 := hT.aligned s (T.upper_subset s hs)
  have ht0 := hT.aligned t (Tables.leafTable_pages ht)
  omega

/-- Translations depend on the five pages only. -/
theorem Linked.lookup_congr (h : Linked m T) (hT : T.Ok)
    (hbytes : ∀ t ∈ T.pages, ∀ x, InRange t 4096 x → m' x = m x) (va : Nat) :
    virtualMemoryLookup m' T.l1 va = virtualMemoryLookup m T.l1 va := by
  apply Kernel.lookup_congr
  intro t x ht hx
  exact hbytes t ((h.isTable_iff hT).1 ht) x hx

/-- The pages that `process_free` finds are the five pages. -/
theorem Linked.tablePages_eq (h : Linked m T) (hT : T.Ok) : tablePages m T.l1 = T.pages := by
  have hlink : ∀ t ∈ T.pages, pteAddr (t ||| 7) = t :=
    fun t ht => pteAddr_link (hT.aligned t ht) (hT.physical t ht)
  have h1 : pteAddr (entry m T.l1 0) = T.l2 := by
    rw [h.first 0 (by decide)]
    exact hlink _ (by simp)
  have h2 : pteAddr (entry m T.l2 0) = T.l3 := by
    rw [h.second 0 (by decide)]
    exact hlink _ (by simp)
  have h3 : pteAddr (entry m T.l3 0) = T.l4a := by
    rw [h.third 0 (by decide)]
    exact hlink _ (by simp)
  have h4 : pteAddr (entry m T.l3 1) = T.l4b := by
    rw [h.third 1 (by decide)]
    exact hlink _ (by simp)
  simp only [tablePages, h1, h2, h3, h4, Tables.pages]

/-- The last-level table that `virtual_memory_map` finds. -/
theorem Linked.lookupL4pagetable_eq (h : Linked m T) (hT : T.Ok) (va perm : Nat) :
    lookupL4pagetable m T.l1 va perm = .ok ((T.leafTable (page48 va)).getD NULL) := by
  rw [(h.walkOk hT).lookupL4pagetable_eq, h.tableAt_indices hT]

/-- What mapping the pages from `i` to `i + n` to physical memory from `pa` does. -/
structure MapsPages (m m' : Mem) (T : Tables) (i pa perm n : Nat) : Prop where
  linked : Linked m' T
  lookup : ∀ a, virtualMemoryLookup m' T.l1 a =
    if i ≤ page48 a ∧ page48 a < i + n then mappedTo pa perm (page48 a - i) a
    else virtualMemoryLookup m T.l1 a
  bytes : ∀ x, ¬ InRange T.l4a PAGESIZE x → ¬ InRange T.l4b PAGESIZE x → m' x = m x

/-- The loop of `virtual_memory_map` on the five-page table of a process. -/
theorem Linked.mapPages_eq (h : Linked m T) (hT : T.Ok) {i perm n : Nat} (pa l4 : Nat) (last : Int)
    (hpages : i + n ≤ 1024) (hperm : perm < 4096) (hpresent : perm &&& PTE_P ≠ 0)
    (hpa : pa % 4096 = 0) (hlt : pa + 4096 * n ≤ 0x200000)
    (hlast : last = (i / 512 : Nat) → l4 = (T.leafTable i).getD NULL) :
    ∃ m', mapPages T.l1 perm n m (4096 * i) pa last l4 = .ok (m', 0) ∧ MapsPages m m' T i pa perm n := by
  induction n generalizing m i pa last l4 with
  | zero =>
      refine ⟨m, rfl, h, fun a => ?_, fun _ _ _ => rfl⟩
      rw [if_neg (by omega)]
  | succ n ih =>
      obtain ⟨t, ht⟩ := Tables.leafTable_of_lt (T := T) (by omega : i < 1024)
      have hlt' : pa + 4096 + 4096 * n ≤ 0x200000 := by
        rw [Nat.mul_succ, ← Nat.add_assoc, Nat.add_right_comm] at hlt
        exact hlt
      have hframe : perm &&& PTE_P ≠ 0 → pa % 4096 = 0 ∧ pa + 4096 ≤ 0x200000 :=
        fun _ => ⟨hpa, Nat.le_trans (Nat.le_add_right _ _) hlt'⟩
      have hpage : page48 (4096 * i) = i := by
        rw [page48]
        omega
      have hcur : toInt32 ((4096 * i) >>> 21) = (i / 512 : Nat) := by
        rw [Nat.shiftRight_eq_div_pow, toInt32_of_lt (by omega)]
        congr 1
        omega
      have htable : tableAt m T.l1 (indices (4096 * i)) = some t := by
        rw [h.tableAt_indices hT, hpage, ht]
      have hnull : t ≠ NULL := hT.nonnull t (Tables.leafTable_pages ht)
      have hlookup : lookupL4pagetable m T.l1 (4096 * i) perm = .ok t := by
        rw [h.lookupL4pagetable_eq hT, hpage, ht]
        rfl
      have hfirst := (h.walkOk hT).lookup_setLeaf htable hperm hframe
      have hleaf : leafValue pa perm = pa ||| perm := if_pos hpresent
      rw [hleaf, hpage] at hfirst
      have hva : (4096 * i + PAGESIZE) % 2 ^ 64 = 4096 * (i + 1) := by
        simp only [PAGESIZE]
        omega
      have hpa' : (pa + PAGESIZE) % 2 ^ 64 = pa + 4096 := by
        simp only [PAGESIZE]
        omega
      obtain ⟨m', hcode, hmaps⟩ := ih
        (h.setLeaf hT ht (pageindex_lt (4096 * i) 3) (v := pa ||| perm))
        (i := i + 1) (pa + 4096) t (i / 512 : Nat) (by omega) (by omega) (by omega) (by
          intro hdiv
          have hnext : T.leafTable (i + 1) = some t := by
            rw [← ht]
            exact Tables.leafTable_congr (by exact_mod_cast hdiv.symm)
          rw [hnext, Option.getD_some])
      refine ⟨m', ?_, hmaps.linked, fun a => ?_, fun x hxa hxb => ?_⟩
      · rw [mapPages]
        have hcond : perm &&& PTE_P ≠ 0 ∧ t ≠ NULL := ⟨hpresent, hnull⟩
        simp only [hcur, hva, hpa', bind, Except.bind]
        -- the table is looked up, or it is the one of the round before
        by_cases hsame : last = (i / 512 : Nat)
        · have hl4 : l4 = t := by
            rw [hlast hsame, ht]
            rfl
          rw [if_neg (not_not.2 hsame.symm), hl4, if_pos hcond]
          exact hcode
        · rw [if_pos (Ne.symm hsame), hlookup]
          simp only [if_pos hcond]
          exact hcode
      · rw [hmaps.lookup, hfirst]
        by_cases hlater : i + 1 ≤ page48 a ∧ page48 a < i + 1 + n
        · have hj : page48 a - (i + 1) + 1 = page48 a - i := by omega
          have hin : i ≤ page48 a ∧ page48 a < i + (n + 1) := by omega
          rw [if_pos hlater, if_pos hin, mappedTo_succ pa, hj]
        · rw [if_neg hlater]
          by_cases hself : page48 a = i
          · rw [if_pos hself, if_pos (by omega), hself, Nat.sub_self]
          · rw [if_neg hself, if_neg (by omega)]
      · rw [hmaps.bytes x hxa hxb]
        apply setEntry_of_not_inRange (pageindex_lt _ 3)
        rcases Tables.leafTable_mem ht with rfl | rfl
        · exact hxa
        · exact hxb

/-- `virtual_memory_map` of present pages succeeds on the five-page table of a process. -/
theorem Linked.map_pages (h : Linked m T) (hT : T.Ok) {i pa perm n : Nat} (hpages : i + n ≤ 1024)
    (hperm : perm < 4096) (hpresent : perm &&& PTE_P ≠ 0) (hpa : pa % 4096 = 0)
    (hlt : pa + 4096 * n ≤ 0x200000) :
    ∃ m', virtualMemoryMap m T.l1 (4096 * i) pa (4096 * n) perm = .ok (m', 0) ∧
      MapsPages m m' T i pa perm n := by
  obtain ⟨m', hcode, hmaps⟩ := h.mapPages_eq hT pa NULL (-1) hpages hperm hpresent hpa hlt (by omega)
  refine ⟨m', ?_, hmaps⟩
  have hroot : T.l1 % PAGESIZE = 0 := hT.aligned T.l1 (by simp)
  have hva : 4096 * i ≤ (4096 * i + 4096 * n) % 2 ^ 64 := by omega
  have hsum : (pa + 4096 * n) % 2 ^ 64 = pa + 4096 * n := by omega
  rw [virtualMemoryMap, assert_bind_of (by simp only [PAGESIZE]; omega : 4096 * i % PAGESIZE = 0),
    assert_bind_of (by simp only [PAGESIZE]; omega : 4096 * n % PAGESIZE = 0),
    assert_bind_of (Or.inl hva), if_pos hpresent]
  rw [assert_bind_of (show pa % PAGESIZE = 0 from hpa), hsum,
    assert_bind_of (Nat.le_add_right pa (4096 * n)),
    assert_bind_of (show pa + 4096 * n ≤ MEMSIZE_PHYSICAL from hlt),
    assert_bind_of (show perm < 0x1000 from hperm), assert_bind_of hroot]
  rw [show 4096 * n / PAGESIZE = n from Nat.mul_div_cancel_left n (by decide)]
  exact hcode

end Linked

/-! ## Ordinary pages -/

/-- A page of physical memory that `palloc` can give out. -/
def Ordinary (pn : Nat) : Prop := pn < 512 ∧ initialOwner (pn * PAGESIZE) = PO_FREE

instance (pn : Nat) : Decidable (Ordinary pn) := inferInstanceAs (Decidable (_ ∧ _))

theorem ordinary_iff {pn : Nat} :
    Ordinary pn ↔ pn < 512 ∧ pn ≠ 0 ∧ ¬ (0xA0 ≤ pn ∧ pn < 0x100) ∧ ¬ (0x40 ≤ pn ∧ pn < 0x59) ∧
      pn ≠ 0x7F := by
  have hfree : initialOwner (pn * PAGESIZE) = PO_FREE ↔ ¬ PhysicalMemoryIsReserved (pn * PAGESIZE) ∧
      ¬ ((KERNEL_START_ADDR ≤ pn * PAGESIZE ∧ pn * PAGESIZE < kernelEnd) ∨
        pn * PAGESIZE = KERNEL_STACK_TOP - PAGESIZE) := by
    rw [initialOwner]
    split
    · rename_i h
      simp [h]
    · rename_i h
      split
      · rename_i h'
        simp [h']
      · rename_i h'
        simp [h, h']
  rw [Ordinary, hfree]
  simp only [PhysicalMemoryIsReserved, PAGESIZE, IOPHYSMEM, EXTPHYSMEM, KERNEL_START_ADDR, kernelEnd,
    KERNEL_STACK_TOP]
  omega

/-- The pages below the kernel are ordinary, but for page 0. -/
theorem ordinary_of_lt {pn : Nat} (hpos : 0 < pn) (hlt : pn < 0x40) : Ordinary pn := by
  rw [ordinary_iff]
  omega

theorem Ordinary.lt {pn : Nat} (h : Ordinary pn) : pn < 512 := h.1

theorem Ordinary.pos {pn : Nat} (h : Ordinary pn) : 0 < pn := by
  have := ordinary_iff.1 h
  omega

theorem Ordinary.page_ne_null {pn : Nat} (h : Ordinary pn) : PAGESIZE * pn ≠ NULL := by
  have := h.pos
  simp only [PAGESIZE, NULL]
  omega

/-! ## Address spaces of processes -/

/-- A mapping of the user part: to an ordinary page, for the user to read and perhaps to write. -/
def UserMapping (map : Vamapping) (va : Nat) : Prop :=
  ∃ pn perm, Ordinary pn ∧ (perm = 7 ∨ perm = 5) ∧
    map = ⟨(pn : Nat), PAGESIZE * pn + va % PAGESIZE, perm⟩

/-- The mapping of an address of the kernel's memory: the user can reach the console only. -/
def lowMapping (va : Nat) : Vamapping :=
  ⟨(va / PAGESIZE : Nat), va, if va / PAGESIZE = CONSOLE_ADDR / PAGESIZE then 7 else 3⟩

theorem lowMapping_console {va : Nat} (h : va / PAGESIZE = CONSOLE_ADDR / PAGESIZE) :
    lowMapping va = ⟨(va / PAGESIZE : Nat), va, 7⟩ := by
  rw [lowMapping, if_pos h]

theorem lowMapping_other {va : Nat} (h : va / PAGESIZE ≠ CONSOLE_ADDR / PAGESIZE) :
    lowMapping va = ⟨(va / PAGESIZE : Nat), va, 3⟩ := by
  rw [lowMapping, if_neg h]

/-- An address space as `process_setup` and `process_fork` build it. -/
structure Space (m : Mem) (T : Tables) : Prop where
  tables : T.Ok
  linked : Linked m T
  ordinary : ∀ t ∈ T.pages, Ordinary (t / PAGESIZE)
  low : ∀ va, va < PROC_START_ADDR → virtualMemoryLookup m T.l1 va = lowMapping va
  user : ∀ va, UserPart va → Mapped m T.l1 va → UserMapping (virtualMemoryLookup m T.l1 va) va
  high : ∀ va, MEMSIZE_VIRTUAL ≤ va → va < 2 ^ 48 → ¬ Mapped m T.l1 va
  -- no page of the user part is mapped twice
  once : ∀ va va', UserPart va → UserPart va' → Mapped m T.l1 va → Mapped m T.l1 va' →
    (virtualMemoryLookup m T.l1 va).pn = (virtualMemoryLookup m T.l1 va').pn → page48 va = page48 va'

/-- What a process uses of the physical page `pn`: mappings of the user part, and the page as a page of
its page table. -/
def uses (m : Mem) (T : Tables) (pn : Nat) : Nat :=
  references m T.l1 userPages pn + if PAGESIZE * pn ∈ T.pages then 1 else 0

/-- The pages of the kernel's page table. -/
def kernelTables : Tables := ⟨0x53000, 0x54000, 0x55000, 0x56000, 0x57000⟩

theorem kernelTables_ok : kernelTables.Ok := by
  constructor <;> decide

/-- The address space of the kernel: physical memory, identity mapped. -/
structure KernelSpace (m : Mem) : Prop where
  linked : Linked m kernelTables
  identity : ∀ va, va < MEMSIZE_PHYSICAL →
    virtualMemoryLookup m kernelPagetable va = ⟨(va / PAGESIZE : Nat), va, 7⟩

section Space

variable {m m' : Mem} {T : Tables}

theorem KernelSpace.congr (h : KernelSpace m)
    (hbytes : ∀ t ∈ kernelTables.pages, ∀ x, InRange t 4096 x → m' x = m x) : KernelSpace m' := by
  constructor
  · exact h.linked.congr fun t ht => hbytes t (kernelTables.upper_subset t ht)
  · intro va hva
    have hsame := h.linked.lookup_congr kernelTables_ok hbytes va
    exact hsame.trans (h.identity va hva)

namespace Space

/-- An address space depends on the bytes of its page table only. -/
theorem congr (h : Space m T) (hbytes : ∀ t ∈ T.pages, ∀ x, InRange t 4096 x → m' x = m x) :
    Space m' T := by
  have hlookup := h.linked.lookup_congr h.tables hbytes
  have hmapped : ∀ va, Mapped m' T.l1 va ↔ Mapped m T.l1 va := by
    intro va
    rw [Mapped, Mapped, hlookup]
  constructor
  · exact h.tables
  · exact h.linked.congr fun t ht => hbytes t (T.upper_subset t ht)
  · exact h.ordinary
  · intro va hva
    rw [hlookup]
    exact h.low va hva
  · intro va hva hm
    rw [hlookup]
    exact h.user va hva ((hmapped va).1 hm)
  · intro va hva hlt hm
    exact h.high va hva hlt ((hmapped va).1 hm)
  · intro va va' hva hva' hm hm' hpn
    rw [hlookup, hlookup] at hpn
    exact h.once va va' hva hva' ((hmapped va).1 hm) ((hmapped va').1 hm') hpn

theorem uses_congr (h : Space m T) (hbytes : ∀ t ∈ T.pages, ∀ x, InRange t 4096 x → m' x = m x)
    (pn : Nat) : uses m' T pn = uses m T pn := by
  rw [uses, uses, references_congr fun va _ => h.linked.lookup_congr h.tables hbytes va]

end Space

end Space

/-! ## Mappings of the user part -/

theorem mem_userPages {va : Nat} : va ∈ userPages ↔ va % 4096 = 0 ∧ UserPart va := by
  simp only [userPages, List.mem_map, List.mem_range, UserPart, PROC_START_ADDR, MEMSIZE_VIRTUAL,
    PAGESIZE]
  constructor
  · rintro ⟨i, hi, rfl⟩
    omega
  · rintro ⟨h0, h1, h2⟩
    exact ⟨(va - 0x100000) / 4096, by omega, by omega⟩

theorem nodup_userPages : userPages.Nodup := by
  apply List.nodup_range.map
  intro i j hij
  simp only [PAGESIZE] at hij
  omega

/-- The page of an address of the user part. -/
theorem UserPart.page {va : Nat} (h : UserPart va) :
    4096 * page48 va ∈ userPages ∧ page48 (4096 * page48 va) = page48 va := by
  simp only [UserPart, PROC_START_ADDR, MEMSIZE_VIRTUAL] at h
  rw [mem_userPages]
  simp only [UserPart, PROC_START_ADDR, MEMSIZE_VIRTUAL, page48]
  omega

theorem UserPart.page48_eq {va : Nat} (h : UserPart va) : page48 va = va / 4096 := by
  simp only [UserPart, MEMSIZE_VIRTUAL] at h
  rw [page48]
  omega

theorem page48_userPages {va : Nat} (hva : va ∈ userPages) :
    PAGESIZE * page48 va = va ∧ 256 ≤ page48 va ∧ page48 va < 768 := by
  obtain ⟨h0, huser⟩ := mem_userPages.1 hva
  rw [huser.page48_eq]
  simp only [UserPart, PROC_START_ADDR, MEMSIZE_VIRTUAL, PAGESIZE] at huser ⊢
  omega

theorem page48_inj {va w : Nat} (hva : va ∈ userPages) (hw : w ∈ userPages) (h : page48 w = page48 va) :
    w = va := by
  rw [← (page48_userPages hva).1, ← (page48_userPages hw).1, h]

/-- One element more satisfies the predicate. -/
theorem countP_add_one {α : Type} {l : List α} (hl : l.Nodup) {a : α} (ha : a ∈ l) {p q : α → Bool}
    (hp : p a = false) (hq : q a = true) (hother : ∀ x ∈ l, x ≠ a → q x = p x) :
    l.countP q = l.countP p + 1 := by
  induction l with
  | nil => cases ha
  | cons b l ih =>
      obtain ⟨hb, hl'⟩ := List.nodup_cons.1 hl
      rw [List.countP_cons, List.countP_cons]
      rcases List.mem_cons.1 ha with rfl | ha'
      · have hsame : l.countP q = l.countP p := by
          apply List.countP_congr
          intro x hx
          have hne : x ≠ a := fun e => hb (e ▸ hx)
          rw [hother x (List.mem_cons_of_mem _ hx) hne]
        rw [hsame, if_pos hq, if_neg (by rw [hp]; decide)]
      · have hne : b ≠ a := fun e => hb (e ▸ ha')
        have hrest := ih hl' ha' fun x hx => hother x (List.mem_cons_of_mem _ hx)
        rw [hrest, hother b (List.mem_cons_self ..) hne]
        omega

section References

variable {m m' : Mem} {T : Tables}

theorem references_pos {root pn : Nat} :
    0 < references m root userPages pn ↔
      ∃ va, UserPart va ∧ Mapped m root va ∧ (virtualMemoryLookup m root va).pn.toNat = pn := by
  rw [references, List.countP_pos_iff]
  simp only [decide_eq_true_iff]
  constructor
  · rintro ⟨va, hva, hm, hpn⟩
    exact ⟨va, (mem_userPages.1 hva).2, hm, hpn⟩
  · rintro ⟨va, hva, hm, hpn⟩
    obtain ⟨hmem, hpage⟩ := hva.page
    refine ⟨_, hmem, (Mapped.of_page48 hpage).2 hm, ?_⟩
    rw [(hm.same_page hpage).1]
    exact hpn

theorem references_eq_zero {root pn : Nat} :
    references m root userPages pn = 0 ↔
      ∀ va, UserPart va → Mapped m root va → (virtualMemoryLookup m root va).pn.toNat ≠ pn := by
  constructor
  · intro h va hva hm hpn
    exact Nat.ne_of_gt (references_pos.2 ⟨va, hva, hm, hpn⟩) h
  · intro h
    by_contra hne
    obtain ⟨va, hva, hm, hpn⟩ := references_pos.1 (Nat.pos_of_ne_zero hne)
    exact h va hva hm hpn

/-- Only whether and where an address is mapped counts, not its permissions. -/
theorem references_congr_pn {root : Nat} (hmapped : ∀ va, UserPart va → (Mapped m' root va ↔ Mapped m root va))
    (hpn : ∀ va, UserPart va → Mapped m root va →
      (virtualMemoryLookup m' root va).pn = (virtualMemoryLookup m root va).pn) (pn : Nat) :
    references m' root userPages pn = references m root userPages pn := by
  apply List.countP_congr
  intro va hva
  have huser := (mem_userPages.1 hva).2
  rw [decide_eq_true_iff, decide_eq_true_iff, hmapped va huser]
  constructor
  · rintro ⟨hm, h⟩
    exact ⟨hm, by rw [← hpn va huser hm]; exact h⟩
  · rintro ⟨hm, h⟩
    exact ⟨hm, by rw [hpn va huser hm]; exact h⟩

theorem UserMapping.pn {map : Vamapping} {va : Nat} (h : UserMapping map va) :
    Ordinary map.pn.toNat ∧ map.pn = (map.pn.toNat : Nat) ∧ map.pa = PAGESIZE * map.pn.toNat + va % PAGESIZE := by
  obtain ⟨pn, perm, hpn, -, rfl⟩ := h
  exact ⟨hpn, rfl, rfl⟩

namespace Space

/-- A present page of the user part is read-only or writable. -/
theorem page_cases (h : Space m T) {va : Nat} (hva : va ∈ userPages)
    (hm : Mapped m T.l1 va) : ∃ pn perm, Ordinary pn ∧ (perm = 7 ∨ perm = 5) ∧
      virtualMemoryLookup m T.l1 va = ⟨(pn : Nat), PAGESIZE * pn, perm⟩ := by
  obtain ⟨h0, huser⟩ := mem_userPages.1 hva
  obtain ⟨pn, perm, hord, hperm, hmap⟩ := h.user va huser hm
  refine ⟨pn, perm, hord, hperm, ?_⟩
  rw [hmap]
  simp only [PAGESIZE, h0, Nat.add_zero]

/-- Mapped pages of the user part are ordinary ones. -/
theorem ordinary_of_references (h : Space m T) {pn : Nat} (hpos : 0 < references m T.l1 userPages pn) :
    Ordinary pn := by
  obtain ⟨va, hva, hm, rfl⟩ := references_pos.1 hpos
  exact (h.user va hva hm).pn.1

/-- No two pages of the user part are mapped to one physical page. -/
theorem page_inj (h : Space m T) {a b : Nat} (ha : a ∈ userPages) (hb : b ∈ userPages)
    (hma : Mapped m T.l1 a) (hmb : Mapped m T.l1 b)
    (hpn : (virtualMemoryLookup m T.l1 a).pn.toNat = (virtualMemoryLookup m T.l1 b).pn.toNat) : a = b := by
  have hauser := (mem_userPages.1 ha).2
  have hbuser := (mem_userPages.1 hb).2
  have hsame : (virtualMemoryLookup m T.l1 a).pn = (virtualMemoryLookup m T.l1 b).pn := by
    rw [(h.user a hauser hma).pn.2.1, (h.user b hbuser hmb).pn.2.1, hpn]
  exact page48_inj hb ha (h.once a b hauser hbuser hma hmb hsame)

theorem references_le_one (h : Space m T) (pn : Nat) : references m T.l1 userPages pn ≤ 1 := by
  obtain ⟨mapped, hmapped⟩ : ∃ mapped, mapped = userPages.filter
      fun va => decide (Mapped m T.l1 va ∧ (virtualMemoryLookup m T.l1 va).pn.toNat = pn) := ⟨_, rfl⟩
  have hnodup : mapped.Nodup := by
    rw [hmapped]
    exact nodup_userPages.filter _
  have hmem : ∀ x ∈ mapped, x ∈ userPages ∧ Mapped m T.l1 x ∧
      (virtualMemoryLookup m T.l1 x).pn.toNat = pn := by
    intro x hx
    rw [hmapped, List.mem_filter, decide_eq_true_iff] at hx
    exact hx
  rw [references, List.countP_eq_length_filter, ← hmapped]
  cases mapped with
  | nil => exact Nat.zero_le 1
  | cons a l =>
      cases l with
      | nil => exact Nat.le_refl 1
      | cons b l =>
          -- two pages of the list would be mapped to the same physical page
          exfalso
          obtain ⟨ha, hma, hpa⟩ := hmem a List.mem_cons_self
          obtain ⟨hb, hmb, hpb⟩ := hmem b (List.mem_cons_of_mem a List.mem_cons_self)
          have hab : a = b := h.page_inj ha hb hma hmb (hpa.trans hpb.symm)
          rw [List.nodup_cons] at hnodup
          apply hnodup.1
          rw [hab]
          exact List.mem_cons_self

theorem uses_le_two (h : Space m T) (pn : Nat) : uses m T pn ≤ 2 := by
  have := h.references_le_one pn
  rw [uses]
  split <;> omega

/-- A present page at `4096 * i`. -/
theorem mappedTo_page {pn perm a : Nat} (hperm : perm = 7 ∨ perm = 5) :
    mappedTo (PAGESIZE * pn) perm 0 a = ⟨(pn : Nat), PAGESIZE * pn + a % PAGESIZE, perm⟩ := by
  have hpresent : perm &&& PTE_P ≠ 0 := by
    rcases hperm with rfl | rfl <;> decide
  rw [mappedTo, if_pos hpresent]
  simp only [PAGESIZE, Nat.mul_div_cancel_left pn (by decide : 0 < 4096), Nat.add_zero, Nat.mul_zero]

section MapPage

variable {i pn perm : Nat} (h : Space m T) (hi : 256 ≤ i) (hi' : i < 768) (hpn : Ordinary pn)
  (hperm : perm = 7 ∨ perm = 5) (hmap : MapsPages m m' T i (PAGESIZE * pn) perm 1)

include hmap hperm in
theorem lookup_mapPage (a : Nat) : virtualMemoryLookup m' T.l1 a =
    if page48 a = i then ⟨(pn : Nat), PAGESIZE * pn + a % PAGESIZE, perm⟩
    else virtualMemoryLookup m T.l1 a := by
  rw [hmap.lookup]
  by_cases ha : page48 a = i
  · rw [if_pos (by omega), if_pos ha, ha, Nat.sub_self, mappedTo_page hperm]
  · rw [if_neg (by omega), if_neg ha]

include hmap hperm in
theorem mapped_mapPage {a : Nat} : Mapped m' T.l1 a ↔ page48 a = i ∨ Mapped m T.l1 a := by
  rw [Mapped, Mapped, lookup_mapPage hperm hmap]
  split
  · rename_i ha
    simp only [ha, true_or, iff_true]
    intro e
    have hpn := congrArg Vamapping.perm e
    rcases hperm with rfl | rfl
    · exact absurd hpn (by decide : (7 : Nat) ≠ 0)
    · exact absurd hpn (by decide : (5 : Nat) ≠ 0)
  · rename_i ha
    simp [ha]

include h hi hi' hpn hperm hmap in
/-- A page of the user part mapped to a physical page that nothing else is mapped to. -/
theorem mapPage (hfresh : ∀ va, UserPart va → Mapped m T.l1 va →
    (virtualMemoryLookup m T.l1 va).pn ≠ (pn : Nat)) : Space m' T := by
  have hlookup := lookup_mapPage hperm hmap
  have hmapped := fun a => mapped_mapPage (a := a) hperm hmap
  constructor
  · exact h.tables
  · exact hmap.linked
  · exact h.ordinary
  · intro va hva
    rw [hlookup, if_neg]
    · exact h.low va hva
    · simp only [PROC_START_ADDR] at hva
      rw [page48]
      omega
  · intro va hva hm
    rw [hlookup]
    split
    · exact ⟨pn, perm, hpn, hperm, rfl⟩
    · rename_i ha
      exact h.user va hva (((hmapped va).1 hm).resolve_left ha)
  · intro va hva hlt hm
    rcases (hmapped va).1 hm with ha | hm
    · simp only [MEMSIZE_VIRTUAL] at hva
      rw [page48] at ha
      omega
    · exact h.high va hva hlt hm
  · intro va va' hva hva' hm hm' heq
    rw [hlookup, hlookup] at heq
    -- one of the two may be the page that has been mapped, and nothing else has its physical page
    by_cases ha : page48 va = i
    · by_cases ha' : page48 va' = i
      · rw [ha, ha']
      · rw [if_pos ha, if_neg ha'] at heq
        exact absurd heq.symm (hfresh va' hva' (((hmapped va').1 hm').resolve_left ha'))
    · have hmv := ((hmapped va).1 hm).resolve_left ha
      by_cases ha' : page48 va' = i
      · rw [if_neg ha, if_pos ha'] at heq
        exact absurd heq (hfresh va hva hmv)
      · rw [if_neg ha, if_neg ha'] at heq
        exact h.once va va' hva hva' hmv (((hmapped va').1 hm').resolve_left ha') heq

include hi hi' hperm hmap in
/-- The process then has one more reference to that page. -/
theorem uses_mapPage (hunmapped : ¬ Mapped m T.l1 (PAGESIZE * i)) (q : Nat) :
    uses m' T q = uses m T q + if q = pn then 1 else 0 := by
  have hlookup := lookup_mapPage hperm hmap
  have hmapped := fun a => mapped_mapPage (a := a) hperm hmap
  have hpage : page48 (PAGESIZE * i) = i := page48_page (by omega)
  have hother : ∀ va ∈ userPages, va ≠ PAGESIZE * i → page48 va ≠ i := by
    rintro va hva hne rfl
    exact hne (page48_userPages hva).1.symm
  -- the mappings of the other pages are as before
  have hsame : ∀ va ∈ userPages, va ≠ PAGESIZE * i →
      (Mapped m' T.l1 va ∧ (virtualMemoryLookup m' T.l1 va).pn.toNat = q ↔
        Mapped m T.l1 va ∧ (virtualMemoryLookup m T.l1 va).pn.toNat = q) := by
    intro va hva hne
    have hout := hother va hva hne
    rw [hmapped, hlookup, if_neg hout]
    simp [hout]
  rw [uses, uses]
  by_cases hq : q = pn
  · have hmem : PAGESIZE * i ∈ userPages := by
      rw [mem_userPages]
      simp only [UserPart, PROC_START_ADDR, MEMSIZE_VIRTUAL, PAGESIZE]
      omega
    have hcount : references m' T.l1 userPages q = references m T.l1 userPages q + 1 := by
      apply countP_add_one nodup_userPages hmem
      · rw [decide_eq_false_iff_not]
        exact fun e => hunmapped e.1
      · rw [decide_eq_true_iff, hmapped, hlookup, if_pos hpage]
        exact ⟨Or.inl hpage, hq.symm⟩
      · intro va hva hne
        rw [decide_eq_decide]
        exact hsame va hva hne
    rw [hcount, if_pos hq]
    omega
  · have hcount : references m' T.l1 userPages q = references m T.l1 userPages q := by
      apply List.countP_congr
      intro va hva
      rw [decide_eq_true_iff, decide_eq_true_iff]
      by_cases hne : va = PAGESIZE * i
      · subst hne
        rw [hlookup, if_pos hpage]
        constructor
        · rintro ⟨-, e⟩
          exact absurd e.symm hq
        · rintro ⟨e, -⟩
          exact absurd e hunmapped
      · exact hsame va hva hne
    rw [hcount, if_neg hq, Nat.add_zero]

end MapPage

end Space

/-- Addresses count modulo `2 ^ 48`. -/
theorem lookup_mod (m : Mem) (root va : Nat) :
    virtualMemoryLookup m root (va % 2 ^ 48) = virtualMemoryLookup m root va := by
  have hpage : page48 (va % 2 ^ 48) = page48 va := by
    rw [page48, page48]
    omega
  have hoffset : pageOffset (va % 2 ^ 48) = pageOffset va := by
    rw [pageOffset_eq, pageOffset_eq]
    omega
  by_cases hm : Mapped m root va
  · rw [hm.lookup, ((Mapped.of_page48 hpage).2 hm).lookup, lastEntry_of_page48 hpage, hoffset]
  · rw [not_mapped.1 hm, not_mapped.1 fun h => hm ((Mapped.of_page48 hpage).1 h)]

namespace Space

/-- A mapping is one of the kernel's memory or one of the user part. -/
theorem mapped_cases (h : Space m T) {va : Nat} (hm : Mapped m T.l1 va) :
    (va % 2 ^ 48 < PROC_START_ADDR ∧ virtualMemoryLookup m T.l1 va = lowMapping (va % 2 ^ 48)) ∨
    (UserPart (va % 2 ^ 48) ∧ UserMapping (virtualMemoryLookup m T.l1 va) (va % 2 ^ 48)) := by
  rw [Mapped, ← lookup_mod] at hm
  rw [← lookup_mod]
  by_cases hlow : va % 2 ^ 48 < PROC_START_ADDR
  · exact Or.inl ⟨hlow, h.low _ hlow⟩
  · by_cases hhigh : MEMSIZE_VIRTUAL ≤ va % 2 ^ 48
    · exact absurd hm (h.high _ hhigh (Nat.mod_lt _ (by decide)))
    · have huser : UserPart (va % 2 ^ 48) := ⟨Nat.not_lt.1 hlow, Nat.not_le.1 hhigh⟩
      exact Or.inr ⟨huser, h.user _ huser hm⟩

theorem physical (h : Space m T) {va : Nat} (hm : Mapped m T.l1 va) :
    (virtualMemoryLookup m T.l1 va).pa < MEMSIZE_PHYSICAL := by
  rcases h.mapped_cases hm with ⟨hlow, hlookup⟩ | ⟨-, hmap⟩
  · rw [hlookup]
    simp only [lowMapping, PROC_START_ADDR, MEMSIZE_PHYSICAL] at hlow ⊢
    omega
  · have hlt := hmap.pn.1.lt
    rw [hmap.pn.2.2]
    simp only [PAGESIZE, MEMSIZE_PHYSICAL]
    omega

/-- The page table of a process is well formed when no page of it is mapped for the process to use. -/
theorem tableOk (h : Space m T)
    (hapart : ∀ t ∈ T.pages, references m T.l1 userPages (t / PAGESIZE) = 0) : TableOk m T.l1 := by
  constructor
  · exact h.linked.walkOk h.tables
  · intro va hm
    exact h.physical hm
  · intro va hm huser t ht hx
    rw [h.linked.isTable_iff h.tables] at ht
    have ht0 := h.tables.aligned t ht
    have hord := ordinary_iff.1 (h.ordinary t ht)
    simp only [PAGESIZE] at hx hord
    rcases h.mapped_cases hm with ⟨hlow, hlookup⟩ | ⟨hpart, hmap⟩
    · -- of the kernel's memory the user can reach the console only, which is no ordinary page
      rw [hlookup] at hx huser
      have hconsole : va % 2 ^ 48 / PAGESIZE = CONSOLE_ADDR / PAGESIZE := by
        by_contra hne
        rcases huser with huser | huser
        · simp only [UserPart, PROC_START_ADDR, MEMSIZE_VIRTUAL] at huser
          simp only [PROC_START_ADDR] at hlow
          omega
        · rw [lowMapping, if_neg hne] at huser
          exact huser (by decide : (3 : Nat) &&& 4 = 0)
      simp only [lowMapping, PAGESIZE, CONSOLE_ADDR] at hx hconsole
      omega
    · have hzero := references_eq_zero.1 (hapart t ht) (va % 2 ^ 48) hpart
      rw [Mapped, lookup_mod] at hzero
      apply hzero hm
      rw [hmap.pn.2.2] at hx
      simp only [PAGESIZE] at hx ⊢
      omega

end Space

end References

end MemoryManagement.Kernel
