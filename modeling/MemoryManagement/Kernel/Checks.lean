import MemoryManagement.Kernel.Moves

/-!
# The kernel's own checks

The assertions of `set_pagetable`, `check_virtual_memory` and the memory viewer hold in every state whose
pages are accounted for and in which each page in use belongs to a process that is not free. Then
`exception` gets past its checks, and `run` and `schedule` reach a process or find none.
-/

set_option autoImplicit false

namespace MemoryManagement.Kernel

open MemoryManagement.Library.ByteMemory

/-- The processes whose state is not `P_FREE`. -/
def live (s : State) : Finset Nat :=
  (Finset.range NPROC).filter fun pid => (s.processes pid).state ≠ .free

theorem mem_live {s : State} {pid : Nat} :
    pid ∈ live s ↔ pid < NPROC ∧ (s.processes pid).state ≠ .free := by
  rw [live, Finset.mem_filter, Finset.mem_range]

theorem mem_live_of_runnable {s : State} {pid : Nat} (hlt : pid < NPROC)
    (hrun : (s.processes pid).state = .runnable) : pid ∈ live s := by
  refine mem_live.2 ⟨hlt, ?_⟩
  rw [hrun]
  intro hfree
  cases hfree

theorem live_congr {s s' : State}
    (h : ∀ pid, pid < NPROC → ((s'.processes pid).state = .free ↔ (s.processes pid).state = .free)) :
    live s' = live s := by
  apply Finset.filter_congr
  intro pid hpid
  rw [Ne, Ne, h pid (Finset.mem_range.1 hpid)]

/-- An ordinary page in use belongs to a process that is not free. -/
def OwnersLive (s : State) : Prop :=
  ∀ q, Ordinary q → (s.pageinfo q).refcount ≠ 0 → ∃ j ∈ live s, (s.pageinfo q).owner = (j : Nat)

/-! ## Page tables -/

section Tables

variable {m : Mem} {U : Tables}

theorem KernelSpace.lookup_pa (h : KernelSpace m) {va : Nat} (hva : va < MEMSIZE_PHYSICAL) :
    (virtualMemoryLookup m kernelPagetable va).pa = va := by
  rw [h.identity va hva]

theorem Space.lookup_pa (h : Space m U) {va : Nat} (hva : va < PROC_START_ADDR) :
    (virtualMemoryLookup m U.l1 va).pa = va := by
  rw [h.low va hva, lowMapping]

theorem pageOffset_of_aligned {t : Nat} (ht : t % 4096 = 0) : pageOffset t = 0 := by
  rw [pageOffset_eq, ht]

theorem pteAddr_of_aligned {t : Nat} (ht : t % 4096 = 0) (hlt : t < 2 ^ 64) : pteAddr t = t := by
  rw [pteAddr_eq hlt]
  omega

/-- `set_pagetable` accepts the page table of a process. -/
theorem Space.setPagetable_ok (hk : KernelSpace m) (h : Space m U) : setPagetable m U.l1 = .ok () := by
  have hl1 : U.l1 ∈ U.pages := U.l1_mem
  have hphysical := h.tables.physical _ hl1
  rw [setPagetable, assert_bind_of (pageOffset_of_aligned (h.tables.aligned _ hl1)),
    assert_bind_of (h.lookup_pa (by decide)), assert_bind_of (hk.lookup_pa hphysical),
    assert_bind_of (h.lookup_pa (by decide))]
  exact if_pos (h.lookup_pa (by decide))

theorem KernelSpace.setPagetable_ok (hk : KernelSpace m) : setPagetable m kernelPagetable = .ok () := by
  rw [setPagetable, assert_bind_of (pageOffset_of_aligned (by decide : kernelPagetable % 4096 = 0)),
    assert_bind_of (hk.lookup_pa (by decide)), assert_bind_of (hk.lookup_pa (by decide)),
    assert_bind_of (hk.lookup_pa (by decide))]
  exact if_pos (hk.lookup_pa (by decide))

/-- The pages of the kernel's code, data and stack lie below the user part, and the console does not lie
among them. -/
theorem kernelPages_low {va : Nat} (h : va ∈ kernelPages) :
    va < PROC_START_ADDR ∧ va / PAGESIZE ≠ CONSOLE_ADDR / PAGESIZE := by
  simp only [kernelPages, List.mem_map, List.mem_range, KERNEL_START_ADDR, PAGESIZE] at h
  obtain ⟨i, hi, rfl⟩ := h
  simp only [PROC_START_ADDR, CONSOLE_ADDR, PAGESIZE]
  omega

theorem Space.pageTableMappings (h : Space m U) : PageTableMappings m U.l1 := by
  have hl1 : U.l1 ∈ U.pages := U.l1_mem
  have hphysical := h.tables.physical _ hl1
  refine ⟨?_, fun va hva => ⟨?_, fun _ => ?_⟩, ?_, ?_⟩
  · apply pteAddr_of_aligned (h.tables.aligned _ hl1)
    simp only [MEMSIZE_PHYSICAL] at hphysical
    omega
  · exact h.lookup_pa (kernelPages_low hva).1
  · rw [h.low va (kernelPages_low hva).1, lowMapping_other (kernelPages_low hva).2]
    exact (by decide : (3 : Nat) &&& PTE_W ≠ 0)
  · exact h.lookup_pa (by decide)
  · rw [h.low _ (by decide), lowMapping_other (by decide)]
    decide

theorem KernelSpace.pageTableMappings (h : KernelSpace m) : PageTableMappings m kernelPagetable := by
  refine ⟨pteAddr_of_aligned (by decide) (by decide), fun va hva => ⟨?_, fun _ => ?_⟩, ?_, ?_⟩
  · exact h.lookup_pa (Nat.lt_trans (kernelPages_low hva).1 (by decide))
  · rw [h.identity va (Nat.lt_trans (kernelPages_low hva).1 (by decide))]
    exact (by decide : (7 : Nat) &&& PTE_W ≠ 0)
  · exact h.lookup_pa (by decide)
  · rw [h.identity _ (by decide)]
    decide

/-- `check_page_table_ownership_level` accepts five linked pages that belong to their owner and have one
reference each. -/
theorem Linked.ownership (h : Linked m U) (hU : U.Ok) {info : Nat → PageInfo} {owner : Int}
    (hinfo : ∀ t ∈ U.pages, info (t / PAGESIZE) = ⟨owner, 1⟩) :
    ownershipLevel m info owner 3 U.l1 1 = true := by
  -- the assertion about one page of the page table
  have hpage : ∀ t ∈ U.pages, (pageNumber t < 512 && (info (pageinfoIndex t)).owner == owner &&
      (info (pageinfoIndex t)).refcount == 1) = true := by
    intro t ht
    have hlt := hU.physical t ht
    have hindex : pageinfoIndex t = t / PAGESIZE := pageinfoIndex_eq hlt
    have hnumber : pageNumber t = (t / PAGESIZE : Nat) := by
      have hshift : t >>> 12 = t / 4096 := Nat.shiftRight_eq_div_pow t 12
      simp only [MEMSIZE_PHYSICAL] at hlt
      rw [pageNumber, hshift, toInt32_of_lt (by omega)]
    simp only [MEMSIZE_PHYSICAL] at hlt
    rw [hindex, hinfo t ht, hnumber]
    simp only [PAGESIZE, BEq.rfl, Bool.and_true, decide_eq_true_eq]
    omega
  have hlink : ∀ t ∈ U.pages, pteAddr (t ||| 7) = t :=
    fun t ht => pteAddr_link (hU.aligned t ht) (hU.physical t ht)
  have hl4a : U.l4a ∈ U.pages := U.l4a_mem
  have hl4b : U.l4b ∈ U.pages := U.l4b_mem
  have hl3 : U.l3 ∈ U.pages := U.l3_mem
  have hl2 : U.l2 ∈ U.pages := U.l2_mem
  have hl1 : U.l1 ∈ U.pages := U.l1_mem
  -- from the last level up: an entry that is not present is not followed
  have hthird : ownershipLevel m info owner 1 U.l3 1 = true := by
    rw [ownershipLevel, hpage _ hl3, Bool.true_and, List.all_eq_true]
    intro i hi
    rw [h.third i (List.mem_range.1 hi)]
    split
    · rw [hlink _ hl4a, ownershipLevel, hpage _ hl4a, Bool.or_true]
    · split
      · rw [hlink _ hl4b, ownershipLevel, hpage _ hl4b, Bool.or_true]
      · rfl
  have hsecond : ownershipLevel m info owner 2 U.l2 1 = true := by
    rw [ownershipLevel, hpage _ hl2, Bool.true_and, List.all_eq_true]
    intro i hi
    rw [h.second i (List.mem_range.1 hi)]
    split
    · rw [hlink _ hl3, hthird, Bool.or_true]
    · rfl
  rw [ownershipLevel, hpage _ hl1, Bool.true_and, List.all_eq_true]
  intro i hi
  rw [h.first i (List.mem_range.1 hi)]
  split
  · rw [hlink _ hl2, hsecond, Bool.or_true]
  · rfl

/-- The memory viewer can show the address space of a process. -/
theorem Space.showable (h : Space m U) : Showable m U.l1 := by
  refine ⟨h.pageTableMappings.1.symm, fun va _ => ?_⟩
  by_cases hm : Mapped m U.l1 va
  · exact Or.inr (h.physical hm)
  · left
    rw [not_mapped.1 hm]
    decide

end Tables

/-! ## The checks of `exception` -/

section State

variable {s : State} {T : Nat → Tables}

namespace Accounted

/-- A process that is not free. -/
theorem mem_of_active (h : Accounted s (live s) T ∅) {pid : Nat} (hlt : pid < NPROC)
    (hactive : (s.processes pid).state ≠ .free) :
    (s.processes pid).pagetable = (T pid).l1 ∧ Space s.mem (T pid) := by
  have hmem := mem_live.2 ⟨hlt, hactive⟩
  exact ⟨h.root pid hmem, h.space pid hmem⟩

/-- No process runs on the kernel's page table. -/
theorem pagetable_ne (h : Accounted s (live s) T ∅) {pid : Nat} (hlt : pid < NPROC)
    (hactive : (s.processes pid).state ≠ .free) : (s.processes pid).pagetable ≠ kernelPagetable := by
  obtain ⟨hroot, hspace⟩ := h.mem_of_active hlt hactive
  rw [hroot]
  intro e
  have hord := hspace.ordinary (T pid).l1 (by simp)
  rw [e] at hord
  exact absurd hord (by decide)

theorem kernelTableOwnership (h : Accounted s (live s) T ∅) : KernelTableOwnership s := by
  have hnone : (List.range NPROC).countP (fun pid =>
      decide ((s.processes pid).state ≠ .free ∧ (s.processes pid).pagetable = kernelPagetable)) = 0 := by
    rw [List.countP_eq_zero]
    intro pid hpid
    rw [decide_eq_true_iff]
    rintro ⟨hactive, hroot⟩
    exact h.pagetable_ne (List.mem_range.1 hpid) hactive hroot
  rw [KernelTableOwnership, hnone]
  apply h.kernel.linked.ownership kernelTables_ok
  intro t ht
  have hord := not_ordinary_kernelTables ht
  have hlt := kernelTables_ok.physical t ht
  rw [h.fixed _ (by simp only [MEMSIZE_PHYSICAL, PAGESIZE] at hlt ⊢; omega) hord]
  revert t
  decide

/-- The last assertion of `check_virtual_memory`. -/
theorem ownersActive (h : Accounted s (live s) T ∅) (howners : OwnersLive s) : OwnersActive s := by
  intro pn hpn hcount howner
  by_cases hord : Ordinary pn
  · obtain ⟨j, hj, howner'⟩ := howners pn hord (by omega)
    rw [howner', Int.toNat_natCast]
    exact (mem_live.1 hj).2
  · -- the owner of any other page is no process
    have hfixed := h.fixed pn (List.mem_range.1 hpn) hord
    rw [hfixed] at howner
    have hnot : initialOwner (pn * PAGESIZE) ≠ PO_FREE := fun e => hord ⟨List.mem_range.1 hpn, e⟩
    replace howner : 0 ≤ initialOwner (pn * PAGESIZE) := howner
    rw [initialOwner] at howner hnot
    split at howner
    · exact absurd howner (by decide)
    · rename_i hres
      rw [if_neg hres] at hnot
      split at howner
      · exact absurd howner (by decide)
      · rename_i hker
        rw [if_neg hker] at hnot
        exact absurd rfl hnot

/-- All assertions of `check_virtual_memory` hold. -/
theorem virtualMemoryOk (h : Accounted s (live s) T ∅) (howners : OwnersLive s) : VirtualMemoryOk s := by
  refine ⟨?_, h.kernel.pageTableMappings, h.kernelTableOwnership, fun pid hpid hactive _ => ?_,
    h.ownersActive howners⟩
  · by_contra hactive
    exact absurd (h.pids 0 (mem_live.2 ⟨by decide, hactive⟩)).1 (Nat.lt_irrefl 0)
  · obtain ⟨hroot, hspace⟩ := h.mem_of_active (List.mem_range.1 hpid) hactive
    rw [TableOwnership, hroot]
    refine ⟨hspace.pageTableMappings, hspace.linked.ownership hspace.tables ?_⟩
    exact h.tables pid (mem_live.2 ⟨List.mem_range.1 hpid, hactive⟩)

end Accounted

/-- Only what the memory viewer keeps for itself differs. -/
structure SameView (s s' : State) : Prop where
  mem : s'.mem = s.mem
  pageinfo : s'.pageinfo = s.pageinfo
  processes : s'.processes = s.processes
  current : s'.current = s.current
  ticks : s'.ticks = s.ticks
  dispGlobal : s'.dispGlobal = s.dispGlobal

/-- The registers of the current process are saved; otherwise only what the memory viewer keeps for
itself differs. -/
structure Entered (s s' : State) (reg : Registers) : Prop where
  mem : s'.mem = s.mem
  pageinfo : s'.pageinfo = s.pageinfo
  current : s'.current = s.current
  ticks : s'.ticks = s.ticks
  dispGlobal : s'.dispGlobal = s.dispGlobal
  processes : s'.processes = Function.update s.processes s.current
    { s.processes s.current with registers := reg }

/-- Only the current process differs, and it still has its page table and is as free as before. -/
structure Touched (s s' : State) : Prop where
  mem : s'.mem = s.mem
  pageinfo : s'.pageinfo = s.pageinfo
  current : s'.current = s.current
  other : ∀ pid, pid ≠ s.current → s'.processes pid = s.processes pid
  root : (s'.processes s.current).pagetable = (s.processes s.current).pagetable
  free : (s'.processes s.current).state = .free ↔ (s.processes s.current).state = .free

namespace Touched

variable {s s' : State} (h : Touched s s')
include h

theorem roots (pid : Nat) : (s'.processes pid).pagetable = (s.processes pid).pagetable := by
  by_cases hpid : pid = s.current
  · subst hpid
    exact h.root
  · rw [h.other pid hpid]

theorem states (pid : Nat) : (s'.processes pid).state = .free ↔ (s.processes pid).state = .free := by
  by_cases hpid : pid = s.current
  · subst hpid
    exact h.free
  · rw [h.other pid hpid]

theorem lookup (pid va : Nat) : s'.lookup pid va = s.lookup pid va := by
  rw [State.lookup, State.lookup, h.mem, h.roots]

theorem hasPage (pid va : Nat) : s'.HasPage pid va ↔ s.HasPage pid va := by
  rw [State.HasPage, State.HasPage, h.mem, h.roots]

theorem live : Kernel.live s' = Kernel.live s := live_congr fun pid _ => h.states pid

end Touched

namespace Entered

variable {s s' : State} {reg : Registers} (h : Entered s s' reg)
include h

theorem process_self : s'.processes s.current = { s.processes s.current with registers := reg } := by
  rw [h.processes, Function.update_self]

theorem touched : Touched s s' := by
  have hself := h.process_self
  constructor
  · exact h.mem
  · exact h.pageinfo
  · exact h.current
  · intro pid hpid
    rw [h.processes, Function.update_of_ne hpid]
  · rw [hself]
  · rw [hself]

end Entered

theorem SameView.refl (s : State) : SameView s s := ⟨rfl, rfl, rfl, rfl, rfl, rfl⟩

namespace Accounted

theorem memshow_ok (h : Accounted s (live s) T ∅) :
    ∃ s', memshowVirtualAnimate s = .ok s' ∧ SameView s s' := by
  -- first the counter of shown processes moves on, then it skips free slots
  obtain ⟨s₁, hs₁⟩ : ∃ s₁ : State, s₁ =
      if s.lastTicks = 0 ∨ 50 ≤ (s.ticks + 2 ^ 32 - s.lastTicks) % 2 ^ 32 then
        { s with lastTicks := s.ticks, showing := s.showing + 1 } else s := ⟨_, rfl⟩
  have hview : SameView s s₁ := by
    rw [hs₁]
    split
    · exact ⟨rfl, rfl, rfl, rfl, rfl, rfl⟩
    · exact SameView.refl s
  obtain ⟨s₂, hs₂⟩ : ∃ s₂ : State, s₂ =
      { s₁ with showing := skipFree s₁.processes (2 * NPROC + 1) s₁.showing % NPROC } := ⟨_, rfl⟩
  have hshowing : s₂.showing < NPROC := by
    rw [hs₂]
    exact Nat.mod_lt _ (by decide)
  have hview₂ : SameView s s₂ := by
    rw [hs₂]
    exact ⟨hview.mem, hview.pageinfo, hview.processes, hview.current, hview.ticks, hview.dispGlobal⟩
  refine ⟨s₂, ?_, hview₂⟩
  have hcode : memshowVirtualAnimate s = (do
      if (s₂.processes s₂.showing).state ≠ .free ∧ (s₂.processes s₂.showing).displayStatus then
        assert (Showable s₂.mem (s₂.processes s₂.showing).pagetable)
      .ok s₂) := by
    rw [hs₂, hs₁]
    rfl
  rw [hcode]
  split
  · rename_i hshown
    rw [hview₂.processes, hview₂.mem] at *
    -- a process that is shown is not free, so it has a page table of its own
    obtain ⟨hroot, hspace⟩ := h.mem_of_active hshowing hshown.1
    rw [hroot]
    exact assert_bind_of hspace.showable
  · rfl

/-- `exception` gets past its checks. -/
theorem checks_ok (h : Accounted s (live s) T ∅) (howners : OwnersLive s) (reg : Registers) :
    ∃ s', checks s reg = .ok s' ∧ SameView s s' := by
  rw [checks]
  split
  · rw [checkVirtualMemory, assert_bind_of (h.virtualMemoryOk howners)]
    split
    · exact h.memshow_ok
    · exact ⟨s, rfl, SameView.refl s⟩
  · exact ⟨s, rfl, SameView.refl s⟩

/-- `exception` saves the registers, gets past its checks and goes on with the interrupt. -/
theorem exception_enters (h : Accounted s (live s) T ∅) (howners : OwnersLive s)
    (reg : Registers) (cr2 : Nat) :
    ∃ s', Entered s s' reg ∧ exception s reg cr2 = (do
      let result ← dispatch s' reg cr2
      resume result.1 result.2) := by
  obtain ⟨s₁, hs₁⟩ : ∃ s₁ : State, s₁ =
      s.setProc s.current { s.processes s.current with registers := reg } := ⟨_, rfl⟩
  have hprocesses : s₁.processes = Function.update s.processes s.current
      { s.processes s.current with registers := reg } := by
    rw [hs₁]
    rfl
  have hmem : s₁.mem = s.mem := by
    rw [hs₁]
    rfl
  have hinfo : s₁.pageinfo = s.pageinfo := by
    rw [hs₁]
    rfl
  have hsame : ∀ pid, (s₁.processes pid).state = (s.processes pid).state ∧
      (s₁.processes pid).pagetable = (s.processes pid).pagetable := by
    intro pid
    rw [hprocesses]
    by_cases hpid : pid = s.current
    · subst hpid
      rw [Function.update_self]
      exact ⟨rfl, rfl⟩
    · rw [Function.update_of_ne hpid]
      exact ⟨rfl, rfl⟩
  -- saving the registers changes neither who is alive nor the page tables
  have hlive : live s₁ = live s := live_congr fun pid _ => by rw [(hsame pid).1]
  have hacc : Accounted s₁ (live s₁) T ∅ := by
    rw [hlive]
    exact h.of_eq hmem hinfo fun pid _ => (hsame pid).2
  have howners₁ : OwnersLive s₁ := by
    rw [OwnersLive, hlive, hinfo]
    exact howners
  obtain ⟨s₂, hchecks, hview⟩ := hacc.checks_ok howners₁ reg
  refine ⟨s₂, ?_, ?_⟩
  · constructor
    · rw [hview.mem, hmem]
    · rw [hview.pageinfo, hinfo]
    · rw [hview.current, hs₁]
      rfl
    · rw [hview.ticks, hs₁]
      rfl
    · rw [hview.dispGlobal, hs₁]
      rfl
    · rw [hview.processes, hprocesses]
  · have hcode : exception s reg cr2 = (do
        setPagetable s₁.mem kernelPagetable
        let s ← checks s₁ reg
        let result ← dispatch s reg cr2
        resume result.1 result.2) := by
      rw [hs₁]
      rfl
    rw [hcode, hacc.kernel.setPagetable_ok, hchecks]
    rfl

/-! ## Scheduling -/

theorem run_ok (h : Accounted s (live s) T ∅) {pid : Nat} (hlt : pid < NPROC)
    (hrun : (s.processes pid).state = .runnable) :
    run s pid = .ok ({ s with current := pid }, some pid) := by
  obtain ⟨hroot, hspace⟩ := h.mem_of_active hlt (by rw [hrun]; decide)
  rw [run, assert_bind_of hrun, hroot, Space.setPagetable_ok h.kernel hspace]
  rfl

/-- `schedule` finds a runnable process, or there is none. -/
theorem schedule_ok (h : Accounted s (live s) T ∅) :
    (∃ pid, pid < NPROC ∧ (s.processes pid).state = .runnable ∧
      schedule s = .ok ({ s with current := pid }, some pid)) ∨
    ((∀ pid, pid < NPROC → (s.processes pid).state ≠ .runnable) ∧ schedule s = .ok (s, none)) := by
  rw [schedule]
  cases hfind : ((List.range NPROC).map fun i => (s.current + 1 + i) % NPROC).find?
      fun pid => (s.processes pid).state = .runnable with
  | some pid =>
      left
      have hmem := List.mem_of_find?_eq_some hfind
      have hrun := List.find?_some hfind
      rw [decide_eq_true_iff] at hrun
      obtain ⟨i, -, rfl⟩ := List.mem_map.1 hmem
      have hlt : (s.current + 1 + i) % NPROC < NPROC := Nat.mod_lt _ (by decide)
      refine ⟨_, hlt, hrun, ?_⟩
      exact h.run_ok hlt hrun
  | none =>
      right
      refine ⟨fun pid hlt hrun => ?_, rfl⟩
      -- every process is among those that are asked
      have hmem : pid ∈ (List.range NPROC).map fun i => (s.current + 1 + i) % NPROC := by
        rw [List.mem_map]
        refine ⟨(pid + NPROC * (s.current + 1) - (s.current + 1)) % NPROC, ?_, ?_⟩
        · exact List.mem_range.2 (Nat.mod_lt _ (by decide))
        · simp only [NPROC] at hlt ⊢
          omega
      have := List.find?_eq_none.1 hfind pid hmem
      rw [decide_eq_true_iff] at this
      exact this hrun

/-- `exception` ends in a process that is runnable, or there is none. -/
theorem resume_ok (h : Accounted s (live s) T ∅) (hcurrent : s.current < NPROC) (after : After) :
    (∃ pid, pid < NPROC ∧ (s.processes pid).state = .runnable ∧
      resume s after = .ok ({ s with current := pid }, some pid)) ∨
    ((∀ pid, pid < NPROC → (s.processes pid).state ≠ .runnable) ∧ resume s after = .ok (s, none)) := by
  rw [resume]
  split
  · rename_i hback
    exact Or.inl ⟨s.current, hcurrent, hback.2, h.run_ok hcurrent hback.2⟩
  · exact h.schedule_ok

end Accounted

end State

end MemoryManagement.Kernel
