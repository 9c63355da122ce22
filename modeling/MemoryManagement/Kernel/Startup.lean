import MemoryManagement.Kernel.Checks
import MemoryManagement.Kernel.Supply

/-!
# Starting up

`kernel` sets up its own address space (`virtualMemoryInit_spec`) and starts with page counts that are
right (`accounted_bootState`). As long as pages are free, a process gets its page table
(`configured_of_free`).
-/

set_option autoImplicit false

namespace MemoryManagement.Kernel

open MemoryManagement.Library.ByteMemory
open MemoryManagement.Library.RefCount

/-! ## The kernel's address space -/

section KernelTable

/-- An identity mapping of a page range that starts at 0. -/
theorem mappedTo_identity {perm a : Nat} (hpresent : perm &&& PTE_P ≠ 0) (ha : a < 2 ^ 48) :
    mappedTo 0 perm (page48 a - 0) a = ⟨(a / PAGESIZE : Nat), a, perm⟩ := by
  have hpage : page48 a = a / 4096 := by
    rw [page48]
    omega
  have hpn : 0 / 4096 + (a / 4096 - 0) = a / 4096 := by omega
  have hpa : 0 + 4096 * (a / 4096 - 0) + a % 4096 = a := by omega
  rw [mappedTo, if_pos hpresent, hpage, hpn, hpa]

theorem KernelSpace.identityMapped {m : Mem} (h : KernelSpace m) : IdentityMapped m := by
  intro addr haddr
  simp only [physicalPages, List.mem_map, List.mem_range, PAGESIZE] at haddr
  obtain ⟨pn, hpn, rfl⟩ := haddr
  have hlt : pn * 4096 < MEMSIZE_PHYSICAL := by
    simp only [MEMSIZE_PHYSICAL]
    omega
  rw [h.identity _ hlt]
  exact ⟨rfl, (by decide : (7 : Nat) &&& (PTE_P ||| PTE_W) = PTE_P ||| PTE_W)⟩

/-- `virtual_memory_init` succeeds, whatever the memory held. -/
theorem virtualMemoryInit_spec (m : Mem) : ∃ m', virtualMemoryInit m = .ok m' ∧ KernelSpace m' := by
  obtain ⟨cleared, hcleared⟩ : ∃ cleared, cleared = memset m kernelPagetable 0 (5 * PAGESIZE) := ⟨_, rfl⟩
  obtain ⟨linked, hlinks⟩ : ∃ linked, linked = linkTables cleared kernelTables.l1 kernelTables.l2
      kernelTables.l3 kernelTables.l4a kernelTables.l4b := ⟨_, rfl⟩
  -- the five pages follow each other, so that one call of `memset` clears them
  have hzero : ∀ t ∈ [kernelTables.l1, kernelTables.l2, kernelTables.l3], ∀ i, i < 512 →
      entry cleared t i = 0 := by
    intro t ht i hi
    rw [← entry_zero t i]
    apply entry_congr hi
    intro x hx
    rw [hcleared]
    apply memset_of_inRange
    simp only [List.mem_cons, List.not_mem_nil, or_false, kernelTables] at ht
    simp only [kernelPagetable, PAGESIZE]
    omega
  have hlinked : Linked linked kernelTables := by
    rw [hlinks]
    exact linked_linkTables kernelTables_ok hzero
  obtain ⟨m', hmap, hmaps⟩ := hlinked.map_pages kernelTables_ok (i := 0) (n := 512) (by decide)
    (by decide : PTE_P ||| PTE_W ||| PTE_U < 4096) (by decide) (by decide : 0 % 4096 = 0) (by decide)
  have hspace : KernelSpace m' := by
    constructor
    · exact hmaps.linked
    · intro va hva
      have hpage : page48 va < 0 + 512 := by
        simp only [MEMSIZE_PHYSICAL] at hva
        rw [page48]
        omega
      have hlookup := hmaps.lookup va
      rw [if_pos ⟨Nat.zero_le _, hpage⟩, mappedTo_identity (by decide) (Nat.lt_trans hva (by decide))]
        at hlookup
      exact hlookup
  refine ⟨m', ?_, hspace⟩
  unfold virtualMemoryInit
  rw [← hcleared, bind_eq_ok]
  refine ⟨(m', 0), ?_, ?_⟩
  · rw [hlinks] at hmap
    exact hmap
  · rw [assert_bind_of hspace.identityMapped, hspace.setPagetable_ok]
    exact rfl

end KernelTable

/-! ## The first state -/

/-- The state in which `kernel` starts to set up processes. -/
def bootState (m : Mem) : State := ⟨m, pageinfoInit, fun _ => zeroProc, 0, 0, true, 0, 1⟩

theorem pageinfoInit_of_ordinary {pn : Nat} (h : Ordinary pn) : pageinfoInit pn = ⟨PO_FREE, 0⟩ := by
  have howner := h.2
  rw [pageinfoInit, howner, if_neg (not_not.2 rfl)]

theorem freeFrom_pageinfoInit (k : Nat) : FreeFrom k pageinfoInit :=
  fun _ _ hord => pageinfoInit_of_ordinary hord

theorem accounted_bootState {m : Mem} (h : KernelSpace m) (T : Nat → Tables) :
    Accounted (bootState m) ∅ T ∅ := by
  have hnone : ∀ pn, refs m ∅ T ∅ pn = 0 := fun pn => rfl
  constructor
  · exact h
  · exact fun pid hpid => absurd hpid (Finset.notMem_empty pid)
  · exact fun pid hpid => absurd hpid (Finset.notMem_empty pid)
  · exact fun pid hpid => absurd hpid (Finset.notMem_empty pid)
  · exact fun pn hpn => absurd hpn (Finset.notMem_empty pn)
  · intro pn hpn
    show (pageinfoInit pn).refcount = (refs m ∅ T ∅ pn : Nat)
    rw [pageinfoInit_of_ordinary hpn, hnone, Nat.cast_zero]
  · intro pn hpn
    show (pageinfoInit pn).owner = PO_FREE ↔ (pageinfoInit pn).refcount = 0
    rw [pageinfoInit_of_ordinary hpn]
  · exact fun pid hpid => absurd hpid (Finset.notMem_empty pid)
  · exact fun _ _ _ => rfl

/-! ## The first process -/

/-- With five free pages a process gets an empty address space. -/
theorem Accounted.configured_of_free {s : State} {A : Finset Nat} {T : Nat → Tables} {pid k : Nat}
    (h : Accounted s A T ∅) (hnew : pid ∉ A) (hpid : 0 < pid ∧ pid < NPROC) (hk : 0 < k)
    (hpages : k + 5 ≤ 0x40) (hfree : FreeFrom k s.pageinfo) :
    ∃ s' U, processConfigTables s pid = .ok (s', 0) ∧ Configured s s' A T pid U ∧
      FreeFrom (k + 5) s'.pageinfo := by
  obtain ⟨hnull, hfree'⟩ := h.pallocs_succeed hpid hk hpages hfree
  rcases processConfigTables_spec h hnew hpid with ⟨s', -, hno⟩ | ⟨s', U, hcode, hconf⟩
  · exact absurd hno.missing hnull
  · refine ⟨s', U, hcode, hconf, ?_⟩
    rw [hconf.taken]
    exact hfree'

/-- The first process with an empty address space. -/
theorem exists_firstProcess (m : Mem) : ∃ s T, Accounted s {1} T ∅ ∧
    (∀ va, UserPart va → ¬ Mapped s.mem (T 1).l1 va) ∧ FreeFrom 6 s.pageinfo ∧
    OnlyPages ((bootState s.mem).setProc 1 { zeroProc with pagetable := (T 1).l1 }) s := by
  obtain ⟨m₀, -, hkernel⟩ := virtualMemoryInit_spec m
  have hacc := accounted_bootState hkernel fun _ => kernelTables
  obtain ⟨s, U, -, hconf, hfree⟩ := hacc.configured_of_free (Finset.notMem_empty 1)
    (by decide : 0 < 1 ∧ 1 < NPROC) Nat.one_pos (by decide) (freeFrom_pageinfoInit 1)
  refine ⟨s, Function.update (fun _ => kernelTables) 1 U, hconf.accounted, ?_, hfree, ?_⟩
  · rw [Function.update_self]
    exact hconf.empty
  · rw [Function.update_self]
    have honly := hconf.only
    exact ⟨honly.processes, honly.current, honly.ticks, honly.dispGlobal, honly.lastTicks, honly.showing⟩

end MemoryManagement.Kernel
