import MemoryManagement.Kernel.Machine

/-!
# Exceptions and system calls

Translation of `exception` of `kernel/kernel.c` with all its cases, of the checks and the memory viewer
it runs first, of `schedule` and `run`, and of `set_pagetable` of `kernel/vm.c`.

`exception` ends in user mode, in the process that `run` picked, or it spins in `schedule` when no
process is runnable; the second component of its result is that process. The viewer's drawing is left
out, its assertions are kept. `check_keyboard`, which only looks for a key that ends the machine, is
left out.
-/

set_option autoImplicit false

namespace MemoryManagement.Kernel

open MemoryManagement.Library.ByteMemory

/-! ## Interrupt numbers -/

abbrev INT_GPF : Nat := 13

abbrev INT_PAGEFAULT : Nat := 14

abbrev INT_TIMER : Nat := 32

abbrev INT_SYS : Nat := 48

abbrev INT_SYS_PANIC : Nat := INT_SYS + 0

abbrev INT_SYS_GETPID : Nat := INT_SYS + 1

abbrev INT_SYS_YIELD : Nat := INT_SYS + 2

abbrev INT_SYS_PAGE_ALLOC : Nat := INT_SYS + 3

abbrev INT_SYS_FORK : Nat := INT_SYS + 4

abbrev INT_SYS_EXIT : Nat := INT_SYS + 5

abbrev INT_SYS_MAPPING : Nat := INT_SYS + 6

abbrev INT_SYS_MEM_TOG : Nat := INT_SYS + 8

abbrev INT_SYS_BRK : Nat := INT_SYS + 9

abbrev INT_SYS_SBRK : Nat := INT_SYS + 10

/-- The fault was a protection violation, not a missing page. -/
abbrev PFERR_PRESENT : Nat := 1

/-- The fault happened in user mode. -/
abbrev PFERR_USER : Nat := 4

/-! ## Checks -/

/-- Addresses of kernel code that `set_pagetable` looks up: `default_int_handler` and
`virtual_memory_map`. -/
abbrev defaultIntHandler : Nat := 0x4009c

abbrev virtualMemoryMapAddr : Nat := 0x428c4

/-- `set_pagetable(pagetable)`. -/
def setPagetable (m : Mem) (pagetable : Nat) : Outcome Unit := do
  assert (pageOffset pagetable = 0)
  assert ((virtualMemoryLookup m pagetable defaultIntHandler).pa = defaultIntHandler)
  assert ((virtualMemoryLookup m kernelPagetable pagetable).pa = pagetable)
  assert ((virtualMemoryLookup m pagetable kernelPagetable).pa = kernelPagetable)
  assert ((virtualMemoryLookup m pagetable virtualMemoryMapAddr).pa = virtualMemoryMapAddr)

/-- `start_data`, where the writable part of the kernel starts. -/
abbrev startData : Nat := 0x46000

/-- The page addresses from `KERNEL_START_ADDR` up to `end`. -/
def kernelPages : List Nat := (List.range 25).map fun i => KERNEL_START_ADDR + PAGESIZE * i

/-- The assertions of `check_page_table_mappings(pt)`. -/
def PageTableMappings (m : Mem) (pt : Nat) : Prop :=
  pteAddr pt = pt ∧
  (∀ va ∈ kernelPages, (virtualMemoryLookup m pt va).pa = va ∧
    (startData ≤ va → (virtualMemoryLookup m pt va).perm &&& PTE_W ≠ 0)) ∧
  (virtualMemoryLookup m pt (KERNEL_STACK_TOP - PAGESIZE)).pa = KERNEL_STACK_TOP - PAGESIZE ∧
  (virtualMemoryLookup m pt (KERNEL_STACK_TOP - PAGESIZE)).perm &&& PTE_W ≠ 0

instance (m : Mem) (pt : Nat) : Decidable (PageTableMappings m pt) :=
  inferInstanceAs (Decidable (_ ∧ _ ∧ _ ∧ _))

/-- `check_page_table_ownership_level(pt, level, owner, refcount)`, by the number of levels below. -/
def ownershipLevel (m : Mem) (info : Nat → PageInfo) (owner : Int) : Nat → Nat → Int → Bool
  | 0, pt, refcount =>
      pageNumber pt < 512 && (info (pageinfoIndex pt)).owner == owner &&
        (info (pageinfoIndex pt)).refcount == refcount
  | below + 1, pt, refcount =>
      pageNumber pt < 512 && (info (pageinfoIndex pt)).owner == owner &&
        (info (pageinfoIndex pt)).refcount == refcount &&
        (List.range 512).all fun index =>
          entry m pt index == 0 || ownershipLevel m info owner below (pteAddr (entry m pt index)) 1

/-- `check_page_table_ownership(pt, pid)` for the kernel's page table. -/
def KernelTableOwnership (s : State) : Prop :=
  ownershipLevel s.mem s.pageinfo PO_KERNEL 3 kernelPagetable
    (1 + ((List.range NPROC).countP fun pid =>
      (s.processes pid).state ≠ .free ∧ (s.processes pid).pagetable = kernelPagetable)) = true

instance (s : State) : Decidable (KernelTableOwnership s) := inferInstanceAs (Decidable (_ = true))

/-- `check_page_table_ownership(pt, pid)` for the page table of a process. -/
def TableOwnership (s : State) (pid : Nat) : Prop :=
  ownershipLevel s.mem s.pageinfo pid 3 (s.processes pid).pagetable 1 = true

instance (s : State) (pid : Nat) : Decidable (TableOwnership s pid) :=
  inferInstanceAs (Decidable (_ = true))

/-- The last loop of `check_virtual_memory`: referenced pages belong to active processes. -/
def OwnersActive (s : State) : Prop :=
  ∀ pn ∈ List.range 512, 0 < (s.pageinfo pn).refcount → 0 ≤ (s.pageinfo pn).owner →
    (s.processes (s.pageinfo pn).owner.toNat).state ≠ .free

instance (s : State) : Decidable (OwnersActive s) := inferInstanceAs (Decidable (∀ _ ∈ _, _))

/-- The assertions of `check_virtual_memory()`. -/
def VirtualMemoryOk (s : State) : Prop :=
  (s.processes 0).state = .free ∧
  PageTableMappings s.mem kernelPagetable ∧ KernelTableOwnership s ∧
  (∀ pid ∈ List.range NPROC, (s.processes pid).state ≠ .free →
    (s.processes pid).pagetable ≠ kernelPagetable →
      PageTableMappings s.mem (s.processes pid).pagetable ∧ TableOwnership s pid) ∧
  OwnersActive s

instance (s : State) : Decidable (VirtualMemoryOk s) :=
  inferInstanceAs (Decidable (_ ∧ _ ∧ _ ∧ (∀ _ ∈ _, _) ∧ _))

/-- `check_virtual_memory()`. -/
def checkVirtualMemory (s : State) : Outcome Unit := assert (VirtualMemoryOk s)

/-! ## The memory viewer -/

/-- The page addresses of an address space up to `MEMSIZE_VIRTUAL`. -/
def virtualPages : List Nat := (List.range 768).map fun i => PAGESIZE * i

/-- The assertions of `memshow_virtual(pagetable, name)`. -/
def Showable (m : Mem) (pagetable : Nat) : Prop :=
  pagetable = pteAddr pagetable ∧
  ∀ va ∈ virtualPages, (virtualMemoryLookup m pagetable va).pn < 0 ∨
    (virtualMemoryLookup m pagetable va).pa < MEMSIZE_PHYSICAL

instance (m : Mem) (pagetable : Nat) : Decidable (Showable m pagetable) :=
  inferInstanceAs (Decidable (_ ∧ ∀ _ ∈ _, _))

/-- The loop of `memshow_virtual_animate` that skips dead processes; it ends above `2 * NPROC`. -/
def skipFree (processes : Nat → Proc) : Nat → Nat → Nat
  | 0, showing => showing
  | fuel + 1, showing =>
      if showing ≤ 2 * NPROC ∧ (processes (showing % NPROC)).state = .free then
        skipFree processes fuel (showing + 1)
      else showing

/-- `memshow_virtual_animate()`. -/
def memshowVirtualAnimate (s : State) : Outcome State := do
  let turn := s.lastTicks = 0 ∨ 50 ≤ (s.ticks + 2 ^ 32 - s.lastTicks) % 2 ^ 32
  let s := if turn then { s with lastTicks := s.ticks, showing := s.showing + 1 } else s
  let s := { s with showing := skipFree s.processes (2 * NPROC + 1) s.showing % NPROC }
  let p := s.processes s.showing
  if p.state ≠ .free ∧ p.displayStatus then assert (Showable s.mem p.pagetable)
  .ok s

/-! ## System calls -/

/-- `sizeof(vamapping)`. -/
abbrev vamappingSize : Nat := 24

/-- A `vamapping` written to memory. The two padding words, which C leaves open, are 0. -/
def storeVamapping (m : Mem) (a : Nat) (v : Vamapping) : Mem :=
  storeLE (storeLE (storeLE m a 8 (v.pn % 2 ^ 32).toNat) (a + 8) 8 v.pa) (a + 16) 8 v.perm

/-- `syscall_mapping(p)`: the new memory. The kernel faults, and panics over it, when the copy runs off
the end of physical memory. -/
def syscallMapping (m : Mem) (pagetable mappingPtr ptr : Nat) : Outcome Mem :=
  let map := virtualMemoryLookup m pagetable mappingPtr
  let endaddr := (mappingPtr + vamappingSize - 1) % 2 ^ 64
  if map.perm &&& (PTE_W ||| PTE_U) ≠ PTE_W ||| PTE_U then .ok m
  else if pageNumber endaddr ≠ pageNumber ptr ∧
      (virtualMemoryLookup m pagetable endaddr).perm &&& (PTE_W ||| PTE_P) ≠ PTE_W ||| PTE_P then .ok m
  else if MEMSIZE_PHYSICAL < map.pa + vamappingSize then .error .panic
  else .ok (storeVamapping m map.pa (virtualMemoryLookup m pagetable ptr))

/-- `syscall_mem_tog(process)`. -/
def syscallMemTog (s : State) (pid : Nat) : State :=
  let p := s.processes pid
  let target := toInt32 (p.registers .rdi)
  if target = 0 then { s with dispGlobal := !s.dispGlobal }
  else if target < 0 ∨ target > NPROC ∨ target ≠ pid then s
  else s.setProc pid { p with displayStatus := !p.displayStatus }

/-- `current->p_registers.reg_rax = result`. -/
def setRax (s : State) (result : Int) : State :=
  s.setProc s.current { s.processes s.current with
    registers := Function.update (s.processes s.current).registers .rax (signExtend result) }

/-- The current process is marked broken and freed. -/
def killCurrent (s : State) : Outcome State :=
  processFree (s.setProc s.current { s.processes s.current with state := .broken }) s.current

/-- The page-fault case of `exception`. -/
def pageFault (s : State) (reg : Registers) (addr : Nat) : Outcome State :=
  let p := s.processes s.current
  if reg .err &&& PFERR_PRESENT = 0 ∧ addr < p.programBreak ∧ p.originalBreak ≤ addr then
    let page := palloc s s.current
    if page.2 = NULL then killCurrent page.1
    else do
      let map ← virtualMemoryMap page.1.mem p.pagetable (roundDownPage addr) page.2 PAGESIZE
        (PTE_W ||| PTE_P ||| PTE_U)
      let s := { page.1 with mem := map.1 }
      if map.2 = -1 then killCurrent s else .ok s
  else if reg .err &&& PFERR_USER = 0 then .error .panic
  else killCurrent s

/-- What the interrupt case has decided about the process that runs next. -/
inductive After where
  | back
  | reschedule
  deriving DecidableEq, Repr

/-- The switch of `exception`. -/
def dispatch (s : State) (reg : Registers) (cr2 : Nat) : Outcome (State × After) :=
  if reg .intno = INT_SYS_PANIC then .error .panic
  else if reg .intno = INT_SYS_GETPID then .ok (setRax s s.current, .back)
  else if reg .intno = INT_SYS_FORK then do
    let result ← processFork s s.current
    .ok (setRax result.1 result.2, .back)
  else if reg .intno = INT_SYS_MAPPING then do
    let p := s.processes s.current
    let mem ← syscallMapping s.mem p.pagetable (p.registers .rdi) (p.registers .rsi)
    .ok ({ s with mem := mem }, .back)
  else if reg .intno = INT_SYS_EXIT then do
    let s ← processFree s s.current
    .ok (s, .reschedule)
  else if reg .intno = INT_SYS_YIELD then .ok (s, .reschedule)
  else if reg .intno = INT_SYS_BRK then do
    let result ← brk s s.current ((s.processes s.current).registers .rdi)
    .ok (setRax result.1 result.2, .back)
  else if reg .intno = INT_SYS_SBRK then do
    let result ← sbrk s s.current ((s.processes s.current).registers .rdi)
    .ok (setRax result.1 result.2, .back)
  else if reg .intno = INT_SYS_PAGE_ALLOC then do
    -- the result of `syscall_page_alloc` is not stored
    let result ← processPageAlloc s s.current (reg .rdi)
    .ok (result.1, .back)
  else if reg .intno = INT_SYS_MEM_TOG then .ok (syscallMemTog s s.current, .back)
  else if reg .intno = INT_TIMER then
    .ok ({ s with ticks := (s.ticks + 1) % 2 ^ 32 }, .reschedule)
  else if reg .intno = INT_PAGEFAULT then do
    let s ← pageFault s reg cr2
    .ok (s, .back)
  else .error .panic

section Cases

variable {s : State} {reg : Registers} {cr2 : Nat}

theorem dispatch_getpid (hintno : reg .intno = INT_SYS_GETPID) :
    dispatch s reg cr2 = .ok (setRax s s.current, .back) := by
  unfold dispatch
  simp only [hintno]
  rfl

theorem dispatch_fork (hintno : reg .intno = INT_SYS_FORK) :
    dispatch s reg cr2 = (do
      let result ← processFork s s.current
      .ok (setRax result.1 result.2, .back)) := by
  unfold dispatch
  simp only [hintno]
  rfl

theorem dispatch_exit (hintno : reg .intno = INT_SYS_EXIT) :
    dispatch s reg cr2 = (do
      let s ← processFree s s.current
      .ok (s, .reschedule)) := by
  unfold dispatch
  simp only [hintno]
  rfl

theorem dispatch_yield (hintno : reg .intno = INT_SYS_YIELD) :
    dispatch s reg cr2 = .ok (s, .reschedule) := by
  unfold dispatch
  simp only [hintno]
  rfl

theorem dispatch_brk (hintno : reg .intno = INT_SYS_BRK) :
    dispatch s reg cr2 = (do
      let result ← brk s s.current ((s.processes s.current).registers .rdi)
      .ok (setRax result.1 result.2, .back)) := by
  unfold dispatch
  simp only [hintno]
  rfl

theorem dispatch_sbrk (hintno : reg .intno = INT_SYS_SBRK) :
    dispatch s reg cr2 = (do
      let result ← sbrk s s.current ((s.processes s.current).registers .rdi)
      .ok (setRax result.1 result.2, .back)) := by
  unfold dispatch
  simp only [hintno]
  rfl

theorem dispatch_pageAlloc (hintno : reg .intno = INT_SYS_PAGE_ALLOC) :
    dispatch s reg cr2 = (do
      let result ← processPageAlloc s s.current (reg .rdi)
      .ok (result.1, .back)) := by
  unfold dispatch
  simp only [hintno]
  rfl

theorem dispatch_timer (hintno : reg .intno = INT_TIMER) :
    dispatch s reg cr2 = .ok ({ s with ticks := (s.ticks + 1) % 2 ^ 32 }, .reschedule) := by
  unfold dispatch
  simp only [hintno]
  rfl

theorem dispatch_pageFault (hintno : reg .intno = INT_PAGEFAULT) :
    dispatch s reg cr2 = (do
      let s ← pageFault s reg cr2
      .ok (s, .back)) := by
  unfold dispatch
  simp only [hintno]
  rfl

end Cases

/-! ## Scheduling -/

/-- `run(p)`. -/
def run (s : State) (pid : Nat) : Outcome (State × Option Nat) := do
  assert ((s.processes pid).state = .runnable)
  setPagetable s.mem (s.processes pid).pagetable
  .ok ({ s with current := pid }, some pid)

/-- `schedule()`: the next runnable process after the current one. -/
def schedule (s : State) : Outcome (State × Option Nat) :=
  let order := (List.range NPROC).map fun i => (s.current + 1 + i) % NPROC
  match order.find? fun pid => (s.processes pid).state = .runnable with
  | some pid => run s pid
  | none => .ok (s, none)

/-- The checks that `exception` runs unless the kernel itself has faulted. -/
def checks (s : State) (reg : Registers) : Outcome State :=
  if (reg .intno ≠ INT_PAGEFAULT ∧ reg .intno ≠ INT_GPF) ∨ reg .err &&& PFERR_USER ≠ 0 then do
    checkVirtualMemory s
    if s.dispGlobal then memshowVirtualAnimate s else .ok s
  else .ok s

/-- The current process returns, or another one runs. -/
def resume (s : State) (after : After) : Outcome (State × Option Nat) :=
  if after = .back ∧ (s.processes s.current).state = .runnable then run s s.current else schedule s

/-- `exception(reg)`, with the faulting address in `cr2`. -/
def exception (s : State) (reg : Registers) (cr2 : Nat) : Outcome (State × Option Nat) := do
  let s := s.setProc s.current { s.processes s.current with registers := reg }
  setPagetable s.mem kernelPagetable
  let s ← checks s reg
  let result ← dispatch s reg cr2
  resume result.1 result.2

end MemoryManagement.Kernel
