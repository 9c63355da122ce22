import MemoryManagement.Kernel.Paging

/-!
# Kernel state and process functions

Translation of the state of `kernel/kernel.c` and of the functions that create, copy, free and resize
processes: `palloc`, `process_free`, `process_config_tables`, `process_setup_stack`, `find_free_pid`,
`process_fork` and `process_page_alloc` as `obj/kernel.asm` shows them, `process_init` of
`kernel/k-hardware.c`, and `sbrk` and `brk` of `kernel/kernel.c`.

Page tables and user pages live in the byte-addressed physical memory, which the kernel reaches at
identity-mapped addresses. The arrays `pageinfo` and `processes` are functions; `p_pid` is the index
of a slot. `int8_t` fields are integers wrapped to 8 bits at every change. Text written to the console
and the log is left out.
-/

set_option autoImplicit false

namespace MemoryManagement.Kernel

open MemoryManagement.Library.ByteMemory

/-! ## Constants -/

/-- First application-accessible address. -/
abbrev PROC_START_ADDR : Nat := 0x100000

/-- Virtual memory size. -/
abbrev MEMSIZE_VIRTUAL : Nat := 0x300000

abbrev NPROC : Nat := 16

abbrev KERNEL_START_ADDR : Nat := 0x40000

abbrev KERNEL_STACK_TOP : Nat := 0x80000

abbrev CONSOLE_ADDR : Nat := 0xB8000

/-- `end`, the first address after the kernel. -/
abbrev kernelEnd : Nat := 0x58010

/-- `kernel_pagetable`, the first of the five pages of `kernel_pagetables`. -/
abbrev kernelPagetable : Nat := 0x53000

abbrev PO_FREE : Int := 0

abbrev PO_RESERVED : Int := -1

abbrev PO_KERNEL : Int := -2

/-- Conversion to an `int8_t`. -/
def toInt8 (x : Int) : Int := Int.bmod x 256

/-- Conversion of an `int` to a 64-bit register. -/
def signExtend (x : Int) : Nat := (x % 2 ^ 64).toNat

/-- `ROUNDDOWN(a, PAGESIZE)`. -/
def roundDownPage (a : Nat) : Nat := a - a % PAGESIZE

/-- `ROUNDUP(a, PAGESIZE)`. -/
def roundUpPage (a : Nat) : Nat := roundDownPage ((a + PAGESIZE - 1) % 2 ^ 64)

/-! ## State -/

/-- `physical_pageinfo`. -/
structure PageInfo where
  owner : Int
  refcount : Int
  deriving DecidableEq, Repr

/-- `procstate_t`. -/
inductive ProcState where
  | free
  | runnable
  | blocked
  | broken
  deriving DecidableEq, Repr

/-- The fields of `x86_64_registers`. -/
inductive Reg where
  | rax | rcx | rdx | rbx | rbp | rsi | rdi
  | r8 | r9 | r10 | r11 | r12 | r13 | r14 | r15
  | fs | gs | intno | err | rip | cs | rflags | rsp | ss
  deriving DecidableEq, Repr

/-- `x86_64_registers`. -/
abbrev Registers := Reg → Nat

/-- `proc`. -/
structure Proc where
  programBreak : Nat
  originalBreak : Nat
  registers : Registers
  state : ProcState
  pagetable : Nat
  displayStatus : Bool

/-- The kernel's variables and physical memory. -/
structure State where
  mem : Mem
  pageinfo : Nat → PageInfo
  processes : Nat → Proc
  current : Nat
  ticks : Nat
  dispGlobal : Bool
  -- the static variables of `memshow_virtual_animate`
  lastTicks : Nat
  showing : Nat

/-- A slot of `processes` is overwritten. -/
def State.setProc (s : State) (pid : Nat) (p : Proc) : State :=
  { s with processes := Function.update s.processes pid p }

@[simp] theorem State.setProc_self (s : State) (pid : Nat) (p : Proc) :
    (s.setProc pid p).processes pid = p :=
  Function.update_self ..

theorem State.setProc_other (s : State) {pid pid' : Nat} (p : Proc) (h : pid' ≠ pid) :
    (s.setProc pid p).processes pid' = s.processes pid' :=
  Function.update_of_ne h ..

theorem State.setProc_pagetable (s : State) {pid : Nat} {p : Proc}
    (hroot : p.pagetable = (s.processes pid).pagetable) (j : Nat) :
    ((s.setProc pid p).processes j).pagetable = (s.processes j).pagetable := by
  by_cases hj : j = pid
  · rw [hj, State.setProc_self, hroot]
  · rw [State.setProc_other s p hj]

@[simp] theorem State.setProc_mem (s : State) (pid : Nat) (p : Proc) : (s.setProc pid p).mem = s.mem :=
  rfl

@[simp] theorem State.setProc_pageinfo (s : State) (pid : Nat) (p : Proc) :
    (s.setProc pid p).pageinfo = s.pageinfo :=
  rfl

/-- `pageinfo[PAGENUMBER(ptr)]` is addressed by this index. -/
def pageinfoIndex (ptr : Nat) : Nat := (pageNumber ptr).toNat

/-! ## Physical pages -/

/-- `refcount--`, and the page is free when nothing refers to it any more. -/
def dropReference (info : Nat → PageInfo) (pn : Nat) : Nat → PageInfo :=
  let count := toInt8 ((info pn).refcount - 1)
  Function.update info pn ⟨if count = 0 then PO_FREE else (info pn).owner, count⟩

/-- `refcount++`. -/
def addReference (info : Nat → PageInfo) (pn : Nat) : Nat → PageInfo :=
  Function.update info pn ⟨(info pn).owner, toInt8 ((info pn).refcount + 1)⟩

/-- `owner = 0; refcount = 0`. -/
def clearPage (info : Nat → PageInfo) (pn : Nat) : Nat → PageInfo :=
  Function.update info pn ⟨PO_FREE, 0⟩

/-- The page that `palloc` takes: the first one without owner and references. -/
def findFreePage (info : Nat → PageInfo) : Option Nat :=
  (List.range' 1 511).find? fun pn => (info pn).owner = 0 ∧ (info pn).refcount = 0

/-- `palloc(pid)`: the new state and the address of the page, `NULL` when there is none. -/
def palloc (s : State) (pid : Nat) : State × Nat :=
  match findFreePage s.pageinfo with
  | some pn =>
      ({ s with
          pageinfo := Function.update s.pageinfo pn
            ⟨toInt8 pid, toInt8 ((s.pageinfo pn).refcount + 1)⟩
          mem := memset s.mem (pn * PAGESIZE) 0xCC PAGESIZE }, pn * PAGESIZE)
  | none => (s, NULL)

/-! ## Processes -/

/-- The page addresses of the user part of an address space. -/
def userPages : List Nat := (List.range 512).map fun i => PROC_START_ADDR + PAGESIZE * i

/-- The page-table pages that `process_free` finds below a root. -/
def tablePages (m : Mem) (root : Nat) : List Nat :=
  let l2 := pteAddr (entry m root 0)
  let l3 := pteAddr (entry m l2 0)
  [root, l2, l3, pteAddr (entry m l3 0), pteAddr (entry m l3 1)]

/-- The loop of `process_free` over the user pages. -/
def freePages (m : Mem) (pagetable : Nat) : List Nat → (Nat → PageInfo) → Nat → PageInfo
  | [], info => info
  | va :: rest, info =>
      let vmap := virtualMemoryLookup m pagetable va
      freePages m pagetable rest
        (if vmap.perm &&& PTE_P ≠ 0 then dropReference info vmap.pn.toNat else info)

/-- The end of `process_free`: page-table pages are given back, each with reference count 1. -/
def freeTables : List Nat → (Nat → PageInfo) → Outcome (Nat → PageInfo)
  | [], info => .ok info
  | t :: rest, info => do
      assert ((info (pageinfoIndex t)).refcount = 1)
      freeTables rest (clearPage info (pageinfoIndex t))

/-- `process_free(pid)`. -/
def processFree (s : State) (pid : Nat) : Outcome State := do
  let p := s.processes pid
  let info ← freeTables (tablePages s.mem p.pagetable)
    (freePages s.mem p.pagetable userPages s.pageinfo)
  .ok { s.setProc pid { p with state := .free } with pageinfo := info }

/-- Entries that link the five pages of a new page table. -/
def linkTables (m : Mem) (l1 l2 l3 l4a l4b : Nat) : Mem :=
  let m := setEntry m l1 0 (l2 ||| 7)
  let m := setEntry m l2 0 (l3 ||| 7)
  let m := setEntry m l3 0 (l4a ||| 7)
  setEntry m l3 1 (l4b ||| 7)

/-- Gives the pages of a page table that could not be built back. -/
def clearTables (info : Nat → PageInfo) : List Nat → Nat → PageInfo
  | [] => info
  | t :: rest => clearTables (if t ≠ NULL then clearPage info (pageinfoIndex t) else info) rest

/-- Clears pages of a new page table. -/
def zeroPages (m : Mem) : List Nat → Mem
  | [] => m
  | t :: rest => zeroPages (memset m t 0 PAGESIZE) rest

/-- `process_config_tables(pid)`. -/
def processConfigTables (s : State) (pid : Nat) : Outcome (State × Int) :=
  let a := palloc s pid
  let b := palloc a.1 pid
  let c := palloc b.1 pid
  let d := palloc c.1 pid
  let e := palloc d.1 pid
  let s := e.1
  let tables := [a.2, b.2, c.2, d.2, e.2]
  let failed : State × Int := ({ s with pageinfo := clearTables s.pageinfo tables }, -1)
  if NULL ∈ tables then .ok failed
  else do
    let mem := linkTables (zeroPages s.mem tables) a.2 b.2 c.2 d.2 e.2
    let low ← virtualMemoryMap mem a.2 0 0 PROC_START_ADDR (PTE_P ||| PTE_W)
    if low.2 ≠ 0 then .ok ({ failed.1 with mem := low.1 }, -1)
    else do
      let console ← virtualMemoryMap low.1 a.2 CONSOLE_ADDR CONSOLE_ADDR PAGESIZE
        (PTE_P ||| PTE_W ||| PTE_U)
      if console.2 ≠ 0 then .ok ({ failed.1 with mem := console.1 }, -1)
      else
        .ok ({ s.setProc pid { s.processes pid with pagetable := a.2 } with mem := console.1 }, 0)

/-- `process_setup_stack(p)`. -/
def processSetupStack (s : State) (pid : Nat) : Outcome State := do
  let page := palloc s pid
  let s := page.1
  let p := s.processes pid
  let map ← virtualMemoryMap s.mem p.pagetable (MEMSIZE_VIRTUAL - PAGESIZE) page.2 PAGESIZE
    (PTE_P ||| PTE_W ||| PTE_U)
  .ok { s.setProc pid { p with registers := Function.update p.registers .rsp MEMSIZE_VIRTUAL } with
    mem := map.1 }

/-- The registers that `process_init(p, 0)` sets up. -/
def initialRegisters : Registers
  | .cs => 0x10 ||| 3
  | .fs => 0x20 ||| 3
  | .gs => 0x20 ||| 3
  | .ss => 0x20 ||| 3
  | .rflags => 0x200
  | _ => 0

/-- `process_init(p, 0)`. -/
def processInit (s : State) (pid : Nat) : State :=
  s.setProc pid { s.processes pid with registers := initialRegisters, displayStatus := true }

/-- `find_free_pid()`, `none` for -1. -/
def findFreePid (s : State) : Option Nat :=
  (List.range' 1 15).find? fun pid => (s.processes pid).state = .free

/-- One page of the loop of `process_fork`; `false` when the child cannot get the page. -/
def forkPage (parent child : Nat) (s : State) (va : Nat) : Outcome (State × Bool) :=
  let vmap := virtualMemoryLookup s.mem (s.processes parent).pagetable va
  let pagetable := (s.processes child).pagetable
  if vmap.perm &&& 7 = 7 then
    let page := palloc s child
    if page.2 = NULL then .ok (page.1, false)
    else do
      let map ← virtualMemoryMap (memcpy page.1.mem page.2 vmap.pa PAGESIZE) pagetable va page.2
        PAGESIZE (PTE_P ||| PTE_W ||| PTE_U)
      .ok ({ page.1 with mem := map.1 }, map.2 = 0)
  else if vmap.perm &&& 5 = 5 then do
    let map ← virtualMemoryMap s.mem pagetable va vmap.pa PAGESIZE (PTE_P ||| PTE_U)
    if map.2 ≠ 0 then .ok ({ s with mem := map.1 }, false)
    else
      .ok ({ s with
        mem := map.1, pageinfo := addReference s.pageinfo (pageinfoIndex vmap.pa) }, true)
  else .ok (s, true)

/-- The loop of `process_fork`. A child that cannot get a page is freed. -/
def forkPages (parent child : Nat) : List Nat → State → Outcome (State × Bool)
  | [], s => .ok (s, true)
  | va :: rest, s => do
      let next ← forkPage parent child s va
      if next.2 then forkPages parent child rest next.1
      else do
        let s ← processFree next.1 child
        .ok (s, false)

/-- `process_fork(p)`. -/
def processFork (s : State) (parent : Nat) : Outcome (State × Int) :=
  match findFreePid s with
  | none => .ok (s, -1)
  | some child => do
      let config ← processConfigTables (processInit s child) child
      if config.2 = -1 then .ok config
      else do
        let copy ← forkPages parent child userPages config.1
        let s := copy.1
        if copy.2 then
          .ok (s.setProc child { s.processes child with
            registers := Function.update (s.processes parent).registers .rax 0
            state := .runnable }, child)
        else .ok (s, -1)

/-- `process_page_alloc(p, addr)`. -/
def processPageAlloc (s : State) (pid addr : Nat) : Outcome (State × Int) :=
  if addr < PROC_START_ADDR then .ok (s, -1)
  else
    let page := palloc s pid
    if page.2 = NULL then .ok (page.1, -1)
    else do
      let map ← virtualMemoryMap page.1.mem (page.1.processes pid).pagetable addr page.2 PAGESIZE
        (PTE_P ||| PTE_W ||| PTE_U)
      .ok ({ page.1 with mem := map.1 }, map.2)

/-! ## The program break -/

/-- One page of the loop of `sbrk`. -/
def sbrkPage (pid : Nat) (s : State) (i : Nat) : Outcome State :=
  let pagetable := (s.processes pid).pagetable
  let vmap := virtualMemoryLookup s.mem pagetable i
  if vmap.pn ≠ -1 then do
    let map ← virtualMemoryMap s.mem pagetable i vmap.pa PAGESIZE (PTE_W ||| PTE_U)
    .ok { s with mem := map.1, pageinfo := dropReference s.pageinfo vmap.pn.toNat }
  else .ok s

/-- The loop of `sbrk`, from `i` down to `low`. It visits every page address at most once unless it
never ends, which is what running out of `fuel` stands for. -/
def sbrkLoop (pid low : Nat) : Nat → State → Nat → Outcome State
  | 0, _, _ => .error .endless
  | fuel + 1, s, i =>
      if low ≤ i then do
        let s ← sbrkPage pid s i
        sbrkLoop pid low fuel s ((i + 2 ^ 64 - PAGESIZE) % 2 ^ 64)
      else .ok s

/-- Where `sbrk(p, difference)` asks the break to go. -/
def newBreak (p : Proc) (difference : Nat) : Nat := (p.programBreak + difference) % 2 ^ 64

/-- The test that `sbrk` makes of the new break. -/
def BreakAccepted (p : Proc) (difference : Nat) : Prop :=
  newBreak p difference < MEMSIZE_VIRTUAL - PAGESIZE ∧ p.originalBreak ≤ newBreak p difference

instance (p : Proc) (difference : Nat) : Decidable (BreakAccepted p difference) :=
  inferInstanceAs (Decidable (_ ∧ _))

/-- The sign bit of an `intptr_t`. -/
abbrev Negative (difference : Nat) : Prop := 2 ^ 63 ≤ difference

/-- `sbrk(p, difference)`. -/
def sbrk (s : State) (pid difference : Nat) : Outcome (State × Int) :=
  let p := s.processes pid
  if BreakAccepted p difference then do
    let s ←
      if Negative difference then
        sbrkLoop pid (roundDownPage (newBreak p difference)) (2 ^ 64) s (roundUpPage p.programBreak)
      else .ok s
    .ok (s.setProc pid { s.processes pid with programBreak := newBreak p difference },
      toInt32 p.programBreak)
  else .ok (s, -1)

/-- `brk(p, new_address)`. -/
def brk (s : State) (pid newAddress : Nat) : Outcome (State × Int) := do
  let result ← sbrk s pid ((newAddress + 2 ^ 64 - (s.processes pid).programBreak) % 2 ^ 64)
  .ok (result.1, if result.2 = -1 then -1 else 0)

end MemoryManagement.Kernel
