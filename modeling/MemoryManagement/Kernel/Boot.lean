import MemoryManagement.Kernel.Exception

/-!
# Booting

Translation of `kernel` of `kernel/kernel.c` up to the first `run`: `virtual_memory_init` of
`kernel/vm.c`, `pageinfo_init`, `process_setup`, and the loader of `kernel/k-loader.c`.

The RAM images are `obj/p-allocator`, `obj/p-malloc`, `obj/p-alloctests` and `obj/p-test`. Their program
headers are those of the files; the bytes of the files are a parameter, and so is what the memory holds
when the kernel starts.
-/

set_option autoImplicit false

namespace MemoryManagement.Kernel

open MemoryManagement.Library.ByteMemory

/-! ## Memory -/

abbrev IOPHYSMEM : Nat := 0xA0000

abbrev EXTPHYSMEM : Nat := 0x100000

/-- `physical_memory_isreserved(pa)`. -/
def PhysicalMemoryIsReserved (pa : Nat) : Prop := pa = 0 ∨ IOPHYSMEM ≤ pa ∧ pa < EXTPHYSMEM

instance (pa : Nat) : Decidable (PhysicalMemoryIsReserved pa) := inferInstanceAs (Decidable (_ ∨ _ ∧ _))

/-- The owner that `pageinfo_init` gives to the page at `addr`. -/
def initialOwner (addr : Nat) : Int :=
  if PhysicalMemoryIsReserved addr then PO_RESERVED
  else if (KERNEL_START_ADDR ≤ addr ∧ addr < kernelEnd) ∨ addr = KERNEL_STACK_TOP - PAGESIZE then
    PO_KERNEL
  else PO_FREE

/-- `pageinfo_init()`. -/
def pageinfoInit (pn : Nat) : PageInfo :=
  ⟨initialOwner (pn * PAGESIZE), if initialOwner (pn * PAGESIZE) ≠ PO_FREE then 1 else 0⟩

/-- The page addresses of physical memory. -/
def physicalPages : List Nat := (List.range 512).map fun pn => pn * PAGESIZE

/-- The check of `virtual_memory_init` that the kernel is identity mapped. -/
def IdentityMapped (m : Mem) : Prop :=
  ∀ addr ∈ physicalPages, (virtualMemoryLookup m kernelPagetable addr).pa = addr ∧
    (virtualMemoryLookup m kernelPagetable addr).perm &&& (PTE_P ||| PTE_W) = PTE_P ||| PTE_W

instance (m : Mem) : Decidable (IdentityMapped m) := inferInstanceAs (Decidable (∀ _ ∈ _, _))

/-- `virtual_memory_init()`. -/
def virtualMemoryInit (m : Mem) : Outcome Mem := do
  let cleared := memset m kernelPagetable 0 (5 * PAGESIZE)
  let linked := linkTables cleared kernelPagetable (kernelPagetable + PAGESIZE)
    (kernelPagetable + 2 * PAGESIZE) (kernelPagetable + 3 * PAGESIZE) (kernelPagetable + 4 * PAGESIZE)
  let map ← virtualMemoryMap linked kernelPagetable 0 0 MEMSIZE_PHYSICAL (PTE_P ||| PTE_W ||| PTE_U)
  assert (IdentityMapped map.1)
  setPagetable map.1 kernelPagetable
  .ok map.1

/-! ## The loader -/

abbrev ELF_MAGIC : Nat := 0x464C457F

abbrev ELF_PTYPE_LOAD : Nat := 1

abbrev ELF_PFLAG_WRITE : Nat := 2

/-- `elf_program`. -/
structure ElfProgram where
  pType : Nat
  pFlags : Nat
  pOffset : Nat
  pVa : Nat
  pFilesz : Nat
  pMemsz : Nat
  deriving DecidableEq, Repr

/-- A program image: its header, its program headers and the bytes of the file. -/
structure RamImage where
  eMagic : Nat
  eEntry : Nat
  programs : List ElfProgram
  bytes : Nat → UInt8

/-- A byte written by the kernel through the page table that is in force. The write faults, and the
kernel panics over it, unless the page is present and writable. -/
def storeByte (m : Mem) (pagetable va : Nat) (b : UInt8) : Outcome Mem :=
  let map := virtualMemoryLookup m pagetable va
  if map.perm &&& (PTE_P ||| PTE_W) = PTE_P ||| PTE_W ∧ map.pa < MEMSIZE_PHYSICAL then
    .ok (Function.update m map.pa b)
  else .error .panic

/-- `n` bytes from `src`, from its index `k` on, written through a page table. -/
def storeBytes (pagetable : Nat) (src : Nat → UInt8) : Nat → Mem → Nat → Nat → Outcome Mem
  | 0, m, _, _ => .ok m
  | n + 1, m, va, k => do
      let m ← storeByte m pagetable va (src k)
      storeBytes pagetable src n m ((va + 1) % 2 ^ 64) (k + 1)

/-- The loop of `program_load_segment` that allocates the pages from `addr` up to `endMem`. It takes a
page of physical memory in each round, so that `fuel` for more rounds than there are pages is enough. -/
def loadPages (pid endMem : Nat) : Nat → State → Nat → Outcome (State × Bool)
  | 0, _, _ => .error .endless
  | fuel + 1, s, addr =>
      if addr < endMem then
        let page := palloc s pid
        if page.2 = NULL then .ok (page.1, false)
        else do
          let map ← virtualMemoryMap page.1.mem (page.1.processes pid).pagetable addr page.2 PAGESIZE
            (PTE_W ||| PTE_P ||| PTE_U)
          if map.2 < 0 then .ok ({ page.1 with mem := map.1 }, false)
          else loadPages pid endMem fuel { page.1 with mem := map.1 } ((addr + PAGESIZE) % 2 ^ 64)
      else .ok (s, true)

/-- The loop of `program_load_segment` that takes the write permission away. -/
def protectPages (pagetable endMem : Nat) : Nat → Mem → Nat → Outcome Mem
  | 0, _, _ => .error .endless
  | fuel + 1, m, addr =>
      if addr < endMem then do
        let mapping := virtualMemoryLookup m pagetable addr
        let map ← virtualMemoryMap m pagetable addr mapping.pa PAGESIZE (PTE_P ||| PTE_U)
        protectPages pagetable endMem fuel map.1 ((addr + PAGESIZE) % 2 ^ 64)
      else .ok m

/-- `program_load_segment(p, ph, src, allocator)`; `false` for the return value -1. -/
def programLoadSegment (s : State) (pid : Nat) (ph : ElfProgram) (src : Nat → UInt8) :
    Outcome (State × Bool) := do
  let endFile := (ph.pVa + ph.pFilesz) % 2 ^ 64
  let endMem := (ph.pVa + ph.pMemsz) % 2 ^ 64
  let va := roundDownPage ph.pVa
  let pages ← loadPages pid endMem (2 ^ 64) s va
  let s := pages.1
  if pages.2 then do
    let pagetable := (s.processes pid).pagetable
    setPagetable s.mem pagetable
    let copied ← storeBytes pagetable src ((endFile + 2 ^ 64 - va) % 2 ^ 64) s.mem va 0
    let filled ← storeBytes pagetable (fun _ => 0) ((endMem + 2 ^ 64 - endFile) % 2 ^ 64) copied endFile 0
    setPagetable filled kernelPagetable
    let mem ←
      if ph.pFlags &&& ELF_PFLAG_WRITE = 0 then protectPages pagetable endMem (2 ^ 64) filled va
      else .ok filled
    .ok ({ s.setProc pid { s.processes pid with
      originalBreak := roundUpPage endMem
      programBreak := roundUpPage endMem } with mem := mem }, true)
  else .ok (s, false)

/-- The loop of `program_load` over the program headers. -/
def loadSegments (pid : Nat) (image : RamImage) : List ElfProgram → State → Outcome (State × Bool)
  | [], s => .ok (s, true)
  | ph :: rest, s => do
      let next ←
        if ph.pType = ELF_PTYPE_LOAD then
          programLoadSegment s pid ph fun k => image.bytes (ph.pOffset + k)
        else .ok (s, true)
      if next.2 then loadSegments pid image rest next.1 else .ok next

/-- `process_load(p, programnumber)` with the image of that number; `false` for -1. -/
def processLoad (s : State) (pid : Nat) (image : RamImage) : Outcome (State × Bool) := do
  assert (image.eMagic = ELF_MAGIC)
  let next ← loadSegments pid image image.programs s
  if next.2 then
    let p := next.1.processes pid
    .ok (next.1.setProc pid { p with registers := Function.update p.registers .rip image.eEntry }, true)
  else .ok next

/-! ## The images -/

/-- The two segments that the linker scripts lay out: text and data. -/
def segments (text textSize data dataSize : Nat) : List ElfProgram :=
  [⟨ELF_PTYPE_LOAD, 5, 0xB0, text, textSize, textSize⟩, ⟨ELF_PTYPE_LOAD, 6, 0, data, 0, dataSize⟩]

/-- `ramimages`, with the bytes of the files. -/
def ramimages (bytes : Nat → Nat → UInt8) : Nat → RamImage
  | 0 => ⟨ELF_MAGIC, 0x1C0000, segments 0x1C0000 0x14F1 0x1C2000 0x28, bytes 0⟩
  | 1 => ⟨ELF_MAGIC, 0x100000, segments 0x100000 0x18A1 0x102000 0x48, bytes 1⟩
  | 2 => ⟨ELF_MAGIC, 0x2C0000, segments 0x2C0000 0x1C31 0x2C2000 0x38, bytes 2⟩
  | n => ⟨ELF_MAGIC, 0x100000, segments 0x100000 0x1C91 0x102000 0x50, bytes n⟩

/-! ## Processes -/

/-- `process_setup(pid, program_number)`. -/
def processSetup (bytes : Nat → Nat → UInt8) (s : State) (pid programNumber : Nat) : Outcome State := do
  let config ← processConfigTables (processInit s pid) pid
  assert (config.2 = 0)
  let load ← processLoad config.1 pid (ramimages bytes programNumber)
  assert (load.2 = true)
  let s ← processSetupStack load.1 pid
  .ok (s.setProc pid { s.processes pid with state := .runnable })

/-- The processes that `kernel(command)` sets up: process and program numbers. -/
def initialPrograms (command : Option String) : List (Nat × Nat) :=
  if command = some "malloc" then [(1, 1)]
  else if command = some "alloctests" then [(1, 2)]
  else if command = some "test" then [(1, 3)]
  else if command = some "test2" then [(1, 3), (2, 3)]
  else [(1, 0)]

/-- Processes are set up one after the other. -/
def setupAll (bytes : Nat → Nat → UInt8) : List (Nat × Nat) → State → Outcome State
  | [], s => .ok s
  | (pid, programNumber) :: rest, s => do
      let s ← processSetup bytes s pid programNumber
      setupAll bytes rest s

/-- A slot of `processes` after `memset`. -/
def zeroProc : Proc := ⟨0, 0, fun _ => 0, .free, NULL, false⟩

/-- `kernel(command)` up to and including its `run(&processes[1])`. -/
def kernel (bytes : Nat → Nat → UInt8) (m : Mem) (command : Option String) :
    Outcome (State × Option Nat) := do
  let mem ← virtualMemoryInit m
  let s ← setupAll bytes (initialPrograms command)
    ⟨mem, pageinfoInit, fun _ => zeroProc, 0, 0, true, 0, 1⟩
  run s 1

end MemoryManagement.Kernel
