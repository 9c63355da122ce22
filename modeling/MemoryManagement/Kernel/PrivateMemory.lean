import MemoryManagement.Kernel.Exception
import Mathlib.Logic.Relation

/-!
# Processes with private memories

What the kernel is for, without page tables: each process has registers, a heap and a memory of its own, and
a trap of a process does to the process what the system call says (`Call`). The one event that concerns two
processes is `fork`, which starts a process with a copy of the memory (`Effect`). The kernel is shown to be an
implementation of this machine.
-/

set_option autoImplicit false

namespace MemoryManagement.Kernel

/-! ## Memories -/

/-- A byte that a process can read, and whether it can write it. -/
structure Cell where
  writable : Bool
  byte : UInt8

/-- The memory of a process, by virtual address. -/
abbrev Memory := Nat → Option Cell

/-- A page of fresh bytes has come in. -/
def Memory.fill (m : Memory) (page : Nat) : Memory :=
  fun va => if va / PAGESIZE = page then some ⟨true, 0xCC⟩ else m va

/-- The pages from `first` to `last` are gone. -/
def Memory.drop (m : Memory) (first last : Nat) : Memory :=
  fun va => if first ≤ va / PAGESIZE ∧ va / PAGESIZE ≤ last then none else m va

/-- Only bytes that are writable may differ. -/
def Stored (m m' : Memory) : Prop :=
  ∀ va, (m' va).map Cell.writable = (m va).map Cell.writable ∧
    ((m va).map Cell.writable ≠ some true → m' va = m va)

/-! ## Processes -/

/-- A slot for a process. The break of a slot without a process is the one that was left in it. -/
structure Slot where
  alive : Bool
  registers : Registers
  low : Nat
  high : Nat
  memory : Memory

namespace Slot

/-- A call has returned. -/
def returning (p : Slot) (result : Int) : Slot :=
  { p with registers := Function.update p.registers .rax (signExtend result) }

/-- The process has ended. -/
def ended (p : Slot) : Slot := { p with alive := false, registers := fun _ => 0, memory := fun _ => none }

/-- Where a break call wants the break to go. -/
def target (p : Slot) : Nat :=
  if p.registers .intno = INT_SYS_SBRK then (p.high + p.registers .rdi) % 2 ^ 64 else p.registers .rdi

/-- The break may go there. -/
def Accepts (p : Slot) : Prop := p.low ≤ p.target ∧ p.target < MEMSIZE_VIRTUAL - PAGESIZE

/-- The value of a break call that moves the break. -/
def oldBreak (p : Slot) : Int := if p.registers .intno = INT_SYS_SBRK then p.high else 0

/-- The break has moved, and a break that has moved down has taken pages along. -/
def moved (p : Slot) : Slot :=
  { p with
    high := p.target
    memory := if p.target < p.high then p.memory.drop (p.target / PAGESIZE) ((p.high + PAGESIZE - 1) / PAGESIZE)
      else p.memory }

/-- A heap address that has no page. -/
structure Missing (p : Slot) (addr : Nat) : Prop where
  start : PROC_START_ADDR ≤ addr
  low : p.low ≤ addr
  high : addr < p.high
  absent : p.memory addr = none

end Slot

/-- What a trap that is not a successful `fork` does to its process, whose registers have been saved. With
`full`, no page is left. -/
inductive Call (pid : Nat) (full : Bool) (addr : Nat) (p : Slot) : Slot → Prop where
  | getpid (h : p.registers .intno = INT_SYS_GETPID) : Call pid full addr p (p.returning pid)
  | back (h : p.registers .intno ∈ [INT_SYS_YIELD, INT_TIMER, INT_SYS_MEM_TOG]) : Call pid full addr p p
  | refused (h : p.registers .intno = INT_SYS_FORK) : Call pid full addr p (p.returning (-1))
  | exit (h : p.registers .intno = INT_SYS_EXIT) : Call pid full addr p p.ended
  | kept (h : p.registers .intno ∈ [INT_SYS_SBRK, INT_SYS_BRK]) (hnot : ¬ p.Accepts) :
      Call pid full addr p (p.returning (-1))
  | moved (h : p.registers .intno ∈ [INT_SYS_SBRK, INT_SYS_BRK]) (haccepts : p.Accepts) :
      Call pid full addr p (p.moved.returning p.oldBreak)
  | supplied (h : p.registers .intno = INT_PAGEFAULT) (hmissing : p.Missing addr) :
      Call pid full addr p { p with memory := p.memory.fill (addr / PAGESIZE) }
  | killed (h : p.registers .intno = INT_PAGEFAULT) (hwhy : p.Missing addr → full = true) :
      Call pid full addr p p.ended
  | denied (h : p.registers .intno = INT_SYS_PAGE_ALLOC)
      (hwhy : p.registers .rdi < PROC_START_ADDR ∨ full = true) : Call pid full addr p p
  | granted (h : p.registers .intno = INT_SYS_PAGE_ALLOC) (habsent : p.memory (p.registers .rdi) = none) :
      Call pid full addr p { p with memory := p.memory.fill (p.registers .rdi / PAGESIZE) }
  | mapping {m : Memory} (h : p.registers .intno = INT_SYS_MAPPING) (hstored : Stored p.memory m) :
      Call pid full addr p { p with memory := m }

/-- What a trap of the process `pid` does. -/
inductive Effect (pid : Nat) (full : Bool) (addr : Nat) (slots : Nat → Slot) : (Nat → Slot) → Prop where
  | own {p : Slot} (h : Call pid full addr (slots pid) p) :
      Effect pid full addr slots (Function.update slots pid p)
  | child {child : Nat} (h : (slots pid).registers .intno = INT_SYS_FORK)
      (hfree : (slots child).alive = false) :
      Effect pid full addr slots
        (Function.update (Function.update slots pid ((slots pid).returning child)) child
          { slots child with
            alive := true
            registers := Function.update (slots pid).registers .rax 0
            memory := (slots pid).memory })

/-! ## The machine -/

/-- All slots, the process that runs, and whether the pages are used up. -/
structure World where
  slots : Nat → Slot
  current : Nat
  full : Bool

/-- The registers of the running process are saved. -/
def World.saved (w : World) (reg : Registers) : Nat → Slot :=
  Function.update w.slots w.current { w.slots w.current with registers := reg }

/-- What happens: the running process stores to its memory, or it traps. -/
inductive Event where
  | stores
  | trap (reg : Registers) (addr : Nat)

/-- A step of the machine. After a trap a process that is there runs, or nobody does. -/
inductive World.Step (w : World) : Event → World → Prop where
  | stores {m : Memory} (halive : (w.slots w.current).alive = true)
      (h : Stored (w.slots w.current).memory m) :
      World.Step w .stores
        { w with slots := Function.update w.slots w.current { w.slots w.current with memory := m } }
  | trap {reg : Registers} {addr next : Nat} {slots : Nat → Slot} {full : Bool}
      (halive : (w.slots w.current).alive = true)
      (h : Effect w.current w.full addr (w.saved reg) slots)
      (hnext : next = w.current ∨ (slots next).alive = true) :
      World.Step w (.trap reg addr) ⟨slots, next, full⟩

/-- A step, whatever has happened. -/
def World.Next (w w' : World) : Prop := ∃ e, World.Step w e w'

/-! ## What holds of the machine -/

section Machine

variable {w w' : World} {e : Event} {pid addr j : Nat} {full : Bool} {slots slots' : Nat → Slot}

theorem World.saved_other (reg : Registers) (hne : j ≠ w.current) : w.saved reg j = w.slots j :=
  Function.update_of_ne hne ..

theorem World.Step.alive (h : World.Step w e w') : (w.slots w.current).alive = true := by
  cases h with
  | stores halive _ => exact halive
  | trap halive _ _ => exact halive

theorem World.Step.trap_effect {reg : Registers} (h : World.Step w (.trap reg addr) w') :
    Effect w.current w.full addr (w.saved reg) w'.slots := by
  cases h with
  | trap _ heffect _ => exact heffect

theorem Effect.other (h : Effect pid full addr slots slots') (hne : j ≠ pid) (halive : (slots j).alive = true) :
    slots' j = slots j := by
  cases h with
  | own hcall => exact Function.update_of_ne hne ..
  | child hintno hfree =>
      rw [Function.update_of_ne, Function.update_of_ne hne]
      rintro rfl
      rw [hfree] at halive
      cases halive

/-- Only `fork` starts a process. -/
theorem Effect.born (h : Effect pid full addr slots slots') (hne : j ≠ pid) (hfree : (slots j).alive = false)
    (halive : (slots' j).alive = true) : (slots' j).memory = (slots pid).memory ∧
      (slots' j).registers = Function.update (slots pid).registers .rax 0 := by
  cases h with
  | own hcall =>
      rw [Function.update_of_ne hne, hfree] at halive
      cases halive
  | @child child hintno hchild =>
      by_cases hjc : j = child
      · subst hjc
        rw [Function.update_self]
        exact ⟨rfl, rfl⟩
      · rw [Function.update_of_ne hjc, Function.update_of_ne hne, hfree] at halive
        cases halive

/-- Nothing that happens to one process is noticed by another. -/
theorem World.Step.other (h : World.Step w e w') (hne : j ≠ w.current) (halive : (w.slots j).alive = true) :
    w'.slots j = w.slots j := by
  cases h with
  | stores _ hstored => exact Function.update_of_ne hne ..
  | @trap reg _ _ _ _ _ heffect _ =>
      rw [← World.saved_other reg hne] at halive ⊢
      exact heffect.other hne halive

/-- A process keeps all it has while others run. -/
theorem World.unnoticed (halive : (w.slots j).alive = true)
    (hrun : Relation.ReflTransGen (fun w w' => j ≠ w.current ∧ World.Next w w') w w') :
    w'.slots j = w.slots j := by
  induction hrun with
  | refl => rfl
  | tail _ hstep ih =>
      obtain ⟨hne, e, hstep⟩ := hstep
      rw [hstep.other hne (by rw [ih]; exact halive), ih]

end Machine

end MemoryManagement.Kernel
