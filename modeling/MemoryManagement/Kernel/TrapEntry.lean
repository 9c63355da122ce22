import MemoryManagement.Kernel.Descriptors
import MemoryManagement.Kernel.Exception
import MemoryManagement.Library.StackCode

/-!
# The way into the kernel and back

Translation of `kernel/k-exception.S`, with the addresses that `obj/kernel.sym` gives its labels, of the interrupt
descriptors that `segments_init` of `kernel/k-hardware.c` sets up, and of the layout of `x86_64_registers` and of
`proc`. `deliver` is what the processor does when a user program is interrupted: it pushes the interrupted task on
the kernel's stack and goes on at the address in the gate.

Exceptions whose gates are left empty (vectors 0 to 12 and 15) are left out. So are the arithmetic flags that `addq`
sets just before `iretq` loads all flags.
-/

set_option autoImplicit false

namespace MemoryManagement.Kernel

open MemoryManagement.Library.ByteMemory
open MemoryManagement.Library.StackCode

/-! ## The processor -/

/-- The registers of the processor. -/
inductive Register where
  | rax | rcx | rdx | rbx | rbp | rsi | rdi
  | r8 | r9 | r10 | r11 | r12 | r13 | r14 | r15
  | fs | gs | rip | cs | rflags | rsp | ss
  deriving DecidableEq, Repr

namespace Register

/-- The field of `x86_64_registers` for a register. -/
def field : Register → Reg
  | rax => .rax | rcx => .rcx | rdx => .rdx | rbx => .rbx | rbp => .rbp | rsi => .rsi | rdi => .rdi
  | r8 => .r8 | r9 => .r9 | r10 => .r10 | r11 => .r11
  | r12 => .r12 | r13 => .r13 | r14 => .r14 | r15 => .r15
  | fs => .fs | gs => .gs | rip => .rip | cs => .cs | rflags => .rflags | rsp => .rsp | ss => .ss

/-- Segment selectors have 16 bits. -/
def bits : Register → Nat
  | fs | gs | cs | ss => 16
  | _ => 64

end Register

/-- `iretq` loads the task that the processor has pushed. -/
def x86 : Arch Register := ⟨.rsp, Register.bits, [.rip, .cs, .rflags, .rsp, .ss]⟩

/-! ## `x86_64_registers` -/

/-- The fields of `x86_64_registers` in their order. -/
def registerFields : List Reg :=
  [.rax, .rcx, .rdx, .rbx, .rbp, .rsi, .rdi, .r8, .r9, .r10, .r11, .r12, .r13, .r14, .r15, .fs, .gs,
    .intno, .err, .rip, .cs, .rflags, .rsp, .ss]

/-- `sizeof` of a field; `reg_cs` and `reg_ss` have padding behind them. -/
def fieldSize : Reg → Nat
  | .cs | .ss => 2
  | _ => 8

/-- `offsetof(x86_64_registers, f)`. -/
def fieldOffset (f : Reg) : Nat := 8 * registerFields.idxOf f

/-- The `x86_64_registers` at an address. -/
def readRegisters (m : Mem) (a : Nat) : Registers := fun f => loadLE m (a + fieldOffset f) (fieldSize f)

/-- `&processes[pid].p_registers`. -/
def registersAddr (pid : Nat) : Nat := 0x4f000 + 240 * pid + 24

/-! ## `k-exception.S` -/

abbrev genericExceptionHandler : Nat := 0x400a0

abbrev exceptionReturnAddr : Nat := 0x400c3

/-- The address of `exception`. -/
abbrev exceptionAddr : Nat := 0x40759

abbrev gpfIntHandler : Nat := 0x4002e

abbrev pagefaultIntHandler : Nat := 0x40032

abbrev timerIntHandler : Nat := 0x40036

/-- `sys_int_handlers`: `sys48_int_handler` to `sys63_int_handler`. -/
def sysIntHandlers : List Nat :=
  [0x4003c, 0x40042, 0x40048, 0x4004e, 0x40054, 0x4005a, 0x40060, 0x40066, 0x4006c, 0x40072, 0x40078, 0x4007e,
    0x40084, 0x4008a, 0x40090, 0x40096]

/-- A handler that pushes numbers and goes on in `generic_exception_handler`. -/
def intHandler (pushed : List Nat) : List (Instr Register) :=
  (pushed.map Operand.imm).map .push ++ [.jmp genericExceptionHandler]

/-- The registers that `generic_exception_handler` pushes. -/
def pushedRegisters : List Register :=
  [.gs, .fs, .r15, .r14, .r13, .r12, .r11, .r10, .r9, .r8, .rdi, .rsi, .rbp, .rbx, .rdx, .rcx, .rax]

/-- The registers that `exception_return` pops. -/
def poppedRegisters : List Register :=
  [.rax, .rcx, .rdx, .rbx, .rbp, .rsi, .rdi, .r8, .r9, .r10, .r11, .r12, .r13, .r14, .r15, .fs, .gs]

/-- The blocks of `k-exception.S`. -/
def kernelText : List (Nat × List (Instr Register)) :=
  [(gpfIntHandler, intHandler [13]), (pagefaultIntHandler, intHandler [14]), (timerIntHandler, intHandler [0, 32])] ++
  (List.range 16).map (fun i => (sysIntHandlers[i]?.getD 0, intHandler [0, 48 + i])) ++
  [(defaultIntHandler, intHandler [0]),
    (genericExceptionHandler, (pushedRegisters.map Operand.reg).map .push ++
      [.mov .rsp .rdi, .call exceptionAddr exceptionReturnAddr]),
    (exceptionReturnAddr, .mov .rdi .rsp :: (poppedRegisters.map .pop ++ [.add 16 .rsp, .iret]))]

/-- The block at a label. -/
def codeAt (label : Nat) : List (Instr Register) := (kernelText.lookup label).getD []

/-! ## `interrupt_descriptors` -/

/-- `interrupt_descriptors` after `segments_init`. -/
def interruptDescriptors : Nat → GateDescriptor :=
  let gates := fun i =>
    if 16 ≤ i ∧ i < 256 then setGate X86GATE_INTERRUPT 0 (BitVec.ofNat 64 defaultIntHandler) else ⟨0, 0⟩
  let gates := Function.update gates INT_TIMER (setGate X86GATE_INTERRUPT 0 (BitVec.ofNat 64 timerIntHandler))
  let gates := Function.update gates INT_GPF (setGate X86GATE_INTERRUPT 0 (BitVec.ofNat 64 gpfIntHandler))
  let gates := Function.update gates INT_PAGEFAULT
    (setGate X86GATE_INTERRUPT 0 (BitVec.ofNat 64 pagefaultIntHandler))
  fun i =>
    if INT_SYS ≤ i ∧ i < INT_SYS + 16 then
      setGate X86GATE_INTERRUPT 3 (BitVec.ofNat 64 (sysIntHandlers[i - INT_SYS]?.getD 0))
    else gates i

/-! ## Interrupts -/

/-- What interrupts a user program: the timer, a fault with its error code, another exception of the processor, or an
`int` instruction. -/
inductive Interrupt where
  | timer
  | protection (err : Nat)
  | pageFault (err : Nat)
  | other (v : Fin 16) (err : Option Nat)
  | software (n : Fin 256)

/-- A gate that an `int` instruction of a user program may go through. -/
def GateDescriptor.OpenToUsers (g : GateDescriptor) : Prop :=
  typeField g.gdLow = 0xE ∧ presentField g.gdLow = 1 ∧ dplField g.gdLow = 3

instance (g : GateDescriptor) : Decidable g.OpenToUsers := inferInstanceAs (Decidable (_ ∧ _ ∧ _))

/-- The vector that the processor takes an interrupt at, and the error code that it pushes. An `int` instruction that
may not go through its gate is a general protection fault, whose code names the gate. -/
def Interrupt.taken : Interrupt → Nat × Option Nat
  | timer => (INT_TIMER, none)
  | protection err => (INT_GPF, some err)
  | pageFault err => (INT_PAGEFAULT, some err)
  | other v err => (16 + v, err)
  | software n =>
      if (interruptDescriptors n).OpenToUsers then (n, none) else (INT_GPF, some (8 * n + 2))

/-- The interrupted task, as the processor pushes it, with the error code if there is one. -/
def interruptedTask (regs : Register → Nat) (err : Option Nat) : List Nat :=
  [regs .ss, regs .rsp, regs .rflags, regs .cs, regs .rip] ++ err.toList

/-- The flags that an interrupt gate clears: trap, interrupt, nested task, resume and virtual-8086. -/
abbrev gateFlags : Nat := 0x34300

/-- The processor when it has taken an interrupt of a user program. `kernel_task_descriptor` has the address of the
stack that it pushes to. -/
def deliver (i : Interrupt) (c : Cpu Register) : Cpu Register :=
  let gate := interruptDescriptors i.taken.1
  let task := interruptedTask c.regs i.taken.2
  let regs := Function.update c.regs .rsp (KERNEL_STACK_TOP - 8 * task.length)
  let regs := Function.update regs .ss 0
  let regs := Function.update regs .rflags (c.regs .rflags &&& (2 ^ 64 - 1 - gateFlags))
  let regs := Function.update regs .cs gate.selector.toNat
  ⟨Function.update regs .rip gate.offset.toNat, pushes c.mem KERNEL_STACK_TOP task⟩

/-- An interrupt of a user program, up to the call of `exception`. -/
def enter (i : Interrupt) (c : Cpu Register) : Option (Cpu Register) :=
  let c := deliver i c
  match x86.follow codeAt 2 (c.regs .rip) c with
  | (c, .call label) => if label = exceptionAddr then some c else none
  | _ => none

/-- `exception_return(reg)`: the registers when it has come to its `iretq`. -/
def exceptionReturn (m : Mem) (reg : Nat) (regs : Register → Nat) : Option (Register → Nat) :=
  match x86.run (codeAt exceptionReturnAddr) ⟨Function.update regs .rdi reg, m⟩ with
  | (c, .iret) => some c.regs
  | _ => none

end MemoryManagement.Kernel
