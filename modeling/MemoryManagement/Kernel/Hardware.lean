import MemoryManagement.Kernel.ContextSwitch
import MemoryManagement.Kernel.Refinement

/-!
# The machine with its processor

User programs compute with the registers of the processor and on their pages, and traps go through `k-exception.S`
into `exception` and back through `exception_return`. Every step is a step of the machine of the private memories
(`Sound.step`), a trap with the registers of the processor, and the processor goes on with the registers of the slot
that runs next (`Sound.trap`).
-/

set_option autoImplicit false

namespace MemoryManagement.Kernel

open MemoryManagement.Library.ByteMemory
open MemoryManagement.Library.StackCode

/-! ## The machine -/

/-- The registers of the processor, the stack and the variables of the kernel as bytes, and the kernel's state. The
pages of the kernel are kept apart from `state.mem` in `data`: no user program may write them. -/
structure Hardware where
  regs : Register → Nat
  data : Mem
  state : State

/-- `processes` in the memory of the kernel has the registers that the kernel's state has. -/
def SavedAll (m : Mem) (s : State) : Prop :=
  ∀ pid ∈ live s, readRegisters m (registersAddr pid) = (s.processes pid).registers

/-- The processor is in user mode, with interrupts enabled and without access to devices. -/
structure Unprivileged (regs : Register → Nat) : Prop where
  cs : regs .cs = 0x13
  interrupts : (regs .rflags).testBit 9 = true
  devices : ∀ i ∈ [12, 13], (regs .rflags).testBit i = false

/-- The processor reports page faults as they are, and error codes are words. -/
structure Interrupt.Real (i : Interrupt) (s : State) (addr : Nat) : Prop where
  code : i.seen.2 < 2 ^ 64
  fault : ∀ err, i = .pageFault err → err &&& PFERR_USER ≠ 0 ∧
    (err &&& PFERR_PRESENT = 0 ↔ ¬ s.HasPage s.current addr)

namespace Hardware

/-- A trap, from the user program that is interrupted to the one that runs next. `exception` leaves the registers that
it has decided on in `processes`. -/
structure Trap (i : Interrupt) (addr : Nat) (c c' : Hardware) : Prop where
  handled : ∃ c₁ next regs, enter i ⟨c.regs, c.data⟩ = some c₁ ∧
    exception c.state (readRegisters c₁.mem (c₁.regs .rdi)) addr = .ok (c'.state, some next) ∧
    exceptionReturn c'.data (registersAddr next) regs = some c'.regs
  saved : SavedAll c'.data c'.state

/-- A step of the machine: the running program computes, or it is interrupted. Programs do not raise their own
privileges. -/
inductive Step (c : Hardware) : Hardware → Prop where
  | computes {regs : Register → Nat} {m : Mem} (hsized : Sized regs)
      (hmode : Unprivileged c.regs → Unprivileged regs) (hchanges : CurrentChanges c.state m) :
      Step c ⟨regs, c.data, { c.state with mem := m }⟩
  | trap {i : Interrupt} {addr : Nat} {c' : Hardware} (hreal : i.Real c.state addr)
      (hcontained : Contained c.state (trapFrame c.regs i.seen.1 i.seen.2) addr) (h : Trap i addr c c') : Step c c'

/-- What holds whenever a user program runs. -/
structure Sound (c : Hardware) : Prop where
  sized : Sized c.regs
  saved : SavedAll c.data c.state
  current : c.state.current < NPROC
  running : (c.state.processes c.state.current).state = .runnable
  separate : ∃ T, Separate c.state T

end Hardware

/-! ## Traps -/

section Traps

variable {i : Interrupt} {addr : Nat} {c c' : Hardware}

/-- An exception that the processor has pushed no code for ends in a panic: its number is 0 for the kernel. -/
theorem enter_incomplete (v : Fin 16) (c : Cpu Register) :
    ∃ c', enter (.other v none) c = some c' ∧ readRegisters c'.mem (c'.regs .rdi) .intno = 0 := by
  obtain ⟨regs, henter, hrdi⟩ :=
    enter_of_handler (i := .other v none) (c := c) (codeAt_default v) (by decide : 1 ≤ 2)
  obtain ⟨ws, hws⟩ : ∃ ws, ws = trapWords c.regs (Interrupt.other v none).taken.2 [0] := ⟨_, rfl⟩
  rw [← hws] at henter
  have hlen : ws.length = 24 := by rw [hws]; rfl
  have hi : 5 < ws.length := by omega
  have hword : ws[5] = 0 := by
    simp only [hws]
    rfl
  have hload : loadLE (pushes c.mem KERNEL_STACK_TOP ws) (KERNEL_STACK_TOP - 8 * (5 + 1)) 8 = ws[5] % 2 ^ 64 :=
    load_pushes (by rw [hlen]; decide) hi
  have htask : (interruptedTask c.regs (Interrupt.other v none).taken.2).length = 5 := rfl
  have haddr : regs .rdi + fieldOffset .intno = KERNEL_STACK_TOP - 8 * (5 + 1) := by
    rw [hrdi, htask]
    decide
  refine ⟨_, henter, ?_⟩
  rw [readRegisters, haddr]
  rw [hword] at hload
  exact hload

/-- A panic does not come back. -/
theorem intno_ne_panic {s s' : State} {reg : Registers} {next : Option Nat}
    (hcode : exception s reg addr = .ok (s', next)) : reg .intno ≠ INT_SYS_PANIC := by
  intro hpanic
  obtain ⟨s₁, s₂, after, -, hdispatch, -⟩ := exception_eq_ok hcode
  rw [dispatch, if_pos hpanic] at hdispatch
  cases hdispatch

/-- Whoever runs next has a slot. -/
theorem World.Step.current_lt {s s' : State} {reg : Registers} (h : World.Step s.world (.trap reg addr) s'.world)
    (hcurrent : s.current < NPROC) : s'.current < NPROC := by
  cases h with
  | trap _ _ hnext =>
      rcases hnext with hback | halive
      · exact hback ▸ hcurrent
      · exact (mem_live.1 (slot_alive.1 halive)).1

/-- The registers of a slot lie in memory. -/
theorem registersAddr_add_lt {pid : Nat} (hpid : pid < NPROC) : registersAddr pid + 192 < 2 ^ 64 := by
  simp only [registersAddr, NPROC] at hpid ⊢
  omega

/-- An interrupt that `exception` comes back from is one of the traps of the kernel. -/
theorem Interrupt.Real.userTrap {s s' : State} {regs : Register → Nat} {next : Option Nat}
    (hreal : i.Real s addr) (hcurrent : s.current < NPROC)
    (hrunning : (s.processes s.current).state = .runnable) (hsized : Sized regs)
    (hcode : exception s (trapFrame regs i.seen.1 i.seen.2) addr = .ok (s', next)) :
    UserTrap s (trapFrame regs i.seen.1 i.seen.2) addr := by
  have hwords := trapFrame_word hsized (Nat.lt_trans i.seen_lt (by decide : 256 < 2 ^ 64)) hreal.code
  have hcase : HasCase i.seen.1 := hasCase_of_ok hcode
  have hpanic : i.seen.1 ≠ INT_SYS_PANIC := intno_ne_panic hcode
  cases i with
  | timer =>
      have htimer : INT_TIMER ∈ [INT_SYS_FORK, INT_SYS_BRK, INT_SYS_SBRK, INT_SYS_EXIT, INT_SYS_YIELD, INT_SYS_GETPID,
        INT_TIMER] := by decide
      exact Or.inr ⟨hcurrent, hrunning, hwords, Or.inl htimer⟩
  | protection err => exact absurd hcase (by decide : ¬ HasCase INT_GPF)
  | pageFault err =>
      obtain ⟨huser, hpresent⟩ := hreal.fault err rfl
      exact Or.inr ⟨hcurrent, hrunning, hwords, Or.inr ⟨hcurrent, hrunning, rfl, huser, hpresent⟩⟩
  | other v err => exact absurd hcase (by decide : ¬ HasCase 0)
  | software n =>
      by_cases hsys : INT_SYS ≤ n.val ∧ n.val < INT_SYS + 16
      · have hseen : (Interrupt.software n).seen = (n.val, 0) := if_pos hsys
        rw [hseen] at hwords hpanic ⊢
        exact Or.inl ⟨hcurrent, hrunning, hwords, hsys.1, hsys.2, hpanic⟩
      · have hseen : (Interrupt.software n).seen = (INT_GPF, 8 * n.val + 2) := if_neg hsys
        rw [hseen] at hcase
        exact absurd hcase (by decide : ¬ HasCase INT_GPF)

namespace Hardware

/-- What a trap comes to for the kernel and for the processor. -/
theorem Trap.code (h : Trap i addr c c') (hsized : Sized c.regs) (hreal : i.Real c.state addr) :
    exception c.state (trapFrame c.regs i.seen.1 i.seen.2) addr = .ok (c'.state, some c'.state.current) ∧
      (c'.state.processes c'.state.current).state = .runnable ∧
      ∃ regs, exceptionReturn c'.data (registersAddr c'.state.current) regs = some c'.regs := by
  obtain ⟨c₁, next, regs, henter, hcode, hreturn⟩ := h.handled
  have hcomplete : i.Complete := by
    rintro v rfl
    obtain ⟨c₂, henter₂, hintno⟩ := enter_incomplete v ⟨c.regs, c.data⟩
    rw [henter₂] at henter
    obtain rfl := Option.some.inj henter
    have hcase := hasCase_of_ok hcode
    rw [hintno] at hcase
    exact absurd hcase (by decide)
  obtain ⟨c₂, henter₂, hhanded⟩ := hcomplete.handed (c := ⟨c.regs, c.data⟩) hreal.code hsized
  rw [henter₂] at henter
  obtain rfl := Option.some.inj henter
  rw [hhanded.frame] at hcode
  obtain ⟨rfl, hrunnable⟩ := exception_resumed hcode
  exact ⟨hcode, hrunnable, regs, hreturn⟩

end Hardware

end Traps

/-! ## Steps -/

namespace Hardware

section Steps

variable {i : Interrupt} {addr : Nat} {c c' : Hardware}

/-- A trap is a trap of the machine of the private memories, with the registers of the processor, and the processor
goes on with the registers of the slot that runs next. -/
theorem Sound.trap (h : Sound c) (hreal : i.Real c.state addr)
    (hcontained : Contained c.state (trapFrame c.regs i.seen.1 i.seen.2) addr) (htrap : Trap i addr c c') :
    Sound c' ∧ World.Step c.state.world (.trap (trapFrame c.regs i.seen.1 i.seen.2) addr) c'.state.world ∧
      ∀ r, c'.regs r = (c'.state.slot c'.state.current).registers r.field % 2 ^ r.bits := by
  obtain ⟨hcode, hrunnable, regs, hreturn⟩ := htrap.code h.sized hreal
  obtain ⟨T, hsep⟩ := h.separate
  have huser := hreal.userTrap h.current h.running h.sized hcode
  obtain ⟨hsep', hstep, -⟩ := hsep.exception_refines huser hcontained hcode
  have hlt : c'.state.current < NPROC := hstep.current_lt h.current
  rw [exceptionReturn_eq (registersAddr_add_lt hlt), htrap.saved _ (mem_live_of_runnable hlt hrunnable)] at hreturn
  have hregs := Option.some.inj hreturn
  refine ⟨⟨?_, htrap.saved, hlt, hrunnable, hsep'⟩, hstep, fun r => ?_⟩
  · intro r
    rw [← hregs]
    exact Nat.mod_lt _ (Nat.two_pow_pos _)
  · rw [← hregs, slot_of_live (mem_live_of_runnable hlt hrunnable)]

/-- What a program computes is a step of the machine of the private memories as well. -/
theorem Sound.computes {regs : Register → Nat} {m : Mem} (h : Sound c) (hsized : Sized regs)
    (hchanges : CurrentChanges c.state m) :
    Sound ⟨regs, c.data, { c.state with mem := m }⟩ ∧
      World.Step c.state.world .stores { c.state with mem := m }.world := by
  obtain ⟨T, hsep⟩ := h.separate
  obtain ⟨hsep', hstep, -⟩ := hsep.stores_refine hchanges
  exact ⟨⟨hsized, h.saved, h.current, h.running, T, hsep'⟩, hstep⟩

theorem Sound.step (h : Sound c) (hstep : Step c c') : Sound c' ∧ World.Next c.state.world c'.state.world := by
  cases hstep with
  | computes hsized _ hchanges =>
      obtain ⟨hsound, hworld⟩ := h.computes hsized hchanges
      exact ⟨hsound, _, hworld⟩
  | trap hreal hcontained htrap =>
      obtain ⟨hsound, hworld, -⟩ := h.trap hreal hcontained htrap
      exact ⟨hsound, _, hworld⟩

theorem Sound.run (h : Sound c) (hrun : Relation.ReflTransGen Step c c') : Sound c' := by
  induction hrun with
  | refl => exact h
  | tail _ hstep ih => exact (ih.step hstep).1

/-- The machine after `kernel`, when `exception_return` has started the first process. -/
structure Started (c : Hardware) (s : State) : Prop where
  state : c.state = s
  saved : SavedAll c.data s
  regs : ∃ regs, exceptionReturn c.data (registersAddr s.current) regs = some c.regs

theorem Started.sound {bytes : Nat → Nat → UInt8} {m : Mem} {command : Option String} {s : State}
    {next : Option Nat} (h : Started c s) (hboot : kernel bytes m command = .ok (s, next)) : Sound c := by
  obtain ⟨T, hbooted⟩ := booted_of_kernel hboot
  obtain ⟨regs, hregs⟩ := h.regs
  have hcurrent : s.current < NPROC := by
    rw [hbooted.current]
    decide
  rw [exceptionReturn_eq (registersAddr_add_lt hcurrent)] at hregs
  rw [← h.state] at hboot hcurrent
  constructor
  · intro r
    rw [← Option.some.inj hregs]
    exact Nat.mod_lt _ (Nat.two_pow_pos _)
  · rw [h.state]
    exact h.saved
  · exact hcurrent
  · rw [h.state, hbooted.current]
    exact hbooted.runnable 1 hbooted.first
  · rw [h.state]
    exact ⟨T, hbooted.separate⟩

end Steps

end Hardware

/-! ## Waiting -/

namespace Hardware

section Waiting

variable {i : Interrupt} {addr pid : Nat} {c c₁ c₂ : Hardware}

end Waiting

end Hardware

end MemoryManagement.Kernel
