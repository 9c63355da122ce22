import MemoryManagement.Kernel.TrapEntry

/-!
# Registers across traps

The handlers of `k-exception.S` hand the interrupted registers to `exception` as an `x86_64_registers`, and
`exception_return` gives them back to the processor (`trap_round_trip`). An `int` instruction reaches the kernel
under its own number exactly for the sixteen system calls.
-/

set_option autoImplicit false

namespace MemoryManagement.Kernel

open MemoryManagement.Library.ByteMemory
open MemoryManagement.Library.StackCode

/-! ## Frames -/

/-- The `x86_64_registers` of a trap. -/
def trapFrame (regs : Register → Nat) (intno err : Nat) : Registers
  | .rax => regs .rax | .rcx => regs .rcx | .rdx => regs .rdx | .rbx => regs .rbx | .rbp => regs .rbp
  | .rsi => regs .rsi | .rdi => regs .rdi
  | .r8 => regs .r8 | .r9 => regs .r9 | .r10 => regs .r10 | .r11 => regs .r11
  | .r12 => regs .r12 | .r13 => regs .r13 | .r14 => regs .r14 | .r15 => regs .r15
  | .fs => regs .fs | .gs => regs .gs
  | .intno => intno | .err => err
  | .rip => regs .rip | .cs => regs .cs | .rflags => regs .rflags | .rsp => regs .rsp | .ss => regs .ss

/-- All registers have values of their size. -/
def Sized (regs : Register → Nat) : Prop := ∀ r, regs r < 2 ^ r.bits

section Frames

variable {m : Mem} {a : Nat} {ws : List Nat} {frame : Registers} {regs : Register → Nat} {intno err : Nat}

@[simp] theorem trapFrame_field (r : Register) : trapFrame regs intno err r.field = regs r := by
  cases r <;> rfl

theorem idxOf_lt (f : Reg) : registerFields.idxOf f < 24 := by
  cases f <;> decide

theorem fieldSize_le (f : Reg) : fieldSize f ≤ 8 := by
  cases f <;> decide

/-- The fields of an `x86_64_registers` whose words were pushed from the last one down, and others behind them. -/
theorem readRegisters_pushes {vs : List Nat} (hws : ws = registerFields.reverse.map frame)
    (hroom : 8 * (ws.length + vs.length) ≤ a) (f : Reg) :
    readRegisters (pushes m a (ws ++ vs)) (a - 8 * ws.length) f = frame f % 256 ^ fieldSize f := by
  have hlen : ws.length = 24 := by rw [hws]; rfl
  have hidx := idxOf_lt f
  have hi : 23 - registerFields.idxOf f < ws.length := by omega
  have hi' : 23 - registerFields.idxOf f < (ws ++ vs).length := by
    rw [List.length_append]
    omega
  have hword : (ws ++ vs)[23 - registerFields.idxOf f] = frame f := by
    rw [List.getElem_append_left hi]
    simp only [hws]
    cases f <;> rfl
  have hload : loadLE (pushes m a (ws ++ vs)) (a - 8 * (23 - registerFields.idxOf f + 1)) 8 = _ :=
    load_pushes (by rw [List.length_append]; exact hroom) hi'
  have hplace : a - 8 * (23 - registerFields.idxOf f + 1) = a - 8 * ws.length + fieldOffset f := by
    rw [fieldOffset]
    omega
  rw [hplace, hword] at hload
  rw [readRegisters, ← loadLE_mod (fieldSize_le f), hload]
  exact Nat.mod_mod_of_dvd _ (pow_dvd_pow 256 (fieldSize_le f))

theorem fieldOffset_add_le (f : Reg) : fieldOffset f + fieldSize f ≤ 192 := by
  cases f <;> decide

/-- A copy of an `x86_64_registers` has the same fields. -/
theorem readRegisters_of_copy {m' : Mem} {b : Nat} (h : ∀ x, x < 192 → m' (b + x) = m (a + x)) :
    readRegisters m' b = readRegisters m a := by
  funext f
  have hin := fieldOffset_add_le f
  refine loadLE_of_copy fun i hi => ?_
  rw [Nat.add_assoc, Nat.add_assoc]
  exact h (fieldOffset f + i) (by omega)

/-- A field of a frame is the number, the error code or a register. -/
theorem field_cases (f : Reg) : f = .intno ∨ f = .err ∨ ∃ r : Register, f = r.field := by
  cases f with
  | intno => exact Or.inl rfl
  | err => exact Or.inr (Or.inl rfl)
  | rax => exact Or.inr (Or.inr ⟨.rax, rfl⟩)
  | rcx => exact Or.inr (Or.inr ⟨.rcx, rfl⟩)
  | rdx => exact Or.inr (Or.inr ⟨.rdx, rfl⟩)
  | rbx => exact Or.inr (Or.inr ⟨.rbx, rfl⟩)
  | rbp => exact Or.inr (Or.inr ⟨.rbp, rfl⟩)
  | rsi => exact Or.inr (Or.inr ⟨.rsi, rfl⟩)
  | rdi => exact Or.inr (Or.inr ⟨.rdi, rfl⟩)
  | r8 => exact Or.inr (Or.inr ⟨.r8, rfl⟩)
  | r9 => exact Or.inr (Or.inr ⟨.r9, rfl⟩)
  | r10 => exact Or.inr (Or.inr ⟨.r10, rfl⟩)
  | r11 => exact Or.inr (Or.inr ⟨.r11, rfl⟩)
  | r12 => exact Or.inr (Or.inr ⟨.r12, rfl⟩)
  | r13 => exact Or.inr (Or.inr ⟨.r13, rfl⟩)
  | r14 => exact Or.inr (Or.inr ⟨.r14, rfl⟩)
  | r15 => exact Or.inr (Or.inr ⟨.r15, rfl⟩)
  | fs => exact Or.inr (Or.inr ⟨.fs, rfl⟩)
  | gs => exact Or.inr (Or.inr ⟨.gs, rfl⟩)
  | rip => exact Or.inr (Or.inr ⟨.rip, rfl⟩)
  | cs => exact Or.inr (Or.inr ⟨.cs, rfl⟩)
  | rflags => exact Or.inr (Or.inr ⟨.rflags, rfl⟩)
  | rsp => exact Or.inr (Or.inr ⟨.rsp, rfl⟩)
  | ss => exact Or.inr (Or.inr ⟨.ss, rfl⟩)

theorem bits_le (r : Register) : 2 ^ r.bits ≤ 256 ^ fieldSize r.field := by
  cases r <;> decide

/-- The frame of sized registers fits its fields. -/
theorem trapFrame_lt (hregs : Sized regs) (hintno : intno < 2 ^ 64) (herr : err < 2 ^ 64) (f : Reg) :
    trapFrame regs intno err f < 256 ^ fieldSize f := by
  rcases field_cases f with rfl | rfl | ⟨r, rfl⟩
  · exact hintno
  · exact herr
  · rw [trapFrame_field]
    exact Nat.lt_of_lt_of_le (hregs r) (bits_le r)

theorem trapFrame_word (hregs : Sized regs) (hintno : intno < 2 ^ 64) (herr : err < 2 ^ 64) (f : Reg) :
    trapFrame regs intno err f < 2 ^ 64 :=
  Nat.lt_of_lt_of_le (trapFrame_lt hregs hintno herr f) (Nat.pow_le_pow_right (by decide) (fieldSize_le f))

theorem trapFrame_mod (hregs : Sized regs) (hintno : intno < 2 ^ 64) (herr : err < 2 ^ 64) (f : Reg) :
    trapFrame regs intno err f % 256 ^ fieldSize f = trapFrame regs intno err f :=
  Nat.mod_eq_of_lt (trapFrame_lt hregs hintno herr f)

end Frames

/-! ## Entry -/

/-- All words that a trap pushes: the interrupted task, the numbers of the handler, the registers, and where the call
of `exception` would return to. -/
def trapWords (regs : Register → Nat) (err : Option Nat) (pushed : List Nat) : List Nat :=
  interruptedTask regs err ++ pushed ++ pushedRegisters.map regs ++ [exceptionReturnAddr]

section Entry

variable {i : Interrupt} {c : Cpu Register} {pushed : List Nat}

/-- The handler's block. -/
theorem run_intHandler {k : Nat} (hsp : c.regs .rsp = k) (hroom : 8 * pushed.length ≤ k) (hword : k < 2 ^ 64) :
    x86.run (intHandler pushed) c =
      (⟨Function.update c.regs .rsp (k - 8 * pushed.length), pushes c.mem k pushed⟩,
        .jmp genericExceptionHandler) := by
  subst hsp
  have hvalues : ((pushed.map Operand.imm).map fun v : Operand Register => v.value c.regs) = pushed := by
    rw [List.map_map]
    exact List.map_id' pushed
  have hno : ∀ v ∈ pushed.map Operand.imm, ∀ r, v = .reg r → r ≠ x86.sp := by
    intro v hv r hr
    obtain ⟨n, -, rfl⟩ := List.mem_map.1 hv
    cases hr
  have hrun : x86.run (intHandler pushed) c = _ :=
    Arch.run_pushes hno (by rw [List.length_map]; exact hroom) hword
  rw [hvalues, List.length_map] at hrun
  exact hrun

/-- `generic_exception_handler`. -/
theorem run_generic {k : Nat} (hsp : c.regs .rsp = k) (hroom : 8 * 18 ≤ k) (hword : k < 2 ^ 64) :
    ∃ regs, x86.run (codeAt genericExceptionHandler) c =
        (⟨regs, pushes c.mem k (pushedRegisters.map c.regs ++ [exceptionReturnAddr])⟩, .call exceptionAddr) ∧
      regs .rdi = k - 8 * 17 := by
  subst hsp
  have hvalues : ((pushedRegisters.map Operand.reg).map fun v => v.value c.regs) = pushedRegisters.map c.regs := by
    rw [List.map_map]
    rfl
  have hno : ∀ v ∈ pushedRegisters.map Operand.reg, ∀ r, v = .reg r → r ≠ x86.sp := by
    intro v hv r hr
    obtain ⟨q, hq, rfl⟩ := List.mem_map.1 hv
    obtain rfl : q = r := by injection hr
    rintro rfl
    exact absurd hq (by decide)
  have hdst : x86.sp ≠ .rdi := by decide
  obtain ⟨regs, hrun, hrdi⟩ := Arch.run_save hno hdst hroom hword
  rw [hvalues] at hrun
  exact ⟨regs, hrun, hrdi⟩

/-- What a trap through the gate of a handler comes to. -/
theorem enter_of_handler (hcode : codeAt (interruptDescriptors i.taken.1).offset.toNat = intHandler pushed)
    (hpushed : pushed.length ≤ 2) :
    ∃ regs, enter i c = some ⟨regs, pushes c.mem KERNEL_STACK_TOP (trapWords c.regs i.taken.2 pushed)⟩ ∧
      regs .rdi = KERNEL_STACK_TOP - 8 * ((interruptedTask c.regs i.taken.2).length + pushed.length + 17) := by
  obtain ⟨n, hn⟩ : ∃ n, n = (interruptedTask c.regs i.taken.2).length := ⟨_, rfl⟩
  have htask : n ≤ 6 := by
    rw [hn]
    cases i.taken.2 with
    | none => exact Nat.le_of_ble_eq_true rfl
    | some err => exact Nat.le_refl 6
  have hsp : (deliver i c).regs .rsp = KERNEL_STACK_TOP - 8 * n := by
    rw [hn]
    rfl
  obtain ⟨c₁, hc₁⟩ : ∃ c₁ : Cpu Register, c₁ = ⟨Function.update (deliver i c).regs .rsp
      (KERNEL_STACK_TOP - 8 * n - 8 * pushed.length),
      pushes (deliver i c).mem (KERNEL_STACK_TOP - 8 * n) pushed⟩ := ⟨_, rfl⟩
  have hsp₁ : c₁.regs .rsp = KERNEL_STACK_TOP - 8 * n - 8 * pushed.length := by
    simp only [hc₁, Function.update_self]
  -- the registers that are pushed are still those of the program
  have hregs : pushedRegisters.map c₁.regs = pushedRegisters.map c.regs := by
    rw [hc₁]
    rfl
  obtain ⟨regs, hgeneric, hrdi⟩ := run_generic hsp₁ (by simp only [KERNEL_STACK_TOP]; omega)
    (by simp only [KERNEL_STACK_TOP]; omega)
  have hmem : pushes c₁.mem (KERNEL_STACK_TOP - 8 * n - 8 * pushed.length)
      (pushedRegisters.map c.regs ++ [exceptionReturnAddr]) =
        pushes c.mem KERNEL_STACK_TOP (trapWords c.regs i.taken.2 pushed) := by
    have hwords : trapWords c.regs i.taken.2 pushed = interruptedTask c.regs i.taken.2 ++
        (pushed ++ (pushedRegisters.map c.regs ++ [exceptionReturnAddr])) := by
      rw [trapWords, List.append_assoc, List.append_assoc]
    have hdelivered : (deliver i c).mem = pushes c.mem KERNEL_STACK_TOP (interruptedTask c.regs i.taken.2) := rfl
    rw [hwords, pushes_append (pushed ++ _), pushes_append (pushedRegisters.map c.regs ++ _), ← hn, hc₁, hdelivered]
  refine ⟨regs, ?_, ?_⟩
  · have hfirst : x86.run (codeAt ((deliver i c).regs .rip)) (deliver i c) = (c₁, .jmp genericExceptionHandler) := by
      have hrip : (deliver i c).regs .rip = (interruptDescriptors i.taken.1).offset.toNat := rfl
      rw [hrip, hcode, hc₁]
      exact run_intHandler hsp (by simp only [KERNEL_STACK_TOP]; omega) (by simp only [KERNEL_STACK_TOP]; omega)
    rw [hregs, hmem] at hgeneric
    rw [enter, Arch.follow, hfirst]
    simp only
    rw [Arch.follow, hgeneric]
    exact if_pos rfl
  · rw [hrdi, ← hn]
    simp only [KERNEL_STACK_TOP]
    omega

theorem trapWords_code (regs : Register → Nat) (v err : Nat) : trapWords regs (some err) [v] =
    registerFields.reverse.map (trapFrame regs v err) ++ [exceptionReturnAddr] := rfl

theorem trapWords_zero (regs : Register → Nat) (v : Nat) : trapWords regs none [0, v] =
    registerFields.reverse.map (trapFrame regs v 0) ++ [exceptionReturnAddr] := rfl

end Entry

/-! ## Gates -/

/-- The number and the error code that an interrupt has for the kernel. -/
def Interrupt.seen : Interrupt → Nat × Nat
  | timer => (INT_TIMER, 0)
  | protection err => (INT_GPF, err)
  | pageFault err => (INT_PAGEFAULT, err)
  | other _ err => (0, err.getD 0)
  | software n => if INT_SYS ≤ n.val ∧ n.val < INT_SYS + 16 then (n, 0) else (INT_GPF, 8 * n + 2)

/-- `default_int_handler` pushes one number, so that the frame has its size only if the processor has pushed an error
code. -/
def Interrupt.Complete (i : Interrupt) : Prop := ∀ v, i ≠ .other v none

section Gates

variable {i : Interrupt}

/-- A user program can go through the gates of the system calls only. -/
theorem openToUsers_iff : ∀ n : Fin 256,
    (interruptDescriptors n).OpenToUsers ↔ INT_SYS ≤ n.val ∧ n.val < INT_SYS + 16 := by
  decide +kernel

theorem codeAt_sys : ∀ n : Fin 256, INT_SYS ≤ n.val ∧ n.val < INT_SYS + 16 →
    codeAt (interruptDescriptors n).offset.toNat = intHandler [0, n] := by
  decide +kernel

theorem codeAt_default : ∀ v : Fin 16,
    codeAt (interruptDescriptors (16 + v)).offset.toNat = intHandler [0] := by
  decide +kernel

theorem codeAt_gpf : codeAt (interruptDescriptors INT_GPF).offset.toNat = intHandler [13] := by
  decide +kernel

theorem codeAt_pagefault : codeAt (interruptDescriptors INT_PAGEFAULT).offset.toNat = intHandler [14] := by
  decide +kernel

theorem codeAt_timer : codeAt (interruptDescriptors INT_TIMER).offset.toNat = intHandler [0, 32] := by
  decide +kernel

/-- The words that a trap pushes are a frame with its number and error code. -/
theorem Interrupt.Complete.enters (hi : i.Complete) (c : Cpu Register) :
    ∃ regs, enter i c = some ⟨regs, pushes c.mem KERNEL_STACK_TOP
        (registerFields.reverse.map (trapFrame c.regs i.seen.1 i.seen.2) ++ [exceptionReturnAddr])⟩ ∧
      regs .rdi = KERNEL_STACK_TOP - 8 * 24 := by
  -- the handler pushes its number, and a zero where the processor has pushed no code
  have hcode : ∀ v err, i.taken.2 = some err → i.seen = (v, err) →
      codeAt (interruptDescriptors i.taken.1).offset.toNat = intHandler [v] →
      ∃ regs, enter i c = some ⟨regs, pushes c.mem KERNEL_STACK_TOP
          (registerFields.reverse.map (trapFrame c.regs i.seen.1 i.seen.2) ++ [exceptionReturnAddr])⟩ ∧
        regs .rdi = KERNEL_STACK_TOP - 8 * 24 := by
    intro v err htaken hseen hcode
    obtain ⟨regs, henter, hrdi⟩ := enter_of_handler (c := c) hcode (by decide : 1 ≤ 2)
    rw [htaken, trapWords_code] at henter
    rw [htaken] at hrdi
    rw [hseen]
    exact ⟨regs, henter, hrdi⟩
  have hzero : ∀ v, i.taken.2 = none → i.seen = (v, 0) →
      codeAt (interruptDescriptors i.taken.1).offset.toNat = intHandler [0, v] →
      ∃ regs, enter i c = some ⟨regs, pushes c.mem KERNEL_STACK_TOP
          (registerFields.reverse.map (trapFrame c.regs i.seen.1 i.seen.2) ++ [exceptionReturnAddr])⟩ ∧
        regs .rdi = KERNEL_STACK_TOP - 8 * 24 := by
    intro v htaken hseen hcode
    obtain ⟨regs, henter, hrdi⟩ := enter_of_handler (c := c) hcode (by decide : 2 ≤ 2)
    rw [htaken, trapWords_zero] at henter
    rw [htaken] at hrdi
    rw [hseen]
    exact ⟨regs, henter, hrdi⟩
  cases i with
  | timer => exact hzero INT_TIMER rfl rfl codeAt_timer
  | protection err => exact hcode INT_GPF err rfl rfl codeAt_gpf
  | pageFault err => exact hcode INT_PAGEFAULT err rfl rfl codeAt_pagefault
  | other v err =>
      cases err with
      | none => exact absurd rfl (hi v)
      | some err => exact hcode 0 err rfl rfl (codeAt_default v)
  | software n =>
      by_cases hsys : INT_SYS ≤ n.val ∧ n.val < INT_SYS + 16
      · have htaken : (Interrupt.software n).taken = (n.val, none) := if_pos ((openToUsers_iff n).2 hsys)
        refine hzero n (by rw [htaken]) (if_pos hsys) ?_
        rw [htaken]
        exact codeAt_sys n hsys
      · have htaken : (Interrupt.software n).taken = (INT_GPF, some (8 * n.val + 2)) :=
          if_neg fun h => hsys ((openToUsers_iff n).1 h)
        refine hcode INT_GPF (8 * n + 2) (by rw [htaken]) (if_neg hsys) ?_
        rw [htaken]
        exact codeAt_gpf

end Gates

/-! ## Return -/

section Return

variable {m : Mem} {a : Nat}

/-- The word of a register, as pops and `iretq` load it. -/
theorem word_of_field (r : Register) :
    loadLE m (a + fieldOffset r.field) 8 % 2 ^ r.bits = readRegisters m a r.field % 2 ^ r.bits := by
  have hdvd : 2 ^ r.bits ∣ 256 ^ fieldSize r.field := by
    cases r <;> decide
  rw [readRegisters, ← loadLE_mod (fieldSize_le r.field), Nat.mod_mod_of_dvd _ hdvd]

/-- `exception_return` gives the processor the registers that are saved, to the size that they have. -/
theorem exceptionReturn_eq (ha : a + 192 < 2 ^ 64) (regs : Register → Nat) :
    exceptionReturn m a regs = some fun r => readRegisters m a r.field % 2 ^ r.bits := by
  have hself : Function.update regs .rdi a .rdi = a := Function.update_self ..
  have hpopped : ∀ i : Fin 17, fieldOffset (poppedRegisters.get i).field = 8 * i := by decide
  have hreturned : ∀ i : Fin 5, fieldOffset (x86.returned.get i).field = 8 * 17 + 16 + 8 * i := by decide
  have hall : ∀ r, r ∈ poppedRegisters ∨ r ∈ x86.returned := by
    intro r
    cases r <;> decide
  have hrun : x86.run (codeAt exceptionReturnAddr) ⟨Function.update regs .rdi a, m⟩ =
      (⟨fun r => readRegisters m a r.field % 2 ^ r.bits, m⟩, .iret) := by
    refine Arch.run_restore (by decide) (fun i hi => ?_) (fun i hi => ?_) hall ?_
    · have hplace := hpopped ⟨i, hi⟩
      simp only [hself]
      rw [← hplace]
      exact word_of_field poppedRegisters[i]
    · have hplace : a + 8 * poppedRegisters.length + 16 + 8 * i = a + fieldOffset x86.returned[i].field := by
        rw [show fieldOffset x86.returned[i].field = _ from hreturned ⟨i, hi⟩]
        simp only [poppedRegisters, List.length_cons, List.length_nil]
        omega
      simp only [hself]
      rw [hplace]
      exact word_of_field x86.returned[i]
    · simp only [hself, poppedRegisters, List.length_cons, List.length_nil]
      omega
  rw [exceptionReturn, hrun]

end Return

/-! ## There and back -/

section RoundTrip

variable {i : Interrupt} {c c' : Cpu Register}

theorem Interrupt.seen_lt (i : Interrupt) : i.seen.1 < 256 := by
  cases i with
  | timer => exact (by decide : INT_TIMER < 256)
  | protection err => exact (by decide : INT_GPF < 256)
  | pageFault err => exact (by decide : INT_PAGEFAULT < 256)
  | other v err => exact (by decide : 0 < 256)
  | software n =>
      rw [Interrupt.seen]
      split
      · exact n.isLt
      · exact (by decide : INT_GPF < 256)

/-- What `exception` is called with: the address of the frame, which is below the top of the stack with what else the
trap has written. -/
structure Handed (i : Interrupt) (c c' : Cpu Register) : Prop where
  address : c'.regs .rdi = KERNEL_STACK_TOP - 192
  frame : readRegisters c'.mem (c'.regs .rdi) = trapFrame c.regs i.seen.1 i.seen.2
  kept : ∀ x, ¬ InRange (KERNEL_STACK_TOP - 200) 200 x → c'.mem x = c.mem x

theorem Interrupt.Complete.handed (hi : i.Complete) (hcode : i.seen.2 < 2 ^ 64) (hsized : Sized c.regs) :
    ∃ c', enter i c = some c' ∧ Handed i c c' := by
  obtain ⟨regs, henter, hrdi⟩ := hi.enters c
  obtain ⟨ws, hws⟩ : ∃ ws, ws = registerFields.reverse.map (trapFrame c.regs i.seen.1 i.seen.2) := ⟨_, rfl⟩
  have hlen : ws.length = 24 := by rw [hws]; rfl
  rw [← hws] at henter
  refine ⟨_, henter, hrdi, ?_, fun x hx => ?_⟩
  · funext f
    have hroom : 8 * (ws.length + [exceptionReturnAddr].length) ≤ KERNEL_STACK_TOP := by
      rw [hlen]
      decide
    have hread := readRegisters_pushes (m := c.mem) hws hroom f
    rw [hlen, ← hrdi] at hread
    exact hread.trans (trapFrame_mod hsized (Nat.lt_trans i.seen_lt (by decide)) hcode f)
  · refine pushes_of_not_inRange ?_ ?_
    · rw [List.length_append, hlen]
      decide
    · rw [List.length_append, hlen]
      exact hx

/-- A trap of a user program calls `exception` with an `x86_64_registers` that has the program's registers, the number
and the error code, and has written below the top of the kernel's stack only. Wherever the frame is copied to,
`exception_return` gives the registers back. -/
theorem trap_round_trip (hi : i.Complete) (hcode : i.seen.2 < 2 ^ 64) (hsized : Sized c.regs) :
    ∃ c', enter i c = some c' ∧
      readRegisters c'.mem (c'.regs .rdi) = trapFrame c.regs i.seen.1 i.seen.2 ∧
      (∀ x, ¬ InRange (KERNEL_STACK_TOP - 200) 200 x → c'.mem x = c.mem x) ∧
      ∀ m a regs, a + 192 < 2 ^ 64 → (∀ x, x < 192 → m (a + x) = c'.mem (c'.regs .rdi + x)) →
        exceptionReturn m a regs = some c.regs := by
  obtain ⟨c', henter, hhanded⟩ := hi.handed hcode hsized
  refine ⟨c', henter, hhanded.frame, hhanded.kept, fun m a regs ha hcopied => ?_⟩
  rw [exceptionReturn_eq ha, readRegisters_of_copy hcopied, hhanded.frame]
  congr 1
  funext r
  rw [trapFrame_field, Nat.mod_eq_of_lt (hsized r)]

/-- The system call `sbrk`, whose number is 58. -/
theorem trap_round_trip_sbrk : ∃ c', enter (.software 58) ⟨Register.bits, fun _ => 0⟩ = some c' ∧
    readRegisters c'.mem (c'.regs .rdi) .intno = 58 ∧
    exceptionReturn c'.mem (c'.regs .rdi) (fun _ => 0) = some Register.bits := by
  have hsized : Sized Register.bits := fun r => Nat.lt_two_pow_self
  obtain ⟨c', henter, hframe, -, hreturn⟩ := trap_round_trip (i := .software 58) (c := ⟨Register.bits, fun _ => 0⟩)
    (fun v h => by cases h) (by decide) hsized
  have haddr : c'.regs .rdi + 192 < 2 ^ 64 := by
    obtain ⟨c₁, henter₁, hhanded⟩ := Interrupt.Complete.handed (i := .software 58)
      (c := ⟨Register.bits, fun _ => 0⟩) (fun v h => by cases h) (by decide) hsized
    rw [henter] at henter₁
    obtain rfl := Option.some.inj henter₁
    rw [hhanded.address]
    decide
  refine ⟨c', henter, ?_, hreturn _ _ _ haddr fun _ _ => rfl⟩
  rw [hframe]
  rfl

end RoundTrip

end MemoryManagement.Kernel
