import MemoryManagement.Library.ByteMemory

/-!
# Code that saves and restores registers

A processor with registers `ρ` and byte-addressed memory runs blocks of instructions that push registers, pop them
and go on elsewhere (`run`, `follow`). A block that pushes registers leaves their values in consecutive words below
the old stack pointer (`run_pushes`, `load_pushes`), and one that pops registers loads them from consecutive words
(`run_pops`, `loads_of_mem`).
-/

set_option autoImplicit false

namespace MemoryManagement.Library.StackCode

open ByteMemory

/-! ## Instructions -/

/-- What is pushed. -/
inductive Operand (ρ : Type) where
  | reg (r : ρ)
  | imm (n : Nat)
  deriving DecidableEq

/-- The instructions. `call` has the address of the instruction behind it. -/
inductive Instr (ρ : Type) where
  | push (v : Operand ρ)
  | pop (r : ρ)
  | mov (src dst : ρ)
  | add (n : Nat) (dst : ρ)
  | jmp (label : Nat)
  | call (label next : Nat)
  | iret
  deriving DecidableEq

/-- Which register is the stack pointer, how many bits registers have, and which registers `iret` loads, in the
order of their addresses. -/
structure Arch (ρ : Type) where
  sp : ρ
  bits : ρ → Nat
  returned : List ρ

/-- Registers and memory. -/
structure Cpu (ρ : Type) where
  regs : ρ → Nat
  mem : Mem

/-- How a block has ended. -/
inductive Exit where
  | fell
  | jmp (label : Nat)
  | call (label : Nat)
  | iret
  deriving DecidableEq

variable {ρ : Type} [DecidableEq ρ]

def Operand.value (regs : ρ → Nat) : Operand ρ → Nat
  | reg r => regs r
  | imm n => n

namespace Arch

variable (A : Arch ρ)

/-- A word is pushed. -/
def pushWord (c : Cpu ρ) (w : Nat) : Cpu ρ :=
  let a := (c.regs A.sp + 2 ^ 64 - 8) % 2 ^ 64
  ⟨Function.update c.regs A.sp a, storeLE c.mem a 8 w⟩

/-- Registers are loaded from consecutive words. -/
def loads (m : Mem) : Nat → List ρ → (ρ → Nat) → ρ → Nat
  | _, [], regs => regs
  | a, r :: rest, regs => loads m (a + 8) rest (Function.update regs r (loadLE m a 8 % 2 ^ A.bits r))

/-- A block of instructions. -/
def run : List (Instr ρ) → Cpu ρ → Cpu ρ × Exit
  | [], c => (c, .fell)
  | .push v :: rest, c => run rest (A.pushWord c (v.value c.regs))
  | .pop r :: rest, c =>
      let regs := Function.update c.regs A.sp ((c.regs A.sp + 8) % 2 ^ 64)
      run rest ⟨Function.update regs r (loadLE c.mem (c.regs A.sp) 8 % 2 ^ A.bits r), c.mem⟩
  | .mov src dst :: rest, c => run rest ⟨Function.update c.regs dst (c.regs src), c.mem⟩
  | .add n dst :: rest, c => run rest ⟨Function.update c.regs dst ((c.regs dst + n) % 2 ^ 64), c.mem⟩
  | .jmp label :: _, c => (c, .jmp label)
  | .call label next :: _, c => (A.pushWord c next, .call label)
  | .iret :: _, c => (⟨A.loads c.mem (c.regs A.sp) A.returned c.regs, c.mem⟩, .iret)

/-- Blocks one after the other, at most `fuel` of them, as long as they end with jumps. -/
def follow (code : Nat → List (Instr ρ)) : Nat → Nat → Cpu ρ → Cpu ρ × Exit
  | 0, label, c => (c, .jmp label)
  | fuel + 1, label, c =>
      match A.run (code label) c with
      | (c, .jmp next) => follow code fuel next c
      | ended => ended

end Arch

/-! ## Pushed words -/

/-- Words pushed one after the other, the first one below `a`. -/
def pushes (m : Mem) (a : Nat) : List Nat → Mem
  | [] => m
  | w :: rest => pushes (storeLE m (a - 8) 8 w) (a - 8) rest

section Pushes

variable {m : Mem} {a x : Nat} {ws : List Nat}

theorem pushes_append (vs : List Nat) :
    pushes m a (ws ++ vs) = pushes (pushes m a ws) (a - 8 * ws.length) vs := by
  induction ws generalizing m a with
  | nil => rfl
  | cons w ws ih =>
      rw [List.cons_append, pushes, pushes, ih, List.length_cons, Nat.sub_sub]
      congr 1
      omega

/-- Only the words below `a` are written. -/
theorem pushes_of_not_inRange (hroom : 8 * ws.length ≤ a) (h : ¬ InRange (a - 8 * ws.length) (8 * ws.length) x) :
    pushes m a ws x = m x := by
  induction ws generalizing m a with
  | nil => rfl
  | cons w ws ih =>
      rw [List.length_cons] at hroom h
      rw [pushes, ih (by omega) (by omega), storeLE_of_not_inRange (by omega)]

/-- Each word is where it was pushed. -/
theorem load_pushes (hroom : 8 * ws.length ≤ a) {i : Nat} (hi : i < ws.length) :
    loadLE (pushes m a ws) (a - 8 * (i + 1)) 8 = ws[i] % 2 ^ 64 := by
  induction ws generalizing m a i with
  | nil => cases hi
  | cons w ws ih =>
      rw [List.length_cons] at hroom hi
      cases i with
      | zero =>
          have hkept : loadLE (pushes (storeLE m (a - 8) 8 w) (a - 8) ws) (a - 8) 8 =
              loadLE (storeLE m (a - 8) 8 w) (a - 8) 8 :=
            loadLE_congr fun x hx => pushes_of_not_inRange (by omega) (by omega)
          rw [pushes, Nat.zero_add, Nat.mul_one, hkept, loadLE_storeLE_same]
          rfl
      | succ i =>
          have hplace : a - 8 * (i + 1 + 1) = a - 8 - 8 * (i + 1) := by omega
          rw [pushes, hplace, ih (by omega) (by omega)]
          rfl

end Pushes

/-! ## Blocks -/

namespace Arch

section Blocks

variable {A : Arch ρ} {c : Cpu ρ} {rest : List (Instr ρ)}

theorem pushWord_eq {w : Nat} (hroom : 8 ≤ c.regs A.sp) (hword : c.regs A.sp < 2 ^ 64) :
    A.pushWord c w = ⟨Function.update c.regs A.sp (c.regs A.sp - 8), storeLE c.mem (c.regs A.sp - 8) 8 w⟩ := by
  have haddr : (c.regs A.sp + 2 ^ 64 - 8) % 2 ^ 64 = c.regs A.sp - 8 := by omega
  rw [pushWord, haddr]

/-- Pushes do not change what is pushed after them, unless that is the stack pointer. -/
theorem value_update {v : Operand ρ} {n : Nat} (hv : ∀ r, v = .reg r → r ≠ A.sp) (regs : ρ → Nat) :
    v.value (Function.update regs A.sp n) = v.value regs := by
  cases v with
  | reg r => exact Function.update_of_ne (hv r rfl) ..
  | imm n => rfl

/-- A block that starts with pushes. -/
theorem run_pushes {vs : List (Operand ρ)} (hvs : ∀ v ∈ vs, ∀ r, v = .reg r → r ≠ A.sp)
    (hroom : 8 * vs.length ≤ c.regs A.sp) (hword : c.regs A.sp < 2 ^ 64) :
    A.run (vs.map .push ++ rest) c =
      A.run rest ⟨Function.update c.regs A.sp (c.regs A.sp - 8 * vs.length),
        pushes c.mem (c.regs A.sp) (vs.map fun v => v.value c.regs)⟩ := by
  induction vs generalizing c with
  | nil =>
      rw [List.length_nil, Nat.mul_zero, Nat.sub_zero, Function.update_eq_self]
      rfl
  | cons v vs ih =>
      rw [List.length_cons] at hroom ⊢
      obtain ⟨hv, hrest⟩ := List.forall_mem_cons.1 hvs
      have hself : (A.pushWord c (v.value c.regs)).regs A.sp = c.regs A.sp - 8 := by
        rw [pushWord_eq (by omega) hword]
        exact Function.update_self ..
      rw [List.map_cons, List.cons_append, run, ih hrest (by omega) (by omega), hself]
      rw [pushWord_eq (by omega) hword]
      simp only [Function.update_idem, Nat.sub_sub, List.map_cons, pushes]
      have hvalues : (vs.map fun u => u.value (Function.update c.regs A.sp (c.regs A.sp - 8))) =
          vs.map fun u => u.value c.regs :=
        List.map_congr_left fun u hu => value_update (hrest u hu) _
      have hplace : 8 + 8 * vs.length = 8 * (vs.length + 1) := by omega
      rw [hvalues, hplace]

/-- Loads do not look at the registers that they load. -/
theorem loads_update {m : Mem} {a : Nat} {rs : List ρ} {q : ρ} (hq : q ∉ rs) (regs : ρ → Nat) (n : Nat) :
    A.loads m a rs (Function.update regs q n) = Function.update (A.loads m a rs regs) q n := by
  induction rs generalizing a regs with
  | nil => rfl
  | cons r rs ih =>
      obtain ⟨hne, hrest⟩ := List.ne_and_not_mem_of_not_mem_cons hq
      rw [loads, loads, Function.update_comm hne, ih hrest]

/-- A register that is not loaded keeps its value. -/
theorem loads_of_notMem {m : Mem} {a : Nat} {rs : List ρ} {q : ρ} (hq : q ∉ rs) (regs : ρ → Nat) :
    A.loads m a rs regs q = regs q := by
  rw [← Function.update_eq_self q regs, loads_update hq, Function.update_self, Function.update_eq_self]

/-- A register has the word that stands where it does among those that are loaded. -/
theorem loads_of_mem {m : Mem} {a : Nat} {rs : List ρ} {regs f : ρ → Nat}
    (h : ∀ i (hi : i < rs.length), loadLE m (a + 8 * i) 8 % 2 ^ A.bits rs[i] = f rs[i]) {q : ρ} (hq : q ∈ rs) :
    A.loads m a rs regs q = f q := by
  induction rs generalizing a regs with
  | nil => cases hq
  | cons r rs ih =>
      rw [loads]
      by_cases hlater : q ∈ rs
      · refine ih (fun i hi => ?_) hlater
        have hplace : a + 8 + 8 * i = a + 8 * (i + 1) := by omega
        rw [hplace]
        exact h (i + 1) (Nat.succ_lt_succ hi)
      · obtain rfl := (List.mem_cons.1 hq).resolve_right hlater
        rw [loads_of_notMem hlater, Function.update_self]
        exact h 0 (Nat.succ_pos _)

/-- A block that starts with pops. -/
theorem run_pops {rs : List ρ} (hrs : A.sp ∉ rs) (hword : c.regs A.sp + 8 * rs.length < 2 ^ 64) :
    A.run (rs.map .pop ++ rest) c =
      A.run rest ⟨Function.update (A.loads c.mem (c.regs A.sp) rs c.regs) A.sp (c.regs A.sp + 8 * rs.length),
        c.mem⟩ := by
  induction rs generalizing c with
  | nil =>
      rw [List.length_nil, Nat.mul_zero, Nat.add_zero, loads, Function.update_eq_self]
      rfl
  | cons r rs ih =>
      rw [List.length_cons] at hword ⊢
      obtain ⟨hne, hrest⟩ := List.ne_and_not_mem_of_not_mem_cons hrs
      have hnext : (c.regs A.sp + 8) % 2 ^ 64 = c.regs A.sp + 8 := Nat.mod_eq_of_lt (by omega)
      obtain ⟨w, hw⟩ : ∃ w, w = loadLE c.mem (c.regs A.sp) 8 % 2 ^ A.bits r := ⟨_, rfl⟩
      have hstep : A.run ((r :: rs).map .pop ++ rest) c = A.run (rs.map .pop ++ rest)
          ⟨Function.update (Function.update c.regs r w) A.sp (c.regs A.sp + 8), c.mem⟩ := by
        rw [List.map_cons, List.cons_append, run]
        simp only [hnext]
        rw [Function.update_comm hne, hw]
      have hplace : c.regs A.sp + 8 + 8 * rs.length = c.regs A.sp + 8 * (rs.length + 1) := by omega
      rw [hstep, ih hrest]
      · simp only [Function.update_self]
        rw [loads_update hrest, Function.update_idem, hplace, loads, hw]
      · simp only [Function.update_self]
        omega

/-- A block that saves operands on the stack and calls with their address. -/
theorem run_save {vs : List (Operand ρ)} {dst : ρ} {label next : Nat}
    (hvs : ∀ v ∈ vs, ∀ r, v = .reg r → r ≠ A.sp) (hdst : A.sp ≠ dst)
    (hroom : 8 * (vs.length + 1) ≤ c.regs A.sp) (hword : c.regs A.sp < 2 ^ 64) :
    ∃ regs, A.run (vs.map .push ++ [.mov A.sp dst, .call label next]) c =
        (⟨regs, pushes c.mem (c.regs A.sp) ((vs.map fun v => v.value c.regs) ++ [next])⟩, .call label) ∧
      regs dst = c.regs A.sp - 8 * vs.length := by
  obtain ⟨c₁, hc₁⟩ : ∃ c₁ : Cpu ρ, c₁ =
      ⟨Function.update (Function.update c.regs A.sp (c.regs A.sp - 8 * vs.length)) dst
        (c.regs A.sp - 8 * vs.length), pushes c.mem (c.regs A.sp) (vs.map fun v => v.value c.regs)⟩ := ⟨_, rfl⟩
  have hsp : c₁.regs A.sp = c.regs A.sp - 8 * vs.length := by
    rw [hc₁]
    exact (Function.update_of_ne hdst ..).trans (Function.update_self ..)
  have hrun : A.run (vs.map .push ++ [.mov A.sp dst, .call label next]) c = (A.pushWord c₁ next, .call label) := by
    rw [run_pushes hvs (by omega) hword, hc₁, run, run]
    simp only [Function.update_self]
  have hpush := pushWord_eq (A := A) (c := c₁) (w := next) (by omega) (by omega)
  refine ⟨Function.update c₁.regs A.sp (c₁.regs A.sp - 8), ?_, ?_⟩
  · rw [hrun, hpush, pushes_append, hsp, List.length_map, hc₁]
    rfl
  · rw [Function.update_of_ne hdst.symm, hc₁]
    exact Function.update_self ..

/-- A block that loads all registers from an address: the first ones by pops, the others by `iret`. -/
theorem run_restore {rs : List ρ} {src : ρ} {n : Nat} {f : ρ → Nat} (hrs : A.sp ∉ rs)
    (hpops : ∀ i (hi : i < rs.length), loadLE c.mem (c.regs src + 8 * i) 8 % 2 ^ A.bits rs[i] = f rs[i])
    (hiret : ∀ i (hi : i < A.returned.length),
      loadLE c.mem (c.regs src + 8 * rs.length + n + 8 * i) 8 % 2 ^ A.bits A.returned[i] = f A.returned[i])
    (hall : ∀ r, r ∈ rs ∨ r ∈ A.returned) (hword : c.regs src + 8 * rs.length + n < 2 ^ 64) :
    A.run (.mov src A.sp :: (rs.map .pop ++ [.add n A.sp, .iret])) c = (⟨f, c.mem⟩, .iret) := by
  obtain ⟨c₁, hc₁⟩ : ∃ c₁ : Cpu ρ, c₁ = ⟨Function.update c.regs A.sp (c.regs src), c.mem⟩ := ⟨_, rfl⟩
  have hsp : c₁.regs A.sp = c.regs src := by
    rw [hc₁]
    exact Function.update_self ..
  have hmem : c₁.mem = c.mem := by rw [hc₁]
  have hstart : A.run (.mov src A.sp :: (rs.map .pop ++ [.add n A.sp, .iret])) c =
      A.run (rs.map .pop ++ [.add n A.sp, .iret]) c₁ := by rw [hc₁, run]
  have hadd : (c.regs src + 8 * rs.length + n) % 2 ^ 64 = c.regs src + 8 * rs.length + n := Nat.mod_eq_of_lt hword
  have hloads : A.run (rs.map .pop ++ [.add n A.sp, .iret]) c₁ =
      (⟨A.loads c.mem (c.regs src + 8 * rs.length + n) A.returned (Function.update
        (A.loads c.mem (c.regs src) rs c₁.regs) A.sp (c.regs src + 8 * rs.length + n)), c.mem⟩, .iret) := by
    rw [run_pops hrs (by omega), run, run, hsp, hmem]
    simp only [Function.update_self, Function.update_idem, hadd]
  rw [hstart, hloads]
  congr 2
  funext q
  by_cases hq : q ∈ A.returned
  · exact loads_of_mem hiret hq
  · have hpopped := (hall q).resolve_right hq
    have hne : q ≠ A.sp := by
      rintro rfl
      exact hrs hpopped
    rw [loads_of_notMem hq, Function.update_of_ne hne]
    exact loads_of_mem hpops hpopped

end Blocks

end Arch

end MemoryManagement.Library.StackCode
