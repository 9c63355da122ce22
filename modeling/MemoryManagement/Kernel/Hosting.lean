import MemoryManagement.Kernel.FreshHeap

/-!
# Programs that run in a process

A program with a heap runs in a process of the kernel (`HostStep`): its loads and stores go through the page
table of the process and fault where no page has come in, its `sbrk` calls are system calls, and between any two
of its accesses it may be interrupted, other processes make contained steps, and it may store elsewhere.

Whatever happens in between, what is left of the program comes to what the program comes to on a memory of its own,
unless the kernel has ended the process (`HostStep.run_sound`).
-/

set_option autoImplicit false

namespace MemoryManagement.Kernel

open MemoryManagement.Library.ByteMemory
open MemoryManagement.Library.Accesses (Program Within)

/-! ## The program on its own -/

/-- `sbrk` as it is for increments that are not negative: the new break and the result. -/
def grow (b n : Nat) : Nat × Nat :=
  if b + n < MEMSIZE_VIRTUAL - PAGESIZE then (b + n, b) else (b, 2 ^ 64 - 1)

/-- The addresses of a heap from `lo` up to the break. -/
def HeapPart (lo b x : Nat) : Prop := lo ≤ x ∧ x < b

/-- The sign of the increment is not set. -/
def Rising (n : Nat) : Prop := ¬ Negative n

/-! ## The program in a process -/

/-- How far a process is with its program. -/
inductive Standing (α : Type) where
  | running (p : Program α)
  | killed

section Hosted

variable {α : Type}

/-- The next access is to `a`, and the page table does not let it through. -/
def Denied (s : State) (pid : Nat) : Program α → Nat → Prop
  | .load x _, a => a = x ∧ ¬ UserReadable s.mem (s.processes pid).pagetable x
  | .store x _ _, a => a = x ∧ ¬ UserWritable s.mem (s.processes pid).pagetable x
  | _, _ => False

/-- One step of the system while the process `pid` runs a program in its heap, which starts at `lo`. -/
inductive HostStep (pid lo : Nat) : State × Standing α → State × Standing α → Prop where
  -- another process makes a contained step
  | other {s s' : State} {p : Program α} (h : OtherStep pid s s') : HostStep pid lo (s, .running p) (s', .running p)
  -- the process stores to its stack or its data
  | aside {s : State} {p : Program α} {m : Mem} (hcurrent : s.current = pid) (h : CurrentChanges s m)
      (hheap : ∀ x, HeapRoom lo x → ({ s with mem := m } : State).cells pid x = s.cells pid x) :
      HostStep pid lo (s, .running p) ({ s with mem := m }, .running p)
  -- it is interrupted, or makes a system call that has nothing to do with its memory
  | called {s s' : State} {p : Program α} {reg : Registers} {addr : Nat} {next : Option Nat}
      (hcurrent : s.current = pid) (h : UserTrap s reg addr) (hquiet : Quiet (reg .intno))
      (hcode : exception s reg addr = .ok (s', next)) : HostStep pid lo (s, .running p) (s', .running p)
  | load {s : State} {x : Nat} {next : UInt8 → Program α} (hcurrent : s.current = pid)
      (hreadable : UserReadable s.mem (s.processes pid).pagetable x) :
      HostStep pid lo (s, .running (.load x next)) (s, .running (next (s.byteAt pid x)))
  | store {s : State} {x : Nat} {v : UInt8} {next : Program α} (hcurrent : s.current = pid)
      (hrunning : (s.processes pid).state = .runnable)
      (hwritable : UserWritable s.mem (s.processes pid).pagetable x) :
      HostStep pid lo (s, .running (.store x v next))
        ({ s with mem := Function.update s.mem (s.lookup pid x).pa v }, .running next)
  -- the access is tried again when the page fault has been handled
  | supplied {s s' : State} {p : Program α} {reg : Registers} {a : Nat} {next : Option Nat}
      (hcurrent : s.current = pid) (hdenied : Denied s pid p a) (h : UserTrap s reg a)
      (hintno : reg .intno = INT_PAGEFAULT) (hcontained : Contained s reg a)
      (hcode : exception s reg a = .ok (s', next)) (hlive : pid ∈ live s') :
      HostStep pid lo (s, .running p) (s', .running p)
  | killed {s s' : State} {p : Program α} {reg : Registers} {a : Nat} {next : Option Nat}
      (hcurrent : s.current = pid) (hdenied : Denied s pid p a) (h : UserTrap s reg a)
      (hintno : reg .intno = INT_PAGEFAULT) (hcontained : Contained s reg a)
      (hcode : exception s reg a = .ok (s', next)) (hdead : pid ∉ live s') :
      HostStep pid lo (s, .running p) (s', .killed)
  | sbrk {s s' : State} {n : Nat} {next : Nat → Program α} {reg : Registers} {addr : Nat} {after : Option Nat}
      (hcurrent : s.current = pid) (h : UserTrap s reg addr) (hintno : reg .intno = INT_SYS_SBRK)
      (hrdi : reg .rdi = n) (hcode : exception s reg addr = .ok (s', after)) :
      HostStep pid lo (s, .running (.ask n next)) (s', .running (next ((s'.processes pid).registers .rax)))

/-- The process holds a memory on which the rest of its program comes to `r`. -/
def Agrees (s : State) (pid lo : Nat) (p : Program α) (r : Option (α × Mem × Nat)) : Prop :=
  ∃ m b, (s.slot pid).Holds lo b m ∧ Within grow (HeapPart lo) Rising p m b ∧ Library.Accesses.run grow p m b = r

/-! ## What a step keeps -/

section Steps

variable {s s' : State} {T : Nat → Tables} {pid lo : Nat} {p : Program α} {r : Option (α × Mem × Nat)}

theorem Slot.Holds.live {b : Nat} {m : Mem} (h : (s.slot pid).Holds lo b m) : pid ∈ live s := slot_alive.1 h.alive

/-- The cells of a process are the memory of its slot. -/
theorem Slot.Holds.cells {b : Nat} {m : Mem} (h : (s.slot pid).Holds lo b m) :
    (s.slot pid).memory = s.cells pid ∧ (s.processes pid).programBreak = b ∧
      (s.processes pid).originalBreak = lo := by
  have hslot := slot_of_live h.live
  have hhigh := h.high
  have hlow := h.low
  rw [hslot] at hhigh hlow ⊢
  exact ⟨rfl, hhigh, hlow⟩

/-- The heap is a part of the address space that the process may have. -/
theorem Slot.Holds.room {b x : Nat} {m : Mem} (h : (s.slot pid).Holds lo b m) (hsep : Separate s T)
    (hlo : PROC_START_ADDR ≤ lo) (hx : HeapPart lo b x) : HeapRoom lo x ∧ UserPart x := by
  have hlimit := hsep.family.limit pid
  rw [h.cells.2.1] at hlimit
  have hbelow : x < MEMSIZE_VIRTUAL - PAGESIZE := Nat.lt_trans hx.2 hlimit
  exact ⟨⟨hx.1, hbelow⟩, Nat.le_trans hlo hx.1, Nat.lt_of_lt_of_le hbelow (Nat.sub_le ..)⟩

/-- What a load finds. -/
theorem Slot.Holds.loaded {b x : Nat} {m : Mem} (h : (s.slot pid).Holds lo b m) (hx : HeapRoom lo x)
    (huser : UserPart x) (hm : s.HasPage pid x) : s.byteAt pid x = m x := by
  have hcell : s.cells pid x = some ⟨decide ((s.lookup pid x).perm &&& PTE_W ≠ 0), s.byteAt pid x⟩ :=
    cells_of_page huser hm
  have hmemory : (s.slot pid).memory x = _ := (congrFun h.cells.1 x).trans hcell
  exact congrArg Cell.byte (h.cell hx hmemory)

/-- An access to the heap is let through where a page has come in. -/
theorem Slot.Holds.denied {b a : Nat} {m : Mem} (h : (s.slot pid).Holds lo b m) (hsep : Separate s T)
    (ha : HeapRoom lo a) (hdenied : Denied s pid p a) : s.cells pid a = none := by
  cases hcell : s.cells pid a with
  | none => rfl
  | some c =>
      have hwritable : c.writable = true := by
        rw [h.cell ha ((congrFun h.cells.1 a).trans hcell)]
      cases p with
      | load x next =>
          obtain ⟨rfl, hnot⟩ := hdenied
          exact absurd (hsep.readable_of_cell h.live hcell hwritable) hnot
      | store x v next =>
          obtain ⟨rfl, hnot⟩ := hdenied
          exact absurd (hsep.writable_of_cell h.live hcell hwritable) hnot
      | done _ => exact hdenied.elim
      | stuck => exact hdenied.elim
      | ask _ _ => exact hdenied.elim

/-- The access that is not let through is one to the heap. -/
theorem Denied.heapPart {b a : Nat} {m : Mem} (h : Denied s pid p a) (hwithin : Within grow (HeapPart lo) Rising p m b) :
    HeapPart lo b a := by
  cases p with
  | load x next =>
      obtain ⟨rfl, -⟩ := h
      exact hwithin.1
  | store x v next =>
      obtain ⟨rfl, -⟩ := h
      exact hwithin.1
  | done _ => exact h.elim
  | stuck => exact h.elim
  | ask _ _ => exact h.elim

/-- Only the slot of the process matters. -/
theorem Agrees.of_holds (h : Agrees s pid lo p r)
    (hslot : ∀ m b, (s.slot pid).Holds lo b m → (s'.slot pid).Holds lo b m) : Agrees s' pid lo p r := by
  obtain ⟨m, b, hholds, hrest⟩ := h
  exact ⟨m, b, hslot m b hholds, hrest⟩

theorem Agrees.live (h : Agrees s pid lo p r) : pid ∈ Kernel.live s := by
  obtain ⟨m, b, hholds, -⟩ := h
  exact hholds.live

/-! ## What other processes and other stores leave alone -/

theorem Agrees.other (h : Agrees s pid lo p r) (hsep : Separate s T) (hstep : OtherStep pid s s') :
    Agrees s' pid lo p r := by
  obtain ⟨hne, hstep⟩ := hstep
  obtain ⟨e, hworld⟩ := system_simulated.agrees s s' ⟨T, hsep⟩ hstep
  have hsame : s'.slot pid = s.slot pid := hworld.other hne (slot_alive.2 h.live)
  refine h.of_holds fun m b hholds => ?_
  rw [hsame]
  exact hholds

theorem Agrees.aside (h : Agrees s pid lo p r) {m : Mem}
    (hheap : ∀ x, HeapRoom lo x → ({ s with mem := m } : State).cells pid x = s.cells pid x) :
    Agrees { s with mem := m } pid lo p r := by
  have hpid := h.live
  refine h.of_holds fun m₀ b hholds => hholds.congr ?_ ?_ ?_ fun x hx => ?_
  · rw [slot_of_live hpid, slot_of_live (s := { s with mem := m }) hpid]
  · rw [slot_of_live hpid, slot_of_live (s := { s with mem := m }) hpid]
  · rw [slot_of_live hpid, slot_of_live (s := { s with mem := m }) hpid]
  · rw [slot_of_live hpid, slot_of_live (s := { s with mem := m }) hpid]
    exact hheap x hx

/-! ## System calls -/

/-- The effect of a trap, on the slot with the registers saved. -/
theorem Separate.trap_effect (h : Separate s T) {reg : Registers} {addr : Nat} {next : Option Nat}
    (htrap : UserTrap s reg addr) (hcontained : Contained s reg addr)
    (hcode : exception s reg addr = .ok (s', next)) :
    ∃ slots : Nat → Slot, slots s.current = { s.slot s.current with registers := reg } ∧
      Effect s.current s.full addr slots s'.slot := by
  obtain ⟨-, hstep, -⟩ := h.exception_refines htrap hcontained hcode
  exact ⟨s.world.saved reg, Function.update_self .., hstep.trap_effect⟩

theorem Agrees.called (h : Agrees s pid lo p r) (hsep : Separate s T) (hcurrent : s.current = pid) {reg : Registers}
    {addr : Nat} {next : Option Nat} (htrap : UserTrap s reg addr) (hquiet : Quiet (reg .intno))
    (hcode : exception s reg addr = .ok (s', next)) : SystemStep s s' ∧ Agrees s' pid lo p r := by
  have hcontained : Contained s reg addr := by
    apply contained_of_number
    · exact List.mem_append_left [INT_SYS_SBRK] hquiet
    · intro hsbrk
      rw [hsbrk] at hquiet
      exact absurd hquiet (by decide)
  obtain ⟨slots, hslot, heffect⟩ := hsep.trap_effect htrap hcontained hcode
  have hpid := h.live
  rw [hcurrent] at hslot heffect
  obtain ⟨halive, hlow, hhigh, hmemory⟩ := heffect.quiet (by rw [hslot]; exact slot_alive.2 hpid)
    (by rw [hslot]; exact hquiet)
  rw [hslot] at hlow hhigh hmemory
  refine ⟨SystemStep.trap htrap hcontained hcode, h.of_holds fun m b hholds => hholds.congr ?_ hlow hhigh fun x _ => congrFun hmemory x⟩
  rw [halive, hholds.alive]

/-- The result of a refused call, in a register. -/
theorem signExtend_neg_one : signExtend (-1) = 2 ^ 64 - 1 := by decide

/-- `sbrk` does what `grow` does. -/
theorem Slot.Holds.grown {q q' : Slot} {b n addr : Nat} {full : Bool} {m : Mem} (h : q.Holds lo b m)
    (hlimit : b < MEMSIZE_VIRTUAL - PAGESIZE) (hintno : q.registers .intno = INT_SYS_SBRK)
    (hrdi : q.registers .rdi = n) (hrising : Rising n) (hcall : Call pid full addr q q') :
    q'.Holds lo (grow b n).1 m ∧ q'.registers .rax = (grow b n).2 := by
  have htarget : q.target = b + n := by
    rw [Slot.target, if_pos hintno, hrdi, h.high]
    simp only [Rising, Negative, MEMSIZE_VIRTUAL, PAGESIZE] at hrising hlimit
    omega
  have haccepts : q.Accepts ↔ b + n < MEMSIZE_VIRTUAL - PAGESIZE := by
    rw [Slot.Accepts, htarget, h.low]
    exact and_iff_right (Nat.le_trans h.ordered (Nat.le_add_right b n))
  rcases hcall.sbrk_cases hintno with ⟨hnot, rfl⟩ | ⟨hyes, rfl⟩
  · rw [haccepts] at hnot
    rw [grow, if_neg hnot]
    refine ⟨h.returning (-1), ?_⟩
    show Function.update q.registers .rax (signExtend (-1)) .rax = _
    rw [Function.update_self, signExtend_neg_one]
  · rw [haccepts] at hyes
    rw [grow, if_pos hyes]
    have hup : ¬ q.target < q.high := by
      rw [htarget, h.high]
      exact Nat.not_lt.2 (Nat.le_add_right b n)
    refine ⟨⟨h.alive, h.low, htarget, Nat.le_trans h.ordered (Nat.le_add_right b n), fun x hx => ?_⟩, ?_⟩
    · show (q.moved.memory x).getD _ = _
      rw [Slot.moved, if_neg hup]
      exact h.bytes x hx
    · show Function.update q.registers .rax (signExtend q.high) .rax = _
      rw [Function.update_self, h.high]
      apply signExtend_natCast
      simp only [MEMSIZE_VIRTUAL, PAGESIZE] at hlimit
      omega

theorem Agrees.sbrk {n : Nat} {next : Nat → Program α} (h : Agrees s pid lo (.ask n next) r) (hsep : Separate s T)
    (hcurrent : s.current = pid) {reg : Registers} {addr : Nat} {after : Option Nat} (htrap : UserTrap s reg addr)
    (hintno : reg .intno = INT_SYS_SBRK) (hrdi : reg .rdi = n) (hcode : exception s reg addr = .ok (s', after)) :
    SystemStep s s' ∧ Agrees s' pid lo (next ((s'.processes pid).registers .rax)) r := by
  obtain ⟨m, b, hholds, ⟨hrising, hwithin⟩, hrun⟩ := h
  have hcontained : Contained s reg addr := by
    apply contained_of_number
    · rw [hintno]
      decide
    · intro _
      rw [hrdi]
      exact hrising
  obtain ⟨slots, hslot, heffect⟩ := hsep.trap_effect htrap hcontained hcode
  rw [hcurrent] at hslot heffect
  have hsaved : Slot.Holds (slots pid) lo b m := by
    rw [hslot]
    exact hholds.congr rfl rfl rfl fun _ _ => rfl
  have hcall : Call pid s.full addr (slots pid) (s'.slot pid) := by
    apply heffect.call
    rw [hslot]
    show reg .intno ≠ _
    rw [hintno]
    decide
  have hlimit := hsep.family.limit pid
  rw [hholds.cells.2.1] at hlimit
  obtain ⟨hholds', hrax⟩ := hsaved.grown hlimit (by rw [hslot]; exact hintno) (by rw [hslot]; exact hrdi) hrising
    hcall
  have hregs : (s'.processes pid).registers .rax = (grow b n).2 := by
    rw [← hrax, slot_of_live hholds'.live]
  rw [hregs]
  exact ⟨SystemStep.trap htrap hcontained hcode, m, (grow b n).1, hholds', hwithin, hrun⟩

/-! ## Accesses -/

theorem UserReadable.mapped {m : Mem} {root va : Nat} (h : UserReadable m root va) : Mapped m root va := by
  intro hnone
  rw [UserReadable, hnone] at h
  exact absurd h (by decide)

theorem Agrees.load {x : Nat} {next : UInt8 → Program α} (h : Agrees s pid lo (.load x next) r) (hsep : Separate s T)
    (hlo : PROC_START_ADDR ≤ lo) (hreadable : UserReadable s.mem (s.processes pid).pagetable x) :
    Agrees s pid lo (next (s.byteAt pid x)) r := by
  obtain ⟨m, b, hholds, ⟨hpart, hwithin⟩, hrun⟩ := h
  obtain ⟨hroom, huser⟩ := hholds.room hsep hlo hpart
  rw [hholds.loaded hroom huser hreadable.mapped]
  exact ⟨m, b, hholds, hwithin, hrun⟩

theorem Agrees.store {x : Nat} {v : UInt8} {next : Program α} (h : Agrees s pid lo (.store x v next) r)
    (hsep : Separate s T) (hlo : PROC_START_ADDR ≤ lo)
    (hwritable : UserWritable s.mem (s.processes pid).pagetable x) {m : Mem}
    (hm : m = Function.update s.mem (s.lookup pid x).pa v) :
    UserChanges s.mem m (s.processes pid).pagetable ∧ Agrees { s with mem := m } pid lo next r := by
  obtain ⟨m₀, b, hholds, ⟨hpart, hwithin⟩, hrun⟩ := h
  obtain ⟨-, huser⟩ := hholds.room hsep hlo hpart
  obtain ⟨hchanges, hcells⟩ := hsep.store_cells hholds.live huser hwritable hm
  refine ⟨hchanges, Function.update m₀ x v, b, ?_, hwithin, hrun⟩
  refine (hholds.stored v).congr ?_ ?_ ?_ fun y _ => ?_
  · rw [slot_of_live hholds.live, slot_of_live (s := { s with mem := m }) hholds.live]
  · rw [slot_of_live hholds.live, slot_of_live (s := { s with mem := m }) hholds.live]
  · rw [slot_of_live hholds.live, slot_of_live (s := { s with mem := m }) hholds.live]
  · rw [slot_of_live (s := { s with mem := m }) hholds.live]
    show ({ s with mem := m } : State).cells pid y = Function.update (s.slot pid).memory x _ y
    rw [hcells, hholds.cells.1]

/-! ## Page faults -/

/-- The access faults where a page is missing, and the handler brings one in, or there is none. -/
theorem Agrees.fault (h : Agrees s pid lo p r) (hsep : Separate s T) (hlo : PROC_START_ADDR ≤ lo)
    (hcurrent : s.current = pid) {a : Nat} (hdenied : Denied s pid p a) {reg : Registers} {next : Option Nat}
    (htrap : UserTrap s reg a) (hintno : reg .intno = INT_PAGEFAULT) (hcontained : Contained s reg a)
    (hcode : exception s reg a = .ok (s', next)) :
    SystemStep s s' ∧ (Agrees s' pid lo p r ∨ pid ∉ Kernel.live s' ∧ s.full = true) := by
  obtain ⟨m, b, hholds, hwithin, hrun⟩ := h
  have hpart := hdenied.heapPart hwithin
  obtain ⟨hroom, huser⟩ := hholds.room hsep hlo hpart
  have hnone := hholds.denied hsep hroom hdenied
  obtain ⟨slots, hslot, heffect⟩ := hsep.trap_effect htrap hcontained hcode
  rw [hcurrent] at hslot heffect
  have hsaved : Slot.Holds (slots pid) lo b m := by
    rw [hslot]
    exact hholds.congr rfl rfl rfl fun _ _ => rfl
  have hnumber : (slots pid).registers .intno = INT_PAGEFAULT := by
    rw [hslot]
    exact hintno
  have hmemory : (slots pid).memory = s.cells pid := by
    rw [hslot]
    exact hholds.cells.1
  have hcall : Call pid s.full a (slots pid) (s'.slot pid) := by
    apply heffect.call
    rw [hnumber]
    decide
  refine ⟨SystemStep.trap htrap hcontained hcode, ?_⟩
  rcases hcall.fault_cases hnumber with hfilled | ⟨hended, hwhy⟩
  · refine Or.inl ⟨m, b, ?_, hwithin, hrun⟩
    rw [hfilled]
    refine hsaved.filled fun x hx hpage => ?_
    have huser' : UserPart x := ⟨Nat.le_trans hlo hx.1, Nat.lt_of_lt_of_le hx.2 (Nat.sub_le ..)⟩
    rw [hmemory]
    exact cells_page huser huser' hpage.symm hnone
  · refine Or.inr ⟨?_, hwhy ⟨huser.1, ?_, ?_, ?_⟩⟩
    · intro hlive
      have halive := slot_alive.2 hlive
      rw [hended] at halive
      cases halive
    · rw [hsaved.low]
      exact hpart.1
    · rw [hsaved.high]
      exact hpart.2
    · rw [hmemory]
      exact hnone

end Steps

/-! ## Runs -/

section Runs

variable {s s' : State} {T : Nat → Tables} {pid lo : Nat} {p : Program α} {r : Option (α × Mem × Nat)}

/-- A process is as far as its program, which has come to `r` or will; or it has been killed. -/
def Standing.Sound (s : State) (pid lo : Nat) (r : Option (α × Mem × Nat)) : Standing α → Prop
  | .running p => Agrees s pid lo p r
  | .killed => pid ∉ live s

/-- One step is one of the system, or none, and leaves the program on its way. -/
theorem HostStep.sound {c c' : State × Standing α} (h : HostStep pid lo c c') (hsep : Separate c.1 T)
    (hlo : PROC_START_ADDR ≤ lo) (hsound : c.2.Sound c.1 pid lo r) :
    Relation.ReflTransGen SystemStep c.1 c'.1 ∧ c'.2.Sound c'.1 pid lo r := by
  cases h with
  | other hstep => exact ⟨Relation.ReflTransGen.single hstep.2, Agrees.other hsound hsep hstep⟩
  | aside _ hchanges hheap =>
      exact ⟨Relation.ReflTransGen.single (SystemStep.changes hchanges), Agrees.aside hsound hheap⟩
  | called hcurrent htrap hquiet hcode =>
      obtain ⟨hstep, hagrees⟩ := Agrees.called hsound hsep hcurrent htrap hquiet hcode
      exact ⟨Relation.ReflTransGen.single hstep, hagrees⟩
  | load _ hreadable => exact ⟨Relation.ReflTransGen.refl, Agrees.load hsound hsep hlo hreadable⟩
  | store hcurrent hrunning hwritable =>
      obtain ⟨hchanges, hagrees⟩ := Agrees.store hsound hsep hlo hwritable rfl
      subst hcurrent
      have hstep := CurrentChanges.mk (mem_live.1 (Agrees.live hsound)).1 hrunning hchanges
      exact ⟨Relation.ReflTransGen.single (SystemStep.changes hstep), hagrees⟩
  | supplied hcurrent hdenied htrap hintno hcontained hcode hlive =>
      obtain ⟨hstep, hagrees | ⟨hdead, -⟩⟩ :=
        Agrees.fault hsound hsep hlo hcurrent hdenied htrap hintno hcontained hcode
      · exact ⟨Relation.ReflTransGen.single hstep, hagrees⟩
      · exact absurd hlive hdead
  | killed hcurrent hdenied htrap hintno hcontained hcode hdead =>
      have hstep := (Agrees.fault hsound hsep hlo hcurrent hdenied htrap hintno hcontained hcode).1
      exact ⟨Relation.ReflTransGen.single hstep, hdead⟩
  | sbrk hcurrent htrap hintno hrdi hcode =>
      obtain ⟨hstep, hagrees⟩ := Agrees.sbrk hsound hsep hcurrent htrap hintno hrdi hcode
      exact ⟨Relation.ReflTransGen.single hstep, hagrees⟩

theorem HostStep.run_sound {c c' : State × Standing α} (h : Relation.ReflTransGen (HostStep pid lo) c c')
    (hsep : Separate c.1 T) (hlo : PROC_START_ADDR ≤ lo) (hsound : c.2.Sound c.1 pid lo r) :
    Relation.ReflTransGen SystemStep c.1 c'.1 ∧ c'.2.Sound c'.1 pid lo r := by
  induction h with
  | refl => exact ⟨Relation.ReflTransGen.refl, hsound⟩
  | tail _ hstep ih =>
      obtain ⟨hrun, hsound₁⟩ := ih
      obtain ⟨T₁, hsep₁⟩ := (system_simulated.run ⟨T, hsep⟩ hrun).1
      obtain ⟨hrun', hsound'⟩ := hstep.sound hsep₁ hlo hsound₁
      exact ⟨hrun.trans hrun', hsound'⟩

/-- A process is killed only when no page is left. -/
theorem HostStep.killed_full {st : Standing α} (h : HostStep pid lo (s, st) (s', .killed)) (hsep : Separate s T)
    (hlo : PROC_START_ADDR ≤ lo) (hsound : st.Sound s pid lo r) : s.full = true := by
  cases h with
  | killed hcurrent hdenied htrap hintno hcontained hcode hdead =>
      obtain ⟨-, hagrees | ⟨-, hfull⟩⟩ :=
        Agrees.fault hsound hsep hlo hcurrent hdenied htrap hintno hcontained hcode
      · exact absurd hagrees.live hdead
      · exact hfull

end Runs

end Hosted

end MemoryManagement.Kernel
