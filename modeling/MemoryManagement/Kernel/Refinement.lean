import MemoryManagement.Kernel.Scheduling
import MemoryManagement.Kernel.Separation
import MemoryManagement.Library.Simulation

/-!
# The kernel and the private memories

With page tables, page counts and the switch of `exception`, the kernel implements the machine in which
processes have memories of their own (`kernel_refines`). A handler that keeps `Separate` and changes the slot of
its process as a call of the machine does has been `Served`; there is one lemma for each case of the switch.
-/

set_option autoImplicit false

namespace MemoryManagement.Kernel

open MemoryManagement.Library.ByteMemory
open MemoryManagement.Library.RefCount
open MemoryManagement.Library.Simulation

/-! ## What a state looks like to processes -/

/-- The slot of a process. -/
def State.slot (s : State) (pid : Nat) : Slot :=
  let p := s.processes pid
  if pid ∈ live s then ⟨true, p.registers, p.originalBreak, p.programBreak, s.cells pid⟩
  else ⟨false, fun _ => 0, p.originalBreak, p.programBreak, fun _ => none⟩

/-- No page is left. -/
def State.full (s : State) : Bool := (findFreePage s.pageinfo).isNone

/-- The state without page tables and page counts. -/
def State.world (s : State) : World := ⟨s.slot, s.current, s.full⟩

/-- The live processes other than `pid` have kept their slots, their translations and their bytes. -/
structure LiveKept (s s' : State) (pid : Nat) : Prop where
  processes : ∀ j ∈ live s, j ≠ pid → s'.processes j = s.processes j
  lookup : ∀ j ∈ live s, j ≠ pid → ∀ va, s'.lookup j va = s.lookup j va
  bytes : ∀ j ∈ live s, j ≠ pid → ∀ va, UserPart va → s.HasPage j va → s'.byteAt j va = s.byteAt j va

section Slots

variable {s s₁ s' : State} {pid j : Nat}

theorem slot_of_live (h : pid ∈ live s) :
    s.slot pid = ⟨true, (s.processes pid).registers, (s.processes pid).originalBreak,
      (s.processes pid).programBreak, s.cells pid⟩ :=
  if_pos h

theorem slot_of_free (h : pid ∉ live s) :
    s.slot pid = ⟨false, fun _ => 0, (s.processes pid).originalBreak, (s.processes pid).programBreak,
      fun _ => none⟩ :=
  if_neg h

theorem slot_alive : (s.slot pid).alive = true ↔ pid ∈ live s := by
  by_cases h : pid ∈ live s
  · rw [slot_of_live h]
    exact ⟨fun _ => h, fun _ => rfl⟩
  · rw [slot_of_free h]
    exact ⟨fun e => Bool.noConfusion e, fun e => absurd e h⟩

/-- A slot is the same where the process and its cells are. -/
theorem slot_congr (hproc : s'.processes j = s.processes j) (hcells : j ∈ live s → s'.cells j = s.cells j) :
    s'.slot j = s.slot j := by
  have hlive : j ∈ live s' ↔ j ∈ live s := by rw [mem_live, mem_live, hproc]
  by_cases h : j ∈ live s
  · rw [slot_of_live h, slot_of_live (hlive.2 h), hproc, hcells h]
  · rw [slot_of_free h, slot_of_free fun e => h (hlive.1 e), hproc]

theorem OthersKept.slot (h : OthersKept s s' pid) : s'.slot = Function.update s.slot pid (s'.slot pid) := by
  funext j
  by_cases hj : j = pid
  · rw [hj, Function.update_self]
  · rw [Function.update_of_ne hj]
    exact slot_congr (h.processes j hj) fun hlive => h.cells hlive hj

theorem OthersKept.live_kept (h : OthersKept s s' pid) : LiveKept s s' pid :=
  ⟨fun j _ => h.processes j, h.lookup, h.bytes⟩

theorem OthersKept.setProc (s : State) (pid : Nat) (p : Proc) : OthersKept s (s.setProc pid p) pid :=
  OthersKept.of_mem (State.setProc_mem ..) fun _ hj => State.setProc_other s _ hj

/-- Only the result register of the running process changes. -/
theorem setRax_cells (s : State) (r : Int) (j : Nat) : (setRax s r).cells j = s.cells j := by
  have hroots : ∀ j, ((setRax s r).processes j).pagetable = (s.processes j).pagetable :=
    State.setProc_pagetable s rfl
  funext va
  apply cells_congr
  · rw [State.lookup, State.lookup, hroots]
    rfl
  · exact fun _ _ => rfl

theorem setRax_slots (hpid : s.current ∈ live s) (r : Int) :
    (setRax s r).slot = Function.update s.slot s.current ((s.slot s.current).returning r) := by
  have hkept : OthersKept s (setRax s r) s.current := OthersKept.setProc ..
  have hlive : s.current ∈ live (setRax s r) := by
    rw [(Alike.setRax s r).live]
    exact hpid
  have hself : (setRax s r).processes s.current = _ := State.setProc_self ..
  rw [hkept.slot, slot_of_live hlive, slot_of_live hpid, setRax_cells, hself]
  rfl

theorem LiveKept.trans_others (h : LiveKept s s₁ pid) (h' : OthersKept s₁ s' pid)
    (hlive : ∀ j ∈ live s, j ≠ pid → j ∈ live s₁) : LiveKept s s' pid := by
  constructor
  · intro j hj hne
    rw [h'.processes j hne, h.processes j hj hne]
  · intro j hj hne va
    rw [h'.lookup j (hlive j hj hne) hne, h.lookup j hj hne]
  · intro j hj hne va huser hm
    have hm₁ : s₁.HasPage j va := by
      have hsame := h.lookup j hj hne va
      rw [State.lookup, State.lookup] at hsame
      rw [State.HasPage, Mapped, hsame]
      exact hm
    rw [h'.bytes j (hlive j hj hne) hne va huser hm₁, h.bytes j hj hne va huser hm]

end Slots

/-! ## Handlers -/

/-- The handler has kept `Separate`, and has done what the machine of the private memories does. -/
structure Served (s s' : State) (addr : Nat) : Prop where
  separate : ∃ T, Separate s' T
  current : s'.current = s.current
  effect : Effect s.current s.full addr s.slot s'.slot
  kept : LiveKept s s' s.current

section Served

variable {s s₁ s' : State} {T : Nat → Tables} {addr : Nat}

/-- A handler that concerns its process only. -/
theorem Served.own (hsep : Separate s' T) (hcurrent : s'.current = s.current)
    (hkept : OthersKept s s' s.current)
    (hcall : Call s.current s.full addr (s.slot s.current) (s'.slot s.current)) : Served s s' addr := by
  refine ⟨⟨T, hsep⟩, hcurrent, ?_, hkept.live_kept⟩
  rw [hkept.slot]
  exact Effect.own hcall

/-- A handler that stores a result last. -/
theorem Served.returning {r : Int} (hsep : Separate s₁ T) (hcurrent : s₁.current = s.current)
    (hkept : OthersKept s s₁ s.current) (hpid : s.current ∈ live s₁)
    (hcall : Call s.current s.full addr (s.slot s.current) ((s₁.slot s.current).returning r)) :
    Served s (setRax s₁ r) addr := by
  rw [← hcurrent] at hpid
  have hslots := setRax_slots hpid r
  have hresult : OthersKept s₁ (setRax s₁ r) s.current := by
    rw [← hcurrent]
    exact OthersKept.setProc ..
  refine Served.own (hsep.alike (Alike.setRax s₁ r)) hcurrent (hkept.trans hresult) ?_
  rw [hslots, hcurrent, Function.update_self]
  exact hcall

/-- A handler that nobody notices. -/
theorem Served.unseen (h : Separate s T) (hsame : Alike s s') (hcurrent : s'.current = s.current)
    (hother : ∀ j, j ≠ s.current → s'.processes j = s.processes j)
    (hregs : (s'.processes s.current).registers = (s.processes s.current).registers)
    (hlow : (s'.processes s.current).originalBreak = (s.processes s.current).originalBreak)
    (hpid : s.current ∈ live s)
    (hintno : (s.processes s.current).registers .intno ∈ [INT_SYS_YIELD, INT_TIMER, INT_SYS_MEM_TOG]) :
    Served s s' addr := by
  have hkept : OthersKept s s' s.current := OthersKept.of_mem hsame.mem hother
  have hpid' : s.current ∈ live s' := by
    rw [hsame.live]
    exact hpid
  have hcells : s'.cells s.current = s.cells s.current := by
    funext va
    apply cells_congr (hsame.lookup _ va)
    intro _ _
    rw [hsame.mem]
  have hslot : s'.slot s.current = s.slot s.current := by
    rw [slot_of_live hpid, slot_of_live hpid', hregs, hlow, hsame.break_eq, hcells]
  refine Served.own (h.alike hsame) hcurrent hkept ?_
  rw [hslot]
  apply Call.back
  rw [slot_of_live hpid]
  exact hintno

end Served

/-! ## Pages -/

section Pages

variable {s s₁ s' : State} {T : Nat → Tables} {addr : Nat}

/-- `palloc` fails when the machine has no page left. -/
theorem Accounted.full_iff {A : Finset Nat} {P : Finset Nat} (h : Accounted s A T P) :
    s.full = true ↔ ¬ ∃ q, q < 512 ∧ s.pageinfo q = ⟨PO_FREE, 0⟩ := by
  rw [State.full, Option.isNone_iff_eq_none]
  have hzero : 0 < NPROC := by decide
  rcases h.palloc hzero with ⟨hnone, hcode⟩ | ⟨pn, s₁, hfind, -, halloc⟩
  · refine ⟨fun _ hfree => ?_, fun _ => hnone⟩
    obtain ⟨pn, s₁, hcode₁, halloc⟩ := h.palloc_of_free hzero hfree
    rw [hcode] at hcode₁
    exact halloc.ordinary.page_ne_null (Prod.ext_iff.1 hcode₁).2.symm
  · rw [hfind]
    refine ⟨fun hnone => ?_, fun hnot => absurd ⟨pn, halloc.ordinary.lt, halloc.wasFree⟩ hnot⟩
    cases hnone

/-- A page that has been allocated is mapped with the bytes that it was filled with. -/
theorem Accounted.supply_fresh {pid i pn : Nat} (h : Accounted s (live s) T ∅) (hpid : pid ∈ live s)
    (hi : 256 ≤ i) (hi' : i < 768) (hunmapped : ¬ Mapped s.mem (T pid).l1 (PAGESIZE * i))
    (halloc : Allocated s s₁ pid pn) :
    ∃ m', virtualMemoryMap s₁.mem (T pid).l1 (PAGESIZE * i) (PAGESIZE * pn) PAGESIZE 7 = .ok (m', 0) ∧
      Supplied s { s₁ with mem := m' } (live s) T pid i pn ∧
      ∀ x, InRange (PAGESIZE * pn) PAGESIZE x → m' x = 0xCC := by
  obtain ⟨m', hmap, hsupplied, hcopied⟩ := h.supply hpid hi hi' hunmapped halloc fun _ _ => rfl
  refine ⟨m', hmap, hsupplied, fun x hx => ?_⟩
  rw [hcopied x hx]
  exact halloc.filled x hx

/-- The page of `addr` has come in. -/
theorem Separate.supplied_slot {i pn : Nat} (h : Separate s T) (hpid : s.current ∈ live s)
    (hs : Supplied s s' (live s) T s.current i pn) (hi : 256 ≤ i) (hi' : i < 768)
    (hfilled : ∀ x, InRange (PAGESIZE * pn) PAGESIZE x → s'.mem x = 0xCC)
    (hcall : Call s.current s.full addr (s.slot s.current)
      { s.slot s.current with memory := (s.slot s.current).memory.fill i }) : Served s s' addr := by
  obtain ⟨hsep, hkept⟩ := h.supplied hpid hs
  have hprocs := hs.only.processes
  have hlive : live s' = live s := live_congr fun j _ => by rw [hprocs]
  have hpid' : s.current ∈ live s' := by
    rw [hlive]
    exact hpid
  refine Served.own hsep hs.only.current hkept ?_
  rw [slot_of_live hpid', hprocs, h.supplied_cells hpid hs hi hi' hfilled]
  rw [slot_of_live hpid] at hcall ⊢
  exact hcall

theorem memory_eq_none {pid va : Nat} (hpid : pid ∈ live s) (huser : UserPart va) :
    (s.slot pid).memory va = none ↔ ¬ s.HasPage pid va := by
  rw [slot_of_live hpid]
  show s.cells pid va = none ↔ _
  rw [cells_eq_none]
  exact ⟨fun hnot => hnot huser, fun hnot _ => hnot⟩

/-- A process that ends. -/
theorem Separate.ended_served (h : Separate s T) (hpid : s.current ∈ live s)
    (hcode : processFree s s.current = .ok s')
    (hcall : Call s.current s.full addr (s.slot s.current) (s.slot s.current).ended) : Served s s' addr := by
  rw [h.family.accounted.processFree_eq hpid] at hcode
  obtain rfl := Except.ok.inj hcode
  obtain ⟨hsep, hkept⟩ := h.released hpid
  refine Served.own hsep rfl hkept ?_
  have hgone : s.current ∉ live (Kernel.released s (T s.current) s.current) := by
    rw [Isolated.live_released (T s.current)]
    exact Finset.notMem_erase _ _
  have hself : (Kernel.released s (T s.current) s.current).processes s.current = _ := State.setProc_self ..
  rw [slot_of_free hgone, hself]
  rw [slot_of_live hpid] at hcall ⊢
  exact hcall

end Pages

/-! ## Break calls -/

section Breaks

variable {s s' : State} {T : Nat → Tables} {addr d : Nat} {r : Int}

/-- `sbrk` of the running process: the break stays where it is, or it moves and, if it moves down, takes
pages along. -/
theorem Separate.sbrk_moves (h : Separate s T) (hpid : s.current ∈ live s) (hd : d < 2 ^ 64)
    (hhigh : StaysHigh (s.processes s.current) d) (hcode : sbrk s s.current d = .ok (s', r)) :
    (¬ BreakAccepted (s.processes s.current) d ∧ r = -1 ∧ s' = s) ∨
    (BreakAccepted (s.processes s.current) d ∧ r = (s.processes s.current).programBreak ∧
      Separate s' T ∧ OthersKept s s' s.current ∧ s'.current = s.current ∧ s.current ∈ live s' ∧
      s'.slot s.current = { s.slot s.current with
        high := newBreak (s.processes s.current) d
        memory := if newBreak (s.processes s.current) d < (s.slot s.current).high then
          (s.slot s.current).memory.drop (newBreak (s.processes s.current) d / PAGESIZE)
            (((s.slot s.current).high + PAGESIZE - 1) / PAGESIZE)
          else (s.slot s.current).memory }) := by
  have hlimit := h.family.limit s.current
  by_cases hacc : BreakAccepted (s.processes s.current) d
  · right
    -- the slot has the new break, whichever way it has moved
    have hslot : ∀ s₁, s₁.processes s.current = { s.processes s.current with
        programBreak := newBreak (s.processes s.current) d } → s.current ∈ live s₁ ∧
        s₁.slot s.current = { s.slot s.current with
          high := newBreak (s.processes s.current) d, memory := s₁.cells s.current } := by
      intro s₁ hself
      have hpid₁ : s.current ∈ live s₁ := by
        rw [mem_live, hself]
        exact mem_live.1 hpid
      rw [slot_of_live hpid₁, slot_of_live hpid, hself]
      exact ⟨hpid₁, rfl⟩
    by_cases hneg : Negative d
    · have hlow := hhigh hacc hneg
      have htable : TableOk s.mem (s.processes s.current).pagetable := by
        rw [h.family.accounted.root _ hpid]
        exact h.family.accounted.tableOk hpid
      rw [sbrk_lower hlimit hd htable hacc hneg (Nat.le_trans (by decide) hlow)] at hcode
      obtain ⟨rfl, rfl⟩ := ok_pair.1 hcode
      obtain ⟨hsep, hkept, hcells⟩ := h.lowered hpid hd hacc hneg hlow rfl
      obtain ⟨hpid', hself⟩ := hslot (shrunk s s.current d) (State.setProc_self ..)
      refine ⟨hacc, rfl, hsep, hkept, rfl, hpid', ?_⟩
      have hlt := newBreak_lt hlimit hd hneg hacc
      rw [hself, hcells, slot_of_live hpid, if_pos hlt]
    · rw [sbrk_grow hlimit hacc hneg] at hcode
      obtain ⟨rfl, rfl⟩ := ok_pair.1 hcode
      obtain ⟨s₁, hs₁⟩ : ∃ s₁, s₁ = s.setProc s.current { s.processes s.current with
          programBreak := newBreak (s.processes s.current) d } := ⟨_, rfl⟩
      have hproc : s₁.processes s.current = { s.processes s.current with
          programBreak := newBreak (s.processes s.current) d } := by
        rw [hs₁]
        exact State.setProc_self ..
      obtain ⟨hpid₁, hself⟩ := hslot s₁ hproc
      have hroots : ∀ j, (s₁.processes j).pagetable = (s.processes j).pagetable := by
        rw [hs₁]
        exact State.setProc_pagetable s rfl
      have hmem : s₁.mem = s.mem := by
        rw [hs₁]
        exact State.setProc_mem ..
      have hlive : live s₁ = live s := by
        rw [hs₁]
        exact live_congr fun j _ => by
          by_cases hj : j = s.current
          · rw [hj, State.setProc_self]
          · rw [State.setProc_other s _ hj]
      have hcells : s₁.cells s.current = s.cells s.current := by
        funext va
        apply cells_congr
        · rw [State.lookup, State.lookup, hroots, hmem]
        · intro _ _
          rw [hmem]
      have hge : ¬ newBreak (s.processes s.current) d < (s.processes s.current).programBreak := by
        have hnew := hacc.1
        simp only [newBreak, Negative, MEMSIZE_VIRTUAL, PAGESIZE] at hlimit hneg hnew ⊢
        omega
      rw [← hs₁]
      refine ⟨hacc, rfl, ⟨⟨?_, fun j => ?_⟩, ?_⟩, ?_, ?_, hpid₁, ?_⟩
      · rw [hlive]
        refine h.family.accounted.of_eq hmem ?_ fun j _ => hroots j
        rw [hs₁]
        rfl
      · by_cases hj : j = s.current
        · rw [hj, hproc]
          exact hacc.1
        · rw [hs₁, State.setProc_other s _ hj]
          exact h.family.limit j
      · rw [hlive, hmem]
        exact h.alone
      · rw [hs₁]
        exact OthersKept.setProc ..
      · rw [hs₁]
        rfl
      · rw [hself, hcells, slot_of_live hpid, if_neg hge]
  · rw [sbrk_refused hacc] at hcode
    obtain ⟨rfl, rfl⟩ := ok_pair.1 hcode
    exact Or.inl ⟨hacc, rfl, rfl⟩

/-- A break call, by either number. -/
theorem Separate.break_served (h : Separate s T) (hpid : s.current ∈ live s) (hd : d < 2 ^ 64)
    (hhigh : StaysHigh (s.processes s.current) d) (hcode : sbrk s s.current d = .ok (s', r))
    (hintno : (s.slot s.current).registers .intno ∈ [INT_SYS_SBRK, INT_SYS_BRK])
    (htarget : (s.slot s.current).target = newBreak (s.processes s.current) d) :
    Served s (setRax s' (if r = -1 then -1 else (s.slot s.current).oldBreak)) addr := by
  have hslot := slot_of_live hpid
  have haccepts : (s.slot s.current).Accepts ↔ BreakAccepted (s.processes s.current) d := by
    rw [Slot.Accepts, htarget, BreakAccepted, hslot]
    exact and_comm
  rcases h.sbrk_moves hpid hd hhigh hcode with ⟨hacc, rfl, rfl⟩ | ⟨hacc, rfl, hsep, hkept, hcurrent, hpid', hself⟩
  · rw [if_pos rfl]
    refine Served.returning h rfl (OthersKept.refl s' s'.current) hpid ?_
    exact Call.kept hintno fun e => hacc (haccepts.1 e)
  · rw [if_neg (by omega)]
    refine Served.returning hsep hcurrent hkept hpid' ?_
    have hmoved : s'.slot s.current = (s.slot s.current).moved := by
      rw [hself, Slot.moved, htarget]
    rw [hmoved]
    exact Call.moved hintno (haccepts.2 hacc)

end Breaks

/-! ## The cases of the switch -/

/-- A contained trap whose registers have been saved. -/
structure Trapped (s : State) (reg : Registers) (addr : Nat) : Prop where
  active : s.current ∈ live s
  words : ∀ r, reg r < 2 ^ 64
  saved : (s.processes s.current).registers = reg
  high : KeepsHigh s reg
  page : reg .intno = INT_SYS_PAGE_ALLOC → PageRequest s (reg .rdi)
  mapping : reg .intno = INT_SYS_MAPPING →
    MappingFits s.mem (s.processes s.current).pagetable (reg .rdi) (reg .rsi)
  fault : reg .intno = INT_PAGEFAULT → UserFault s reg addr

namespace Trapped

variable {s s₁ s' : State} {T : Nat → Tables} {reg : Registers} {addr : Nat} {r : Int}

/-- When the registers of a contained trap have been saved, it has arrived. -/
theorem of_entered (h : UserTrap s reg addr) (hcontained : Contained s reg addr) (he : Entered s s₁ reg) :
    Trapped s₁ reg addr := by
  have hbounds : s.current < NPROC ∧ (s.processes s.current).state = .runnable ∧ ∀ r, reg r < 2 ^ 64 := by
    rcases h with hcall | htrap
    · exact ⟨hcall.current, hcall.running, hcall.words⟩
    · exact ⟨htrap.current, htrap.running, htrap.words⟩
  obtain ⟨hcurrent, hrunning, hwords⟩ := hbounds
  have hroot : (s₁.processes s₁.current).pagetable = (s.processes s.current).pagetable := by
    rw [he.current, he.process_self]
  refine ⟨?_, hwords, ?_, hcontained.high.entered he, fun hintno => (hcontained.page hintno).entered he,
    fun hintno => ?_, fun hintno => ?_⟩
  · rw [he.current, (Alike.of_entered he).live]
    exact mem_live_of_runnable hcurrent hrunning
  · rw [he.current, he.process_self]
  · rw [he.mem, hroot]
    exact hcontained.mapping hintno
  · rcases h with hcall | htrap
    · -- a software interrupt has another number
      have hlow := hcall.low
      rw [hintno] at hlow
      exact absurd hlow (by decide)
    · rcases (htrap.entered he).event with hevent | hfault
      · rw [hintno] at hevent
        exact absurd hevent (by decide)
      · exact hfault

section Cases

variable (h : Trapped s reg addr)
include h

theorem slot : s.slot s.current = ⟨true, reg, (s.processes s.current).originalBreak,
    (s.processes s.current).programBreak, s.cells s.current⟩ := by
  rw [slot_of_live h.active, h.saved]

theorem intno : (s.slot s.current).registers .intno = reg .intno := by rw [h.slot]

theorem sbrk_served (hsep : Separate s T) (hintno : reg .intno = INT_SYS_SBRK)
    (hcode : sbrk s s.current (reg .rdi) = .ok (s', r)) : Served s (setRax s' r) addr := by
  have htarget : (s.slot s.current).target = newBreak (s.processes s.current) (reg .rdi) := by
    rw [Slot.target, h.intno, if_pos hintno, h.slot]
    rfl
  have hserved : Served s _ addr := hsep.break_served h.active (h.words .rdi) (h.high.sbrk hintno) hcode
    (by rw [h.intno, hintno]; decide) htarget
  -- the result is the old break, or -1
  have hresult : (if r = -1 then -1 else (s.slot s.current).oldBreak) = r := by
    rcases hsep.sbrk_moves h.active (h.words .rdi) (h.high.sbrk hintno) hcode with ⟨-, rfl, -⟩ | ⟨-, rfl, -⟩
    · rfl
    · rw [if_neg (by omega), Slot.oldBreak, h.intno, if_pos hintno, h.slot]
  rw [hresult] at hserved
  exact hserved

theorem brk_served (hsep : Separate s T) (hintno : reg .intno = INT_SYS_BRK)
    (hcode : brk s s.current (reg .rdi) = .ok (s', r)) : Served s (setRax s' r) addr := by
  obtain ⟨⟨s₁, r₁⟩, hsbrk, hpure⟩ := bind_eq_ok.1 hcode
  obtain ⟨rfl, rfl⟩ := ok_pair.1 hpure
  have hne : ¬ reg .intno = INT_SYS_SBRK := by
    rw [hintno]
    decide
  have hlimit := hsep.family.limit s.current
  have htarget : (s.slot s.current).target =
      newBreak (s.processes s.current) (breakDistance (s.processes s.current) (reg .rdi)) := by
    rw [Slot.target, h.intno, if_neg hne, h.slot]
    have hword := h.words .rdi
    simp only [newBreak, breakDistance, MEMSIZE_VIRTUAL, PAGESIZE] at hlimit ⊢
    omega
  have hserved : Served s _ addr := hsep.break_served h.active (Nat.mod_lt _ (by decide)) (h.high.brk hintno)
    hsbrk (by rw [h.intno, hintno]; decide) htarget
  rw [Slot.oldBreak, h.intno, if_neg hne] at hserved
  exact hserved

theorem mapping_served (hsep : Separate s T) (hintno : reg .intno = INT_SYS_MAPPING) {m : Mem}
    (hcode : syscallMapping s.mem (s.processes s.current).pagetable (reg .rdi) (reg .rsi) = .ok m) :
    Served s { s with mem := m } addr := by
  have hroot := hsep.family.accounted.root _ h.active
  have hfits := h.mapping hintno
  rw [hroot] at hcode hfits
  obtain ⟨m', hcode', -, hchanges⟩ :=
    (hsep.family.accounted.tableOk h.active).mappingSafe_of_fits (h.words .rdi) hfits
  rw [hcode'] at hcode
  obtain rfl := Except.ok.inj hcode
  obtain ⟨hsep', hkept, hstored⟩ := hsep.userChanges h.active hchanges rfl
  obtain ⟨s', hs'⟩ : ∃ s' : State, s' = { s with mem := m' } := ⟨_, rfl⟩
  have hpid' : s.current ∈ live s' := by
    rw [hs']
    exact h.active
  have hproc : s'.processes = s.processes := by rw [hs']
  rw [← hs'] at hsep' hkept hstored ⊢
  refine Served.own hsep' (by rw [hs']) hkept ?_
  have hmemory : Stored (s.slot s.current).memory (s'.cells s.current) := by
    rw [slot_of_live h.active]
    exact hstored
  have hcall : Call s.current s.full addr (s.slot s.current) _ :=
    Call.mapping (by rw [h.intno]; exact hintno) hmemory
  rw [slot_of_live hpid', hproc]
  rw [slot_of_live h.active] at hcall ⊢
  exact hcall

theorem pageAlloc_served (hsep : Separate s T) (hintno : reg .intno = INT_SYS_PAGE_ALLOC)
    (hcode : processPageAlloc s s.current (reg .rdi) = .ok (s', r)) : Served s s' addr := by
  have hacc := hsep.family.accounted
  -- a request that is refused changes nothing
  have hrefused : reg .rdi < PROC_START_ADDR ∨ s.full = true → Served s s addr := by
    intro hwhy
    refine Served.own hsep rfl (OthersKept.refl s s.current) (Call.denied ?_ ?_)
    · rw [h.intno]
      exact hintno
    · rw [h.slot]
      exact hwhy
  rw [processPageAlloc] at hcode
  by_cases hlow : reg .rdi < PROC_START_ADDR
  · rw [if_pos hlow] at hcode
    obtain ⟨rfl, rfl⟩ := ok_pair.1 hcode
    exact hrefused (Or.inl hlow)
  · rw [if_neg hlow] at hcode
    rcases hacc.palloc (mem_live.1 h.active).1 with ⟨hnone, hnull⟩ | ⟨pn, s₁, hfind, hpage, halloc⟩
    · rw [hnull] at hcode
      obtain ⟨rfl, rfl⟩ := ok_pair.1 hcode
      exact hrefused (Or.inr (Option.isNone_iff_eq_none.2 hnone))
    · obtain ⟨halign, huser, hmissing⟩ : reg .rdi % PAGESIZE = 0 ∧ UserPart (reg .rdi) ∧
          ¬ s.HasPage s.current (reg .rdi) := by
        rcases h.page hintno with hrefused | hnone | hfits
        · exact absurd hrefused hlow
        · rw [hfind] at hnone
          cases hnone
        · exact hfits
      have hroot := hacc.root _ h.active
      obtain ⟨i, hi⟩ : ∃ i, i = reg .rdi / PAGESIZE := ⟨_, rfl⟩
      have haddr : reg .rdi = PAGESIZE * i := by
        rw [hi]
        exact (Nat.mul_div_cancel' (Nat.dvd_of_mod_eq_zero halign)).symm
      have hrange : 256 ≤ i ∧ i < 768 := by
        simp only [UserPart, PROC_START_ADDR, MEMSIZE_VIRTUAL, PAGESIZE] at huser hi
        omega
      have hunmapped : ¬ Mapped s.mem (T s.current).l1 (PAGESIZE * i) := by
        rw [← haddr, ← hroot]
        exact hmissing
      obtain ⟨m', hmap, hsupplied, hfilled⟩ := hacc.supply_fresh h.active hrange.1 hrange.2 hunmapped halloc
      have hnull : PAGESIZE * pn ≠ NULL := halloc.ordinary.page_ne_null
      have hroot₁ : (s₁.processes s.current).pagetable = (T s.current).l1 := by
        rw [halloc.only.processes]
        exact hroot
      have hperm : PTE_P ||| PTE_W ||| PTE_U = 7 := by decide
      rw [hpage] at hcode
      simp only at hcode
      rw [if_neg hnull, hroot₁, hperm, haddr, hmap] at hcode
      obtain ⟨rfl, rfl⟩ := ok_pair.1 hcode
      refine hsep.supplied_slot h.active hsupplied hrange.1 hrange.2 hfilled ?_
      have hcall : Call s.current s.full addr (s.slot s.current) _ := Call.granted (by rw [h.intno]; exact hintno)
        (by
          have hword : (s.slot s.current).registers .rdi = reg .rdi := by rw [h.slot]
          rw [hword, memory_eq_none h.active huser]
          exact hmissing)
      have hword : (s.slot s.current).registers .rdi = reg .rdi := by rw [h.slot]
      rw [hword, ← hi] at hcall
      exact hcall

theorem fault_served (hsep : Separate s T) (hintno : reg .intno = INT_PAGEFAULT)
    (hcode : pageFault s reg addr = .ok s') : Served s s' addr := by
  have hacc := hsep.family.accounted
  have hfault := h.fault hintno
  have hmissing : (s.slot s.current).Missing addr ↔ PROC_START_ADDR ≤ addr ∧ addr < MEMSIZE_VIRTUAL ∧
      (s.processes s.current).originalBreak ≤ addr ∧ addr < (s.processes s.current).programBreak ∧
      ¬ s.HasPage s.current addr := by
    have hlimit := Nat.lt_of_lt_of_le (hsep.family.limit s.current) (Nat.sub_le MEMSIZE_VIRTUAL PAGESIZE)
    constructor
    · rintro ⟨hstart, hlow, hhigh, habsent⟩
      rw [h.slot] at hlow hhigh
      have huser : UserPart addr := ⟨hstart, Nat.lt_trans hhigh hlimit⟩
      exact ⟨hstart, huser.2, hlow, hhigh, (memory_eq_none h.active huser).1 habsent⟩
    · rintro ⟨hstart, hlt, hlow, hhigh, hnot⟩
      refine ⟨hstart, ?_, ?_, (memory_eq_none h.active ⟨hstart, hlt⟩).2 hnot⟩
      · rw [h.slot]
        exact hlow
      · rw [h.slot]
        exact hhigh
  by_cases hheap : HeapFault s addr
  · have hlimit := Nat.lt_of_lt_of_le (hsep.family.limit s.current) (Nat.sub_le MEMSIZE_VIRTUAL PAGESIZE)
    have huser := hacc.userPart_of_missing h.active hheap.missing (Nat.lt_trans hheap.high hlimit)
    obtain ⟨i, hi⟩ : ∃ i, i = addr / PAGESIZE := ⟨_, rfl⟩
    have hrange : 256 ≤ i ∧ i < 768 := by
      simp only [UserPart, PROC_START_ADDR, MEMSIZE_VIRTUAL, PAGESIZE] at huser hi
      omega
    have hdown : roundDownPage addr = PAGESIZE * i := by
      rw [hi, roundDownPage_eq]
    have hpage : page48 (PAGESIZE * i) = page48 addr := by
      rw [huser.page48_eq, hi, page48]
      simp only [UserPart, PROC_START_ADDR, MEMSIZE_VIRTUAL, PAGESIZE] at huser ⊢
      omega
    have hroot := hacc.root _ h.active
    have hunmapped : ¬ Mapped s.mem (T s.current).l1 (PAGESIZE * i) := by
      intro hm
      apply hheap.missing
      rw [State.HasPage, hroot]
      exact (Mapped.of_page48 hpage).1 hm
    obtain ⟨pn, s₁, hpalloc, halloc⟩ := hacc.palloc_of_free (mem_live.1 h.active).1 hheap.free
    obtain ⟨m', hmap, hsupplied, hfilled⟩ := hacc.supply_fresh h.active hrange.1 hrange.2 hunmapped halloc
    have hnull : PAGESIZE * pn ≠ NULL := halloc.ordinary.page_ne_null
    have hperm : PTE_W ||| PTE_P ||| PTE_U = 7 := by decide
    have hresult : pageFault s reg addr = .ok { s₁ with mem := m' } := by
      rw [pageFault, if_pos ⟨hfault.present.2 hheap.missing, hheap.high, hheap.low⟩, hpalloc]
      simp only
      rw [if_neg hnull, hdown, hroot, hperm, hmap]
      rfl
    rw [hresult] at hcode
    obtain rfl := Except.ok.inj hcode
    refine hsep.supplied_slot h.active hsupplied hrange.1 hrange.2 hfilled ?_
    rw [hi]
    refine Call.supplied ?_ (hmissing.2 ⟨huser.1, huser.2, hheap.low, hheap.high, hheap.missing⟩)
    rw [h.intno]
    exact hintno
  · rw [hacc.pageFault_other hfault.current hfault.present hfault.user hheap, hacc.killCurrent_eq h.active] at hcode
    refine hsep.ended_served h.active hcode (Call.killed ?_ fun hmiss => ?_)
    · rw [h.intno]
      exact hintno
    · obtain ⟨-, -, hlow, hhigh, hnot⟩ := hmissing.1 hmiss
      rw [hacc.full_iff]
      exact fun hfree => hheap ⟨hnot, hlow, hhigh, hfree⟩

theorem fork_served (hsep : Separate s T) (hintno : reg .intno = INT_SYS_FORK)
    (hcode : processFork s s.current = .ok (s', r)) : Served s (setRax s' r) addr := by
  have hacc := hsep.family.accounted
  have hactive : ∀ j ∈ live s, (s.processes j).state ≠ .free := fun j hj => (mem_live.1 hj).2
  have hregs : (s.slot s.current).registers .intno = INT_SYS_FORK := by
    rw [h.intno]
    exact hintno
  -- no byte of a live process has changed
  obtain ⟨hframe, hcases⟩ := processFork_contents hacc hactive h.active hcode
  have hcells : ∀ j ∈ live s, s'.processes j = s.processes j → s'.cells j = s.cells j :=
    fun j hj hproc => hacc.cells_of_free hframe hj (by rw [hproc])
  have hkept : (∀ j ∈ live s, s'.processes j = s.processes j) → LiveKept s s' s.current := by
    intro hprocs
    have hsame : ∀ j ∈ live s, ∀ va, s'.lookup j va = s.lookup j va := by
      intro j hj va
      rw [State.lookup, State.lookup, hprocs j hj, hacc.root j hj]
      exact hacc.lookup_of_free hframe hj va
    refine ⟨fun j hj _ => hprocs j hj, fun j hj _ => hsame j hj, fun j hj _ va huser hm => ?_⟩
    rw [State.byteAt, State.byteAt, hsame j hj, State.lookup, hacc.root j hj]
    rw [State.HasPage, hacc.root j hj] at hm
    exact hacc.byte_kept hj (fun x hx => Or.inl (hframe x hx)) hj huser hm
  have hfinish : ∀ T', Separate s' T' → s'.current = s.current → s.current ∈ live s' →
      (∀ j ∈ live s, s'.processes j = s.processes j) → (∀ j ∈ live s, j ∈ live s') →
      Effect s.current s.full addr s.slot
        (Function.update s'.slot s.current ((s'.slot s.current).returning r)) → Served s (setRax s' r) addr := by
    intro T' hsep' hcurrent hpid' hprocs hstay heffect
    have hslots := setRax_slots (s := s') (by rw [hcurrent]; exact hpid') r
    have hresult : OthersKept s' (setRax s' r) s.current := by
      rw [← hcurrent]
      exact OthersKept.setProc ..
    refine ⟨⟨T', hsep'.alike (Alike.setRax s' r)⟩, hcurrent, ?_,
      (hkept hprocs).trans_others hresult fun j hj _ => hstay j hj⟩
    rw [hslots, hcurrent]
    exact heffect
  rcases hcases with ⟨rfl, hno⟩ | ⟨child, U, rfl, hf, hd⟩
  · obtain ⟨hsep', hlive⟩ := hsep.notForked hframe hno
    have hprocs : ∀ j ∈ live s, s'.processes j = s.processes j := fun j hj => hno.processes j (hactive j hj)
    have hslots : s'.slot = s.slot := by
      funext j
      by_cases hj : j ∈ live s
      · exact slot_congr (hprocs j hj) fun _ => hcells j hj (hprocs j hj)
      · obtain ⟨hprogram, horiginal⟩ := hno.breaks j
        rw [slot_of_free hj, slot_of_free (by rw [hlive]; exact hj), hprogram, horiginal]
    refine hfinish T hsep' hno.machine.current (by rw [hlive]; exact h.active) hprocs
      (fun j hj => by rw [hlive]; exact hj) ?_
    rw [hslots]
    exact Effect.own (Call.refused hregs)
  · obtain ⟨hsep', hcopied⟩ := hsep.forked h.active hf hd
    have hlive := hf.live_eq
    have hchild : child ∉ live s := fun hmem => hactive child hmem hf.slot.1
    have hprocs : ∀ j ∈ live s, s'.processes j = s.processes j := by
      intro j hj
      apply hf.processes j
      rintro rfl
      exact hchild hj
    have hstay : ∀ j ∈ live s, j ∈ live s' := by
      intro j hj
      rw [hlive]
      exact Finset.mem_insert_of_mem hj
    have hne : child ≠ s.current := by
      rintro rfl
      exact hchild h.active
    have hslots : s'.slot = Function.update s.slot child { s.slot child with
        alive := true
        registers := Function.update (s.slot s.current).registers .rax 0
        memory := (s.slot s.current).memory } := by
      funext j
      by_cases hj : j = child
      · subst hj
        have hmem : j ∈ live s' := by
          rw [hlive]
          exact Finset.mem_insert_self ..
        rw [Function.update_self, slot_of_live hmem, slot_of_free hchild, slot_of_live h.active, hf.made, hcopied]
      · rw [Function.update_of_ne hj]
        apply slot_congr (hf.processes j hj)
        exact fun hmem => hcells j hmem (hprocs j hmem)
    refine hfinish _ hsep' hf.machine.current (hstay _ h.active) hprocs hstay ?_
    rw [hslots, Function.update_of_ne hne.symm, Function.update_comm hne]
    exact Effect.child hregs (by rw [slot_of_free hchild])

/-- Each case of the switch. -/
theorem dispatch_served {after : After} (hsep : Separate s T) (hcode : dispatch s reg addr = .ok (s', after)) :
    Served s s' addr := by
  have hcase : HasCase (reg .intno) := by
    by_contra hnot
    rw [dispatch_default hnot] at hcode
    cases hcode
  simp only [HasCase, List.mem_cons, List.not_mem_nil, or_false] at hcase
  rcases hcase with hintno | hintno | hintno | hintno | hintno | hintno | hintno | hintno | hintno | hintno |
    hintno | hintno
  · rw [dispatch, if_pos hintno] at hcode
    cases hcode
  · rw [dispatch_getpid hintno] at hcode
    rw [← (ok_pair.1 hcode).1]
    refine Served.returning hsep rfl (OthersKept.refl s s.current) h.active (Call.getpid ?_)
    rw [h.intno]
    exact hintno
  · rw [dispatch_yield hintno] at hcode
    rw [← (ok_pair.1 hcode).1]
    refine Served.unseen hsep (Alike.of_processes rfl rfl rfl) rfl (fun _ _ => rfl) rfl rfl h.active ?_
    rw [h.saved, hintno]
    decide
  · rw [dispatch_pageAlloc hintno] at hcode
    obtain ⟨⟨s₁, r⟩, halloc, hcode⟩ := bind_eq_ok.1 hcode
    rw [← (ok_pair.1 hcode).1]
    exact h.pageAlloc_served hsep hintno halloc
  · rw [dispatch_fork hintno] at hcode
    obtain ⟨⟨s₁, r⟩, hfork, hcode⟩ := bind_eq_ok.1 hcode
    rw [← (ok_pair.1 hcode).1]
    exact h.fork_served hsep hintno hfork
  · rw [dispatch_exit hintno] at hcode
    obtain ⟨s₁, hfree, hcode⟩ := bind_eq_ok.1 hcode
    rw [← (ok_pair.1 hcode).1]
    refine hsep.ended_served h.active hfree (Call.exit ?_)
    rw [h.intno]
    exact hintno
  · rw [dispatch_mapping hintno] at hcode
    obtain ⟨m, hmapping, hcode⟩ := bind_eq_ok.1 hcode
    rw [← (ok_pair.1 hcode).1]
    rw [h.saved] at hmapping
    exact h.mapping_served hsep hintno hmapping
  · rw [dispatch_memTog hintno] at hcode
    rw [← (ok_pair.1 hcode).1]
    have hother : ∀ j, j ≠ s.current → (syscallMemTog s s.current).processes j = s.processes j := by
      intro j hj
      rcases syscallMemTog_slot s s.current with ⟨hsame, -⟩ | ⟨p, honly⟩
      · rw [hsame]
      · exact honly.other hj
    have hself : ((syscallMemTog s s.current).processes s.current).registers = (s.processes s.current).registers ∧
        ((syscallMemTog s s.current).processes s.current).originalBreak =
          (s.processes s.current).originalBreak ∧
        (syscallMemTog s s.current).current = s.current := by
      rw [syscallMemTog]
      split
      · exact ⟨rfl, rfl, rfl⟩
      · split
        · exact ⟨rfl, rfl, rfl⟩
        · rw [State.setProc_self]
          exact ⟨rfl, rfl, rfl⟩
    obtain ⟨hregs, hlow, hcurrent⟩ := hself
    refine Served.unseen hsep (Alike.syscallMemTog s s.current) hcurrent hother hregs hlow h.active ?_
    rw [h.saved, hintno]
    decide
  · rw [dispatch_brk hintno, h.saved] at hcode
    obtain ⟨⟨s₁, r⟩, hbrk, hcode⟩ := bind_eq_ok.1 hcode
    rw [← (ok_pair.1 hcode).1]
    exact h.brk_served hsep hintno hbrk
  · rw [dispatch_sbrk hintno, h.saved] at hcode
    obtain ⟨⟨s₁, r⟩, hsbrk, hcode⟩ := bind_eq_ok.1 hcode
    rw [← (ok_pair.1 hcode).1]
    exact h.sbrk_served hsep hintno hsbrk
  · rw [dispatch_timer hintno] at hcode
    rw [← (ok_pair.1 hcode).1]
    refine Served.unseen hsep (Alike.of_processes rfl rfl rfl) rfl (fun _ _ => rfl) rfl rfl h.active ?_
    rw [h.saved, hintno]
    decide
  · rw [dispatch_pageFault hintno] at hcode
    obtain ⟨s₁, hfault, hcode⟩ := bind_eq_ok.1 hcode
    rw [← (ok_pair.1 hcode).1]
    exact h.fault_served hsep hintno hfault

end Cases

end Trapped

/-! ## Steps and runs -/

section Steps

variable {s s₁ s' : State} {T : Nat → Tables} {reg : Registers} {addr : Nat}

/-- Whoever runs after a trap is there, if it is not the process that has trapped. -/
theorem resume_current {after : After} {next : Option Nat} (hlt : s.current < NPROC)
    (h : resume s after = .ok (s', next)) : s'.current = s.current ∨ s'.current ∈ live s := by
  rcases resume_cases h with ⟨-, -, -, rfl⟩ | ⟨hnot, hpick⟩
  · exact Or.inl rfl
  · rw [resume, if_neg hnot, schedule_eq, ← hpick] at h
    cases hnext : next with
    | none =>
        rw [hnext] at h
        rw [← (ok_pair.1 h).1]
        exact Or.inl rfl
    | some pid =>
        rw [hnext] at h hpick
        obtain ⟨hrunnable, -, rfl⟩ := run_eq_ok h
        exact Or.inr (mem_live_of_runnable (Library.RoundRobin.pick_eq_some hlt hpick.symm).1 hrunnable)

/-- To a process, the state after the registers have been saved is the state with these registers. -/
theorem Entered.slots (he : Entered s s₁ reg) (hpid : s.current ∈ live s) : s₁.slot = s.world.saved reg := by
  have hsame := Alike.of_entered he
  have hkept : OthersKept s s₁ s.current := OthersKept.of_mem he.mem he.touched.other
  have hpid₁ : s.current ∈ live s₁ := by
    rw [hsame.live]
    exact hpid
  have hcells : s₁.cells s.current = s.cells s.current := by
    funext va
    apply cells_congr (hsame.lookup _ va)
    intro _ _
    rw [he.mem]
  show _ = Function.update s.slot s.current { s.slot s.current with registers := reg }
  rw [hkept.slot, slot_of_live hpid₁, slot_of_live hpid, he.process_self, hcells]

theorem UserTrap.running (h : UserTrap s reg addr) : s.current ∈ live s := by
  rcases h with hcall | htrap
  · exact mem_live_of_runnable hcall.current hcall.running
  · exact htrap.live

/-- A contained trap is a trap of the machine. -/
theorem Separate.exception_refines {next : Option Nat} (h : Separate s T) (htrap : UserTrap s reg addr)
    (hcontained : Contained s reg addr) (hcode : exception s reg addr = .ok (s', next)) :
    (∃ T', Separate s' T') ∧ World.Step s.world (.trap reg addr) s'.world ∧ LiveKept s s' s.current := by
  obtain ⟨s₁, s₂, after, he, hdispatch, hresume⟩ := exception_eq_ok hcode
  have hsame := Alike.of_entered he
  have hpid := htrap.running
  have hserved := (Trapped.of_entered htrap hcontained he).dispatch_served (h.alike hsame) hdispatch
  obtain ⟨T₂, hsep₂⟩ := hserved.separate
  -- the switch to another process changes `current` only
  have hpicked := (resume_only hresume).1
  have hpicked' : Alike s₂ s' := by
    rw [hpicked]
    exact Alike.of_processes rfl rfl rfl
  have hslots : s'.slot = s₂.slot := by
    rw [hpicked]
    rfl
  have hlt : s₂.current < NPROC := by
    rw [hserved.current, he.current]
    exact (mem_live.1 hpid).1
  refine ⟨⟨T₂, hsep₂.alike hpicked'⟩, ?_, ?_⟩
  · have heffect := hserved.effect
    have hfull : s₁.full = s.full := by rw [State.full, State.full, he.pageinfo]
    rw [he.current, hfull, he.slots hpid, ← hslots] at heffect
    refine World.Step.trap (slot_alive.2 hpid) heffect ?_
    rcases resume_current hlt hresume with hback | hother
    · left
      rw [hback, hserved.current, he.current]
      rfl
    · right
      rw [hslots]
      exact slot_alive.2 hother
  · have hkept := hserved.kept
    rw [he.current] at hkept
    constructor
    · intro j hj hne
      rw [hpicked, ← he.touched.other j hne]
      exact hkept.processes j (by rw [hsame.live]; exact hj) hne
    · intro j hj hne va
      rw [hpicked'.lookup, ← hsame.lookup]
      exact hkept.lookup j (by rw [hsame.live]; exact hj) hne va
    · intro j hj hne va huser hm
      have hbyte := hkept.bytes j (by rw [hsame.live]; exact hj) hne va huser ((hsame.hasPage j va).2 hm)
      rw [State.byteAt, State.byteAt, hsame.lookup, he.mem] at hbyte
      rw [State.byteAt, State.byteAt, hpicked'.lookup, hpicked'.mem]
      exact hbyte

/-- Stores of the running process are stores of the machine. -/
theorem Separate.stores_refine {m : Mem} (h : Separate s T) (hchanges : CurrentChanges s m) :
    Separate { s with mem := m } T ∧ World.Step s.world .stores { s with mem := m }.world ∧
      LiveKept s { s with mem := m } s.current := by
  have hpid := mem_live_of_runnable hchanges.current hchanges.running
  have hbytes := hchanges.bytes
  rw [h.family.accounted.root _ hpid] at hbytes
  obtain ⟨s', hs'⟩ : ∃ s' : State, s' = { s with mem := m } := ⟨_, rfl⟩
  rw [← hs']
  obtain ⟨hsep, hkept, hstored⟩ := h.userChanges hpid hbytes hs'
  refine ⟨hsep, ?_, hkept.live_kept⟩
  have hproc : s'.processes = s.processes := by rw [hs']
  have hpid' : s.current ∈ live s' := by
    rw [mem_live, hproc]
    exact mem_live.1 hpid
  obtain ⟨p, hp⟩ : ∃ p, p = { s.slot s.current with memory := s'.cells s.current } := ⟨_, rfl⟩
  have hself : s'.slot s.current = p := by
    rw [hp, slot_of_live hpid', slot_of_live hpid, hproc]
  have hworld : s'.world = { s.world with slots := Function.update s.world.slots s.world.current p } := by
    show World.mk s'.slot s'.current s'.full = World.mk (Function.update s.slot s.current p) s.current s.full
    rw [hkept.slot, hself, hs']
    rfl
  rw [hworld, hp]
  refine World.Step.stores (slot_alive.2 hpid) ?_
  show Stored (s.slot s.current).memory _
  rw [slot_of_live hpid]
  exact hstored

/-- No two of the first processes share a page. -/
theorem Booted.separate (h : Booted s T) : Separate s T := by
  refine ⟨h.family, fun j hj va huser hperm k hk hne => ?_⟩
  have hm : Mapped s.mem (T j).l1 va := by
    rw [mapped_iff_perm, hperm]
    decide
  have hrefs := references_pos.2 ⟨va, huser, hm, rfl⟩
  have hown := h.isolated.info_of_uses hj (Nat.lt_of_lt_of_le hrefs (Nat.le_add_right _ _))
  by_contra hpos
  have hother := h.isolated.info_of_uses hk (Nat.pos_of_ne_zero hpos)
  rw [hown] at hother
  exact hne (Int.natCast_inj.1 (congrArg PageInfo.owner hother)).symm

/-- Traps and stores are steps of the machine with private memories. -/
theorem system_simulated : Simulated (fun s => ∃ T, Separate s T) State.world SystemStep World.Next := by
  constructor
  · rintro s s' ⟨T, h⟩ hstep
    cases hstep with
    | changes hchanges => exact ⟨T, (h.stores_refine hchanges).1⟩
    | trap htrap hcontained hcode => exact (h.exception_refines htrap hcontained hcode).1
  · rintro s s' ⟨T, h⟩ hstep
    cases hstep with
    | changes hchanges => exact ⟨_, (h.stores_refine hchanges).2.1⟩
    | trap htrap hcontained hcode => exact ⟨_, (h.exception_refines htrap hcontained hcode).2.1⟩

end Steps

/-- The kernel implements processes with private memories, which are the user part of their address spaces: each
contained run from boot is a run of that machine, and in every state of it a contained trap that is handled does
what the system call says, on the slot of the process that has made it, and a store of the running process
changes no other private memory. What is below `PROC_START_ADDR`, as the page of the console, which every
process may write, belongs to none of them. -/
theorem kernel_refines {bytes : Nat → Nat → UInt8} {m : Mem} {command : Option String} {next : Option Nat}
    {s s' : State} (hboot : kernel bytes m command = .ok (s, next))
    (hrun : Relation.ReflTransGen SystemStep s s') :
    Relation.ReflTransGen World.Next s.world s'.world ∧
    (∀ m', CurrentChanges s' m' → World.Step s'.world .stores { s' with mem := m' }.world) ∧
    ∀ reg addr s'' next', UserTrap s' reg addr → Contained s' reg addr →
      exception s' reg addr = .ok (s'', next') → World.Step s'.world (.trap reg addr) s''.world := by
  obtain ⟨T, hbooted⟩ := booted_of_kernel hboot
  obtain ⟨⟨T', hsep⟩, hworld⟩ := system_simulated.run ⟨T, hbooted.separate⟩ hrun
  refine ⟨hworld, fun m' hchanges => (hsep.stores_refine hchanges).2.1, ?_⟩
  intro reg addr s'' next' htrap hcontained hcode
  exact (hsep.exception_refines htrap hcontained hcode).2.1

/-- A trap that is neither an exit nor a fault, and moves no break down, is contained. -/
theorem contained_of_number {s : State} {reg : Registers} {addr : Nat}
    (hmem : reg .intno ∈ [INT_SYS_GETPID, INT_SYS_YIELD, INT_SYS_FORK, INT_SYS_MEM_TOG, INT_TIMER, INT_SYS_SBRK])
    (hsbrk : reg .intno = INT_SYS_SBRK → ¬ Negative (reg .rdi)) : Contained s reg addr := by
  have hother : ∀ n, n ∉ [INT_SYS_GETPID, INT_SYS_YIELD, INT_SYS_FORK, INT_SYS_MEM_TOG, INT_TIMER, INT_SYS_SBRK] →
      reg .intno ≠ n := by
    rintro n hn rfl
    exact hn hmem
  refine ⟨⟨fun hintno _ hneg => absurd hneg (hsbrk hintno), fun hintno => absurd hintno (hother _ (by decide))⟩,
    fun hleaving => ?_, fun hintno => absurd hintno (hother _ (by decide)),
    fun hintno => absurd hintno (hother _ (by decide))⟩
  exact absurd hleaving (not_leaving (hother _ (by decide)) (hother _ (by decide)))

theorem contained_fork {s : State} {reg : Registers} {addr : Nat} (hintno : reg .intno = INT_SYS_FORK) :
    Contained s reg addr := by
  apply contained_of_number
  · rw [hintno]
    decide
  · exact fun hsbrk => absurd (hintno.symm.trans hsbrk) (by decide)

/-- The first process forks. -/
theorem fork_step : ∃ s s' child, kernel (fun _ _ => 0) (fun _ => 0) none = .ok (s, some 1) ∧
    SoftwareInterrupt s (callRegisters INT_SYS_FORK) ∧ SystemStep s s' ∧
    exception s (callRegisters INT_SYS_FORK) 0 = .ok (s', some 1) ∧ s.current = 1 ∧ live s = {1} ∧
    live s' = {child, 1} ∧ child ≠ 1 := by
  obtain ⟨s, T, hkernel, hfresh, hone, htrap⟩ := kernel_one
  obtain ⟨s₁, s₂, s', child, U, hcode, hdone, -⟩ := hfresh.fork_done hone htrap rfl
  have hcurrent := hfresh.booted.current
  have hcall : SoftwareInterrupt s (callRegisters INT_SYS_FORK) :=
    softwareInterrupt_of_current hcurrent (hfresh.booted.runnable 1 hfresh.booted.first) (by decide) (by decide)
  have hlive : live s' = {child, 1} := by
    rw [hdone.alike.live, hdone.forked.live_eq, (Alike.of_entered hdone.entered).live, hone]
  have hstep : SystemStep s s' := SystemStep.trap (Or.inr htrap) (contained_fork rfl) hcode
  refine ⟨s, s', child, hkernel, hcall, hstep, hcode, hcurrent, hone, hlive, ?_⟩
  rintro rfl
  have hidle := hdone.forked.slot.1
  rw [← hcurrent, hdone.entered.process_self, htrap.running] at hidle
  cases hidle

/-- In the machine, the first process has forked. -/
theorem kernel_refines_fork : ∃ s s' child, kernel (fun _ _ => 0) (fun _ => 0) none = .ok (s, some 1) ∧
    SystemStep s s' ∧ (s'.world.slots child).alive = true ∧ child ≠ 1 ∧
    Relation.ReflTransGen World.Next s.world s'.world := by
  obtain ⟨s, s', child, hkernel, -, hstep, -, -, -, hlive, hne⟩ := fork_step
  have hchild : child ∈ live s' := by
    rw [hlive]
    exact Finset.mem_insert_self ..
  exact ⟨s, s', child, hkernel, hstep, slot_alive.2 hchild, hne,
    (kernel_refines hkernel (Relation.ReflTransGen.single hstep)).1⟩

end MemoryManagement.Kernel
