import MemoryManagement.Kernel.Booted
import MemoryManagement.Kernel.BreakCalls
import MemoryManagement.Kernel.Faults
import Mathlib.Logic.Relation

/-!
# Interleavings of isolated processes

Isolated processes stay isolated, whatever they do with the break, their heaps and their memory and in
whatever order they exit. What one of them does leaves the others' mappings, breaks and bytes alone, and
the kernel's checks hold all the time (`interleavings_isolated`).
-/

set_option autoImplicit false

namespace MemoryManagement.Kernel

open MemoryManagement.Library.ByteMemory
open MemoryManagement.Library.RefCount

/-! ## What a process must not change -/

/-- The processes other than `pid` have kept their slots, with breaks and registers, their mappings and the
bytes of their pages. -/
structure OthersKept (s s' : State) (pid : Nat) : Prop where
  processes : ∀ j, j ≠ pid → s'.processes j = s.processes j
  lookup : ∀ j ∈ live s, j ≠ pid → ∀ va, s'.lookup j va = s.lookup j va
  bytes : ∀ j ∈ live s, j ≠ pid → ∀ va, UserPart va → s.HasPage j va → s'.byteAt j va = s.byteAt j va

namespace OthersKept

variable {s s₁ s' : State} {pid : Nat}

theorem refl (s : State) (pid : Nat) : OthersKept s s pid :=
  ⟨fun _ _ => rfl, fun _ _ _ _ => rfl, fun _ _ _ _ _ _ => rfl⟩

theorem mem_live (h : OthersKept s s' pid) {j : Nat} (hj : j ∈ live s) (hne : j ≠ pid) : j ∈ live s' := by
  obtain ⟨hlt, hactive⟩ := Kernel.mem_live.1 hj
  refine Kernel.mem_live.2 ⟨hlt, ?_⟩
  rw [h.processes j hne]
  exact hactive

theorem hasPage (h : OthersKept s s' pid) {j : Nat} (hj : j ∈ live s) (hne : j ≠ pid) (va : Nat) :
    s'.HasPage j va ↔ s.HasPage j va := by
  have hsame := h.lookup j hj hne va
  rw [State.lookup, State.lookup] at hsame
  rw [State.HasPage, State.HasPage, Mapped, Mapped, hsame]

theorem trans (h : OthersKept s s₁ pid) (h' : OthersKept s₁ s' pid) : OthersKept s s' pid := by
  constructor
  · intro j hne
    rw [h'.processes j hne, h.processes j hne]
  · intro j hj hne va
    rw [h'.lookup j (h.mem_live hj hne) hne, h.lookup j hj hne]
  · intro j hj hne va huser hm
    rw [h'.bytes j (h.mem_live hj hne) hne va huser ((h.hasPage hj hne va).2 hm), h.bytes j hj hne va huser hm]

/-- Memory is as it was. -/
theorem of_mem (hmem : s'.mem = s.mem) (hprocs : ∀ j, j ≠ pid → s'.processes j = s.processes j) :
    OthersKept s s' pid := by
  have hlookup : ∀ j, j ≠ pid → ∀ va, s'.lookup j va = s.lookup j va := by
    intro j hne va
    rw [State.lookup, State.lookup, hmem, hprocs j hne]
  refine ⟨hprocs, fun j _ => hlookup j, fun j _ hne va _ _ => ?_⟩
  rw [State.byteAt, State.byteAt, hlookup j hne, hmem]

end OthersKept

/-- The pages that `sbrk` takes away are in the user part, if the new break is. -/
theorem givenUp_user {p : Proc} {d : Nat} (hlimit : p.programBreak < MEMSIZE_VIRTUAL - PAGESIZE)
    (hacc : BreakAccepted p d) (hhigh : PROC_START_ADDR ≤ newBreak p d) :
    ∀ va ∈ givenUp p d, va ∈ userPages := by
  intro va hva
  obtain ⟨i, hi, rfl⟩ := mem_pagesDown.1 hva
  have hnew := hacc.1
  simp only [PROC_START_ADDR, MEMSIZE_VIRTUAL, PAGESIZE] at hlimit hhigh hnew
  rw [mem_userPages]
  simp only [UserPart, PROC_START_ADDR, MEMSIZE_VIRTUAL]
  omega

namespace Isolated

variable {s s' : State} {T : Nat → Tables} {pid : Nat}

/-- A page that a process maps is owned by it and is in no page table. -/
theorem page (h : Isolated s T) {j : Nat} (hj : j ∈ live s) {va : Nat} (huser : UserPart va)
    (hm : Mapped s.mem (T j).l1 va) : ∃ q, s.pageinfo q = ⟨j, 1⟩ ∧
      InRange (PAGESIZE * q) PAGESIZE (virtualMemoryLookup s.mem (T j).l1 va).pa ∧
      ∀ i ∈ live s, PAGESIZE * q ∉ (T i).pages := by
  obtain ⟨pn, perm, -, -, hmap⟩ := (h.accounted.space j hj).user va huser hm
  have hpos : 0 < references s.mem (T j).l1 userPages pn := by
    refine references_pos.2 ⟨va, huser, hm, ?_⟩
    rw [hmap, Int.toNat_natCast]
  refine ⟨pn, ?_, ?_, (h.accounted.frames_apart hj hpos).2⟩
  · apply h.info_of_uses hj
    rw [uses]
    omega
  · rw [hmap]
    simp only [PAGESIZE]
    omega

/-- The others' pages are those that they own and that are in no page table. -/
theorem othersKept (h : Isolated s T) (hprocs : ∀ j, j ≠ pid → s'.processes j = s.processes j)
    (hlookup : ∀ j ∈ live s, j ≠ pid → ∀ va,
      virtualMemoryLookup s'.mem (T j).l1 va = virtualMemoryLookup s.mem (T j).l1 va)
    (hbytes : ∀ j ∈ live s, j ≠ pid → ∀ q, s.pageinfo q = ⟨j, 1⟩ →
      (∀ i ∈ live s, PAGESIZE * q ∉ (T i).pages) →
      ∀ x, InRange (PAGESIZE * q) PAGESIZE x → s'.mem x = s.mem x) : OthersKept s s' pid := by
  have hsame : ∀ j ∈ live s, j ≠ pid → ∀ va, s'.lookup j va = s.lookup j va := by
    intro j hj hne va
    rw [State.lookup, State.lookup, hprocs j hne, h.accounted.root j hj]
    exact hlookup j hj hne va
  refine ⟨hprocs, hsame, fun j hj hne va huser hm => ?_⟩
  rw [State.byteAt, State.byteAt, hsame j hj hne, State.lookup, h.accounted.root j hj]
  rw [State.HasPage, h.accounted.root j hj] at hm
  obtain ⟨q, hinfo, hrange, hapart⟩ := h.page hj huser hm
  exact hbytes j hj hne q hinfo hapart _ hrange

/-! ## Pages given up -/

/-- Pages of the user part that a process gives up are free afterwards. -/
theorem freePages_eq (h : Isolated s T) (hpid : pid ∈ live s) {pages : List Nat} (hnodup : pages.Nodup)
    (hsub : ∀ va ∈ pages, va ∈ userPages) (q : Nat) :
    freePages s.mem (T pid).l1 pages s.pageinfo q = s.pageinfo q ∨
      freePages s.mem (T pid).l1 pages s.pageinfo q = ⟨PO_FREE, 0⟩ := by
  have hhides := (h.accounted.tableOk hpid).hidePages pages
  have hrefs := references_hidePages hhides hsub hnodup q
  have hone := (h.accounted.space pid hpid).references_le_one q
  rw [freePages_apply]
  by_cases hzero : references s.mem (T pid).l1 pages q = 0
  · rw [hzero]
    exact Or.inl rfl
  · have hsingle : references s.mem (T pid).l1 pages q = 1 := by omega
    have hinfo : s.pageinfo q = ⟨pid, 1⟩ := by
      apply h.info_of_uses hpid
      rw [uses]
      omega
    rw [hsingle, hinfo]
    exact Or.inr rfl

/-- A process gives up pages of its user part. -/
theorem hidden (h : Isolated s T) (hpid : pid ∈ live s) {pages : List Nat} (hnodup : pages.Nodup)
    (hsub : ∀ va ∈ pages, va ∈ userPages)
    (hs' : s' = { s with
      mem := hidePages s.mem (T pid).l1 pages
      pageinfo := freePages s.mem (T pid).l1 pages s.pageinfo }) :
    Isolated s' T ∧ OthersKept s s' pid := by
  have hspace := h.accounted.space pid hpid
  have hhides := (h.accounted.tableOk hpid).hidePages pages
  obtain ⟨-, hbytes⟩ := hspace.linked.hidePages hspace.tables pages
  obtain ⟨-, hothers⟩ := h.accounted.of_leaves hpid hbytes
  have hl4a : (T pid).l4a ∈ (T pid).pages := (T pid).l4a_mem
  have hl4b : (T pid).l4b ∈ (T pid).pages := (T pid).l4b_mem
  have hmem : s'.mem = hidePages s.mem (T pid).l1 pages := by rw [hs']
  have hinfo : s'.pageinfo = freePages s.mem (T pid).l1 pages s.pageinfo := by rw [hs']
  have hprocs : s'.processes = s.processes := by rw [hs']
  have hlive : live s' = live s := live_congr fun j _ => by rw [hprocs]
  constructor
  · constructor
    · rw [hlive, hs']
      exact h.accounted.hide hpid hnodup hsub
    · rw [hlive]
      intro q hq hcount
      rw [hinfo] at hcount ⊢
      -- a page keeps its count, or it was the only reference and is free now
      rcases h.freePages_eq hpid hnodup hsub q with hsame | hfreed
      · rw [hsame] at hcount ⊢
        obtain ⟨j, hj, howner, halone⟩ := h.owner q hq hcount
        refine ⟨j, hj, howner, fun k hk hne => ?_⟩
        have hzero := halone k hk hne
        rw [hmem]
        by_cases hkp : k = pid
        · -- the process itself has no more references than before
          have hrefs := references_hidePages hhides hsub hnodup q
          rw [hkp, uses] at hzero ⊢
          omega
        · exact ((hothers k hk hkp).2 q).trans hzero
      · rw [hfreed] at hcount
        exact absurd rfl hcount
    · rw [hlive, hprocs]
      exact h.breaks
  · apply h.othersKept
    · intro j _
      rw [hprocs]
    · intro j hj hne va
      rw [hmem]
      exact h.accounted.lookup_of_leaves hpid hbytes hj hne va
    · intro j _ _ q _ hapart x hx
      rw [hmem]
      have hout : ∀ t ∈ (T pid).pages, ¬ InRange t PAGESIZE x := by
        intro t ht hx'
        apply hapart pid hpid
        rw [← page_eq_of_inRange (hspace.tables.aligned t ht) (Nat.mul_mod_right PAGESIZE q) hx' hx]
        exact ht
      exact hbytes x (hout _ hl4a) (hout _ hl4b)

/-! ## The break -/

/-- A process has another break, inside the bounds. -/
theorem setBreak (h : Isolated s T) {p : Proc} (hself : s'.processes pid = p)
    (hstate : p.state = (s.processes pid).state) (hroot : p.pagetable = (s.processes pid).pagetable)
    (hbounds : BreakBounds p) (hmem : s'.mem = s.mem) (hinfo : s'.pageinfo = s.pageinfo)
    (hprocs : ∀ j, j ≠ pid → s'.processes j = s.processes j) : Isolated s' T := by
  apply h.of_processes hmem hinfo
  · intro j _
    by_cases hj : j = pid
    · rw [hj, hself, hstate]
    · rw [hprocs j hj]
  · intro j
    by_cases hj : j = pid
    · rw [hj, hself, hroot]
    · rw [hprocs j hj]
  · intro j hlive
    by_cases hj : j = pid
    · rw [hj, hself]
      exact hbounds
    · rw [hprocs j hj]
      exact h.breaks j hlive

/-- `sbrk`, refused, up or down. -/
theorem sbrk_kept (h : Isolated s T) (hpid : pid ∈ live s) {d : Nat} (hd : d < 2 ^ 64) :
    ∃ s' r, sbrk s pid d = .ok (s', r) ∧ Isolated s' T ∧ OthersKept s s' pid ∧ s'.current = s.current ∧
      (s'.processes pid).state = (s.processes pid).state := by
  have hb := h.breaks pid hpid
  by_cases hacc : BreakAccepted (s.processes pid) d
  · -- whoever ends with this break keeps the bounds
    have hbounds : ∀ p : Proc, p.originalBreak = (s.processes pid).originalBreak →
        p.programBreak = newBreak (s.processes pid) d → BreakBounds p := by
      intro p hlow hhigh
      constructor
      · rw [hlow]
        exact hb.start
      · rw [hlow, hhigh]
        exact hacc.2
      · rw [hhigh]
        exact hacc.1
    by_cases hneg : Negative d
    · -- down: pages are given up, then the break moves
      have hroot := h.accounted.root pid hpid
      have htable : TableOk s.mem (s.processes pid).pagetable := by
        rw [hroot]
        exact h.accounted.tableOk hpid
      obtain ⟨s₁, hs₁⟩ : ∃ s₁, s₁ = { s with
        mem := hidePages s.mem (T pid).l1 (givenUp (s.processes pid) d)
        pageinfo := freePages s.mem (T pid).l1 (givenUp (s.processes pid) d) s.pageinfo } := ⟨_, rfl⟩
      obtain ⟨hiso, hkept⟩ := h.hidden hpid (nodup_pagesDown _ _) 
        (givenUp_user hb.limit hacc (Nat.le_trans hb.start hacc.2)) hs₁
      have hprocs : s₁.processes = s.processes := by rw [hs₁]
      have hshrunk : shrunk s pid d = s₁.setProc pid
          { s.processes pid with programBreak := newBreak (s.processes pid) d } := by
        rw [hs₁, ← hroot]
        rfl
      have hother : ∀ j, j ≠ pid → (shrunk s pid d).processes j = s₁.processes j := by
        intro j hj
        rw [hshrunk, State.setProc_other s₁ _ hj]
      have hself : (shrunk s pid d).processes pid =
          { s.processes pid with programBreak := newBreak (s.processes pid) d } := by
        rw [hshrunk, State.setProc_self]
      have hmem : (shrunk s pid d).mem = s₁.mem := by rw [hshrunk, State.setProc_mem]
      refine ⟨_, _, sbrk_shrink hb hd htable hacc hneg, ?_, hkept.trans (OthersKept.of_mem hmem hother), rfl, ?_⟩
      · apply hiso.setBreak hself
        · rw [hprocs]
        · rw [hprocs]
        · exact hbounds _ rfl rfl
        · exact hmem
        · rw [hshrunk, State.setProc_pageinfo]
        · exact hother
      · rw [hself]
    · -- up: only the break moves
      have hself : (s.setProc pid { s.processes pid with
          programBreak := newBreak (s.processes pid) d }).processes pid = _ := State.setProc_self ..
      have hother : ∀ j, j ≠ pid → (s.setProc pid { s.processes pid with
          programBreak := newBreak (s.processes pid) d }).processes j = s.processes j :=
        fun j hj => State.setProc_other s _ hj
      refine ⟨_, _, sbrk_grow hb.limit hacc hneg, ?_, OthersKept.of_mem rfl hother, rfl, ?_⟩
      · exact h.setBreak hself rfl rfl (hbounds _ rfl rfl) rfl rfl hother
      · rw [hself]
  · exact ⟨s, -1, sbrk_refused hacc, h, OthersKept.refl s pid, rfl, rfl⟩

theorem brk_kept (h : Isolated s T) (hpid : pid ∈ live s) (a : Nat) :
    ∃ s' r, brk s pid a = .ok (s', r) ∧ Isolated s' T ∧ OthersKept s s' pid ∧ s'.current = s.current ∧
      (s'.processes pid).state = (s.processes pid).state := by
  have hd : (a + 2 ^ 64 - (s.processes pid).programBreak) % 2 ^ 64 < 2 ^ 64 := Nat.mod_lt _ (by decide)
  obtain ⟨s', r, hcode, hkept⟩ := h.sbrk_kept hpid hd
  refine ⟨s', if r = -1 then -1 else 0, ?_, hkept⟩
  unfold brk
  exact bind_eq_ok.2 ⟨(s', r), hcode, rfl⟩

/-- The result of a call goes into a register of the caller. -/
theorem setRax_kept (h : Isolated s T) (hcurrent : s.current ∈ live s) (r : Int) :
    Isolated (setRax s r) T ∧ OthersKept s (setRax s r) s.current := by
  have hb := h.breaks s.current hcurrent
  have hself : (setRax s r).processes s.current = _ := State.setProc_self ..
  have hother : ∀ j, j ≠ s.current → (setRax s r).processes j = s.processes j :=
    fun j hj => State.setProc_other s _ hj
  refine ⟨h.setBreak hself rfl rfl ?_ rfl rfl hother, OthersKept.of_mem rfl hother⟩
  exact ⟨hb.start, hb.ordered, hb.limit⟩

/-! ## Faults and exits -/

/-- A fresh heap page is in no page of another process. -/
theorem supplied_kept {i pn : Nat} (h : Isolated s T) (hpid : pid ∈ live s)
    (hs : Supplied s s' (live s) T pid i pn) : Isolated s' T ∧ OthersKept s s' pid := by
  refine ⟨h.supplied hpid hs, h.othersKept ?_ ?_ ?_⟩
  · intro j _
    rw [hs.only.processes]
  · exact hs.others
  · intro j _ _ q hinfo hapart x hx
    apply hs.bytes x
    · intro hx'
      have hsame := page_eq_of_inRange (Nat.mul_mod_right PAGESIZE pn) (Nat.mul_mod_right PAGESIZE q) hx' hx
      simp only [PAGESIZE] at hsame
      have hpn : pn = q := by omega
      -- that page was free
      rw [← hpn, hs.wasFree] at hinfo
      exact absurd (congrArg PageInfo.refcount hinfo) (by decide : (0 : Int) ≠ 1)
    · intro t ht hx'
      apply hapart pid hpid
      have halign := (h.accounted.space pid hpid).tables.aligned t ht
      rw [← page_eq_of_inRange halign (Nat.mul_mod_right PAGESIZE q) hx' hx]
      exact ht

/-- Any page fault of the current process in user mode. -/
theorem pageFault_kept {reg : Registers} {addr : Nat} (h : Isolated s T) (hf : UserFault s reg addr)
    (hcurrent : s.current ∈ live s) : ∃ s', pageFault s reg addr = .ok s' ∧ Isolated s' T ∧
      OthersKept s s' s.current ∧ s'.current = s.current := by
  by_cases hheap : HeapFault s addr
  · obtain ⟨s', pn, hcode, hs⟩ := h.pageFault_heap hcurrent (hf.present.2 hheap.missing) hheap
    obtain ⟨hiso, hkept⟩ := h.supplied_kept hcurrent hs
    exact ⟨s', hcode, hiso, hkept, hs.only.current⟩
  · obtain ⟨s', hkilled, hiso, hended, hsame, hmem⟩ := h.killCurrent_ends hcurrent
    refine ⟨s', ?_, hiso, OthersKept.of_mem hmem hended.processes, hsame⟩
    rw [h.accounted.pageFault_other hf.current hf.present hf.user hheap]
    exact hkilled

end Isolated

/-! ## Traps -/

/-- The running process makes one of the calls that are about its own memory, time or name, or faults, or
is interrupted. -/
structure Trap (s : State) (reg : Registers) (addr : Nat) : Prop where
  current : s.current < NPROC
  running : (s.processes s.current).state = .runnable
  words : ∀ r, reg r < 2 ^ 64
  event : reg .intno ∈ [INT_SYS_BRK, INT_SYS_SBRK, INT_SYS_EXIT, INT_SYS_YIELD, INT_SYS_GETPID, INT_TIMER] ∨
    UserFault s reg addr

namespace Trap

variable {s s' : State} {T : Nat → Tables} {reg : Registers} {addr : Nat}

theorem live (h : Trap s reg addr) : s.current ∈ Kernel.live s :=
  mem_live_of_runnable h.current h.running

theorem entered (h : Trap s reg addr) (he : Entered s s' reg) : Trap s' reg addr := by
  have hrunning : (s'.processes s'.current).state = .runnable := by
    rw [he.current, he.process_self]
    exact h.running
  refine ⟨he.current ▸ h.current, hrunning, h.words, h.event.imp_right fun hf => ?_⟩
  refine ⟨he.current ▸ hf.current, hrunning, hf.intno, hf.user, ?_⟩
  rw [he.current, he.touched.hasPage]
  exact hf.present

/-- What the handler does for the process does not concern the others. -/
theorem dispatch_kept (h : Trap s reg addr) (hiso : Isolated s T)
    (hsaved : (s.processes s.current).registers = reg) :
    ∃ s' after, dispatch s reg addr = .ok (s', after) ∧ Isolated s' T ∧ OthersKept s s' s.current ∧
      s'.current = s.current := by
  have hlive := h.live
  -- a call that returns a value
  have hreturns : ∀ s₁, Isolated s₁ T → OthersKept s s₁ s.current → s₁.current = s.current →
      (s₁.processes s.current).state = (s.processes s.current).state → ∀ r, Isolated (setRax s₁ r) T ∧
      OthersKept s (setRax s₁ r) s.current ∧ (setRax s₁ r).current = s.current := by
    intro s₁ hiso₁ hkept hcur hstate r
    have hlive₁ : s₁.current ∈ Kernel.live s₁ := by
      rw [hcur]
      refine mem_live.2 ⟨h.current, ?_⟩
      rw [hstate]
      exact (mem_live.1 hlive).2
    obtain ⟨hiso', hkept'⟩ := hiso₁.setRax_kept hlive₁ r
    rw [hcur] at hkept'
    exact ⟨hiso', hkept.trans hkept', hcur⟩
  rcases h.event with hcall | hfault
  · simp only [List.mem_cons, List.not_mem_nil, or_false] at hcall
    rcases hcall with hintno | hintno | hintno | hintno | hintno | hintno
    · obtain ⟨s₁, r, hcode, hiso₁, hkept, hcur, hstate⟩ := hiso.brk_kept hlive (reg .rdi)
      refine ⟨setRax s₁ r, .back, ?_, hreturns s₁ hiso₁ hkept hcur hstate r⟩
      rw [dispatch_brk hintno, hsaved, hcode]
      rfl
    · obtain ⟨s₁, r, hcode, hiso₁, hkept, hcur, hstate⟩ := hiso.sbrk_kept hlive (h.words .rdi)
      refine ⟨setRax s₁ r, .back, ?_, hreturns s₁ hiso₁ hkept hcur hstate r⟩
      rw [dispatch_sbrk hintno, hsaved, hcode]
      rfl
    · obtain ⟨s₁, hcode, hiso₁, hended, hcur, hmem⟩ := hiso.processFree_ends hlive
      refine ⟨s₁, .reschedule, ?_, hiso₁, OthersKept.of_mem hmem hended.processes, hcur⟩
      rw [dispatch_exit hintno, hcode]
      rfl
    · exact ⟨s, .reschedule, dispatch_yield hintno, hiso, OthersKept.refl s _, rfl⟩
    · have hgetpid := hreturns s hiso (OthersKept.refl s _) rfl rfl s.current
      exact ⟨setRax s s.current, .back, dispatch_getpid hintno, hgetpid⟩
    · refine ⟨_, .reschedule, dispatch_timer hintno, ?_, OthersKept.of_mem rfl fun _ _ => rfl, rfl⟩
      exact hiso.of_processes rfl rfl (fun _ _ => Iff.rfl) (fun _ => rfl) hiso.breaks
  · obtain ⟨s₁, hcode, hiso₁, hkept, hcur⟩ := hiso.pageFault_kept hfault hlive
    refine ⟨s₁, .back, ?_, hiso₁, hkept, hcur⟩
    rw [dispatch_pageFault hfault.intno, hcode]
    rfl

/-- The whole handler, up to the process that runs next. -/
theorem exception_kept (h : Trap s reg addr) (hiso : Isolated s T) :
    ∃ s' next, exception s reg addr = .ok (s', next) ∧ Isolated s' T ∧ OthersKept s s' s.current := by
  obtain ⟨s₁, he, hcode⟩ := hiso.accounted.exception_enters hiso.ownersLive reg addr
  have hsaved : (s₁.processes s₁.current).registers = reg := by
    rw [he.current, he.process_self]
  obtain ⟨s₂, after, hdispatch, hiso₂, hkept₂, hcur₂⟩ := (h.entered he).dispatch_kept (hiso.entered he) hsaved
  have hkept₁ : OthersKept s s₁ s.current := OthersKept.of_mem he.mem he.touched.other
  rw [he.current] at hkept₂ hcur₂
  have hlt : s₂.current < NPROC := by
    rw [hcur₂]
    exact h.current
  rw [hcode, hdispatch]
  rcases hiso₂.accounted.resume_ok hlt after with ⟨pid, -, -, hresume⟩ | ⟨-, hresume⟩
  · refine ⟨_, _, hresume, ?_, (hkept₁.trans hkept₂).trans (OthersKept.of_mem rfl fun _ _ => rfl)⟩
    exact hiso₂.of_processes rfl rfl (fun _ _ => Iff.rfl) (fun _ => rfl) hiso₂.breaks
  · exact ⟨_, _, hresume, hiso₂, hkept₁.trans hkept₂⟩

end Trap

/-! ## Runs -/

/-- The running process has stored to its own writable pages. -/
structure OwnStores (s : State) (m : Mem) : Prop where
  current : s.current < NPROC
  running : (s.processes s.current).state = .runnable
  bytes : ∀ x, (∀ va, UserPart va → (s.lookup s.current va).perm &&& PTE_W ≠ 0 →
    x ≠ (s.lookup s.current va).pa) → m x = s.mem x

/-- The bytes that the running process has stored are on its pages. -/
theorem Accounted.userBytes_of_stores {s : State} {T : Nat → Tables} {m : Mem}
    (h : Accounted s (live s) T ∅) (hstores : OwnStores s m) :
    s.current ∈ live s ∧ UserBytes s.mem m (T s.current) := by
  have hlive := mem_live_of_runnable hstores.current hstores.running
  refine ⟨hlive, fun x hx => ?_⟩
  apply hstores.bytes
  rintro va huser hwritable rfl
  rw [State.lookup, h.root _ hlive] at hwritable hx
  have hm : Mapped s.mem (T s.current).l1 va := by
    intro e
    rw [e] at hwritable
    exact hwritable rfl
  obtain ⟨pn, perm, -, -, hmap⟩ := (h.space _ hlive).user va huser hm
  apply hx pn
  · refine references_pos.2 ⟨va, huser, hm, ?_⟩
    rw [hmap, Int.toNat_natCast]
  · rw [hmap]
    simp only [PAGESIZE]
    omega

/-- A process that stores to its own pages does not reach the others'. -/
theorem Isolated.stores_kept {s : State} {T : Nat → Tables} {m : Mem} (h : Isolated s T)
    (hstores : OwnStores s m) : Isolated { s with mem := m } T ∧ OthersKept s { s with mem := m } s.current := by
  obtain ⟨hlive, hbytes⟩ := h.accounted.userBytes_of_stores hstores
  obtain ⟨hacc, hlookup⟩ := h.accounted.userBytes hlive hbytes
  constructor
  · refine ⟨hacc, fun q hq hcount => ?_, h.breaks⟩
    obtain ⟨j, hj, howner, halone⟩ := h.owner q hq hcount
    refine ⟨j, hj, howner, fun k hk hne => ?_⟩
    rw [← halone k hk hne, uses, uses, references_congr fun va _ => hlookup k hk va]
  · apply h.othersKept
    · exact fun _ _ => rfl
    · exact fun j hj _ => hlookup j hj
    · intro j _ hne q hinfo _ x hx
      apply hbytes
      intro q' hpos hx'
      have hsame := page_eq_of_inRange (Nat.mul_mod_right PAGESIZE q') (Nat.mul_mod_right PAGESIZE q) hx' hx
      simp only [PAGESIZE] at hsame
      have hq : q' = q := by omega
      -- the page would have two owners
      have hown : s.pageinfo q' = ⟨s.current, 1⟩ := by
        apply h.info_of_uses hlive
        rw [uses]
        omega
      rw [hq, hinfo] at hown
      have howner := congrArg PageInfo.owner hown
      simp only at howner
      omega

/-- One step of the machine: the running process stores to its own pages, or traps. -/
inductive Step (s : State) : State → Prop where
  | stores {m : Mem} (h : OwnStores s m) : Step s { s with mem := m }
  | trap {reg : Registers} {addr : Nat} {s' : State} {next : Option Nat} (h : Trap s reg addr)
      (hcode : exception s reg addr = .ok (s', next)) : Step s s'

theorem Isolated.step {s s' : State} {T : Nat → Tables} (h : Isolated s T) (hstep : Step s s') :
    Isolated s' T ∧ OthersKept s s' s.current := by
  cases hstep with
  | stores hstores => exact h.stores_kept hstores
  | trap htrap hcode =>
      obtain ⟨s₁, next, hcode₁, hkept⟩ := htrap.exception_kept h
      rw [hcode₁] at hcode
      rw [← (ok_pair.1 hcode).1]
      exact hkept

theorem Isolated.run {s s' : State} {T : Nat → Tables} (h : Isolated s T)
    (hrun : Relation.ReflTransGen Step s s') : Isolated s' T := by
  induction hrun with
  | refl => exact h
  | tail _ hstep ih => exact (ih.step hstep).1

/-- In every state that isolated processes reach they are isolated and the checks of the kernel hold; every
trap is handled, and no step changes the mappings, the breaks or the bytes of another process. -/
theorem interleavings_isolated {s s' : State} {T : Nat → Tables} (h : Isolated s T)
    (hrun : Relation.ReflTransGen Step s s') :
    Isolated s' T ∧ VirtualMemoryOk s' ∧
    (∀ reg addr, Trap s' reg addr → ∃ s'' next, exception s' reg addr = .ok (s'', next)) ∧
    ∀ s'', Step s' s'' → OthersKept s' s'' s'.current := by
  have hiso := h.run hrun
  refine ⟨hiso, hiso.accounted.virtualMemoryOk hiso.ownersLive, fun reg addr htrap => ?_, fun s'' hstep => ?_⟩
  · obtain ⟨s'', next, hcode, -⟩ := htrap.exception_kept hiso
    exact ⟨s'', next, hcode⟩
  · exact (hiso.step hstep).2

/-- Two processes are set up, and the first one moves its break. -/
theorem interleavings_isolated_test2 : ∃ s s' T,
    kernel (fun _ _ => 0) (fun _ => 0) (some "test2") = .ok (s, some 1) ∧ 2 ∈ live s ∧
    Relation.ReflTransGen Step s s' ∧ Isolated s' T ∧ VirtualMemoryOk s' ∧
    ∀ s'', Step s' s'' → OthersKept s' s'' s'.current := by
  obtain ⟨s, T, hkernel, hboot, hlive⟩ := kernel_spec (fun _ _ => 0) (fun _ => 0) (some "test2")
  obtain ⟨reg, hreg⟩ : ∃ reg : Registers,
      reg = fun r => if r = .intno then INT_SYS_SBRK else 0x1000 := ⟨_, rfl⟩
  have htrap : Trap s reg 0 := by
    constructor
    · rw [hboot.current]
      decide
    · rw [hboot.current]
      exact hboot.runnable 1 hboot.first
    · intro r
      rw [hreg]
      show (if r = .intno then INT_SYS_SBRK else 0x1000) < 2 ^ 64
      split
      · decide
      · decide
    · rw [hreg]
      exact Or.inl (by decide)
  obtain ⟨s', next, hcode, -⟩ := htrap.exception_kept hboot.isolated
  have hrun : Relation.ReflTransGen Step s s' := Relation.ReflTransGen.single (Step.trap htrap hcode)
  obtain ⟨hiso, hchecks, -, hothers⟩ := interleavings_isolated hboot.isolated hrun
  exact ⟨s, s', T, hkernel, (hlive 2).2 (by decide), hrun, hiso, hchecks, hothers⟩

end MemoryManagement.Kernel
