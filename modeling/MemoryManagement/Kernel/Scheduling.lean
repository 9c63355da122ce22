import MemoryManagement.Kernel.SystemCalls
import MemoryManagement.Library.RoundRobin

/-!
# Scheduling

`schedule` looks at the slots of `processes` in a circle, from the one behind the current process on, and
runs the first one that is runnable (`schedule_eq`). No trap of another process touches the slot of a
process that waits (`exception_other`), so that a runnable process waits for at most one turn of each of
the others, if the kernel comes back from their traps (`waiting_bounded`).
-/

set_option autoImplicit false

namespace MemoryManagement.Kernel

open MemoryManagement.Library.RoundRobin

/-! ## Slots that a trap leaves alone -/

section Others

variable {s s' : State} {pid : Nat}

/-- Whatever `sbrk` does, it writes to the slot of its process only. -/
theorem sbrk_slot {d : Nat} {r : Int} (h : sbrk s pid d = .ok (s', r)) : ∃ p, OnlySlot s s' pid p := by
  have hset : ∀ s₁, OnlyPages s s₁ → ∃ p, OnlySlot s (s₁.setProc pid
      { s₁.processes pid with programBreak := newBreak (s.processes pid) d }) pid p :=
    fun s₁ honly => ⟨_, (OnlySlot.of_only honly pid).trans (OnlySlot.setProc s₁ pid _)⟩
  rw [sbrk] at h
  split at h
  · split at h
    · obtain ⟨s₁, hloop, h⟩ := bind_eq_ok.1 h
      have honly : OnlyPages s s₁ := by
        rw [sbrkLoop_frame hloop]
        exact OnlyPages.of_update s _ _
      rw [← (ok_pair.1 h).1]
      exact hset s₁ honly
    · rw [← (ok_pair.1 h).1]
      exact hset s (OnlyPages.refl s)
  · rw [← (ok_pair.1 h).1]
    exact ⟨_, OnlySlot.of_only (OnlyPages.refl s) pid⟩

theorem brk_slot {a : Nat} {r : Int} (h : brk s pid a = .ok (s', r)) : ∃ p, OnlySlot s s' pid p := by
  rw [brk] at h
  obtain ⟨⟨s₁, r₁⟩, hsbrk, h⟩ := bind_eq_ok.1 h
  rw [← (ok_pair.1 h).1]
  exact sbrk_slot hsbrk

theorem setRax_slot (s : State) (r : Int) : ∃ p, OnlySlot s (setRax s r) s.current p :=
  ⟨_, OnlySlot.setProc s s.current _⟩

theorem syscallMemTog_slot (s : State) (pid : Nat) :
    (syscallMemTog s pid).processes = s.processes ∧ (syscallMemTog s pid).current = s.current ∨
      ∃ p, OnlySlot s (syscallMemTog s pid) pid p := by
  rw [syscallMemTog]
  split
  · exact Or.inl ⟨rfl, rfl⟩
  · split
    · exact Or.inl ⟨rfl, rfl⟩
    · exact Or.inr ⟨_, OnlySlot.setProc s pid _⟩

theorem killCurrent_slot (h : killCurrent s = .ok s') : ∃ p, OnlySlot s s' s.current p := by
  have hfree := processFree_slot h
  exact ⟨_, (OnlySlot.setProc s s.current _).trans hfree⟩

theorem pageFault_slot {reg : Registers} {addr : Nat} (h : pageFault s reg addr = .ok s') :
    ∃ p, OnlySlot s s' s.current p := by
  have honly := palloc_only s s.current
  -- the pages that were taken before the process was ended
  have hkilled : ∀ s₁, OnlyPages s s₁ → killCurrent s₁ = .ok s' → ∃ p, OnlySlot s s' s.current p := by
    intro s₁ honly₁ hkill
    obtain ⟨p, hslot⟩ := killCurrent_slot hkill
    rw [honly₁.current] at hslot
    exact ⟨p, (OnlySlot.of_only honly₁ s.current).trans hslot⟩
  rw [pageFault] at h
  simp only at h
  split at h
  · split at h
    · exact hkilled _ honly h
    · obtain ⟨map, -, h⟩ := bind_eq_ok.1 h
      have hmapped := honly.trans
        (OnlyPages.of_update (palloc s s.current).1 map.1 (palloc s s.current).1.pageinfo)
      split at h
      · exact hkilled _ hmapped h
      · rw [← Except.ok.inj h]
        exact ⟨_, OnlySlot.of_only hmapped s.current⟩
  · split at h
    · cases h
    · exact hkilled s (OnlyPages.refl s) h

/-- A slot that is not free and not the current process's, after the case of the switch. -/
theorem dispatch_other {reg : Registers} {cr2 : Nat} {after : After}
    (hactive : (s.processes s.current).state ≠ .free) (h : dispatch s reg cr2 = .ok (s', after)) :
    s'.current = s.current ∧ ∀ j, j ≠ s.current → (s.processes j).state ≠ .free →
      s'.processes j = s.processes j := by
  -- the call writes to the current slot, and so may its result
  have hslot : ∀ s₁ p, OnlySlot s s₁ s.current p → s₁.current = s.current ∧
      ∀ j, j ≠ s.current → (s.processes j).state ≠ .free → s₁.processes j = s.processes j :=
    fun s₁ p honly => ⟨honly.machine.current, fun j hj _ => honly.other hj⟩
  have hreturns : ∀ s₁ p r, OnlySlot s s₁ s.current p → (setRax s₁ r).current = s.current ∧
      ∀ j, j ≠ s.current → (s.processes j).state ≠ .free → (setRax s₁ r).processes j = s.processes j := by
    intro s₁ p r honly
    obtain ⟨q, hresult⟩ := setRax_slot s₁ r
    rw [honly.machine.current] at hresult
    exact hslot _ q (honly.trans hresult)
  have hrefl := OnlySlot.of_only (OnlyPages.refl s) s.current
  have hcase : HasCase (reg .intno) := by
    by_contra hnot
    rw [dispatch_default hnot] at h
    cases h
  simp only [HasCase, List.mem_cons, List.not_mem_nil, or_false] at hcase
  rcases hcase with hintno | hintno | hintno | hintno | hintno | hintno | hintno | hintno | hintno | hintno |
    hintno | hintno
  · rw [dispatch, if_pos hintno] at h
    cases h
  · rw [dispatch_getpid hintno] at h
    rw [← (ok_pair.1 h).1]
    exact hreturns s _ _ hrefl
  · rw [dispatch_yield hintno] at h
    rw [← (ok_pair.1 h).1]
    exact ⟨rfl, fun _ _ _ => rfl⟩
  · rw [dispatch_pageAlloc hintno] at h
    obtain ⟨⟨s₁, r⟩, halloc, h⟩ := bind_eq_ok.1 h
    rw [← (ok_pair.1 h).1]
    exact hslot s₁ _ (OnlySlot.of_only (processPageAlloc_only halloc) s.current)
  · -- `fork` writes to a free slot besides
    rw [dispatch_fork hintno] at h
    obtain ⟨⟨s₁, r⟩, hfork, h⟩ := bind_eq_ok.1 h
    rw [← (ok_pair.1 h).1]
    obtain ⟨q, hresult⟩ := setRax_slot s₁ r
    rcases processFork_cases hactive hfork with ⟨child, -, hmade⟩ | ⟨-, hno⟩
    · obtain ⟨root, hchild⟩ := hmade.slot
      rw [hchild.machine.current] at hresult
      refine ⟨hresult.machine.current.trans hchild.machine.current, fun j hj hbusy => ?_⟩
      have hjc : j ≠ child := fun e => hbusy (e ▸ hmade.free)
      rw [hresult.other hj, hchild.other hjc]
    · rw [hno.machine.current] at hresult
      refine ⟨hresult.machine.current.trans hno.machine.current, fun j hj hbusy => ?_⟩
      rw [hresult.other hj, hno.others j hbusy]
  · rw [dispatch_exit hintno] at h
    obtain ⟨s₁, hfree, h⟩ := bind_eq_ok.1 h
    rw [← (ok_pair.1 h).1]
    exact hslot s₁ _ (processFree_slot hfree)
  · rw [dispatch_mapping hintno] at h
    obtain ⟨m, -, h⟩ := bind_eq_ok.1 h
    rw [← (ok_pair.1 h).1]
    exact ⟨rfl, fun _ _ _ => rfl⟩
  · rw [dispatch_memTog hintno] at h
    rw [← (ok_pair.1 h).1]
    rcases syscallMemTog_slot s s.current with ⟨hsame, hcurrent⟩ | ⟨p, honly⟩
    · exact ⟨hcurrent, fun j _ _ => by rw [hsame]⟩
    · exact hslot _ p honly
  · rw [dispatch_brk hintno] at h
    obtain ⟨⟨s₁, r⟩, hbrk, h⟩ := bind_eq_ok.1 h
    rw [← (ok_pair.1 h).1]
    obtain ⟨p, honly⟩ := brk_slot hbrk
    exact hreturns s₁ p r honly
  · rw [dispatch_sbrk hintno] at h
    obtain ⟨⟨s₁, r⟩, hsbrk, h⟩ := bind_eq_ok.1 h
    rw [← (ok_pair.1 h).1]
    obtain ⟨p, honly⟩ := sbrk_slot hsbrk
    exact hreturns s₁ p r honly
  · rw [dispatch_timer hintno] at h
    rw [← (ok_pair.1 h).1]
    exact ⟨rfl, fun _ _ _ => rfl⟩
  · rw [dispatch_pageFault hintno] at h
    obtain ⟨s₁, hfault, h⟩ := bind_eq_ok.1 h
    rw [← (ok_pair.1 h).1]
    obtain ⟨p, honly⟩ := pageFault_slot hfault
    exact hslot s₁ p honly

/-- A trap that leaves the choice of the next process alone is none of these. -/
theorem dispatch_back {reg : Registers} {cr2 : Nat} (h : dispatch s reg cr2 = .ok (s', .back)) :
    reg .intno ∉ [INT_SYS_EXIT, INT_SYS_YIELD, INT_TIMER] := by
  intro hmem
  simp only [List.mem_cons, List.not_mem_nil, or_false] at hmem
  rcases hmem with hintno | hintno | hintno
  · rw [dispatch_exit hintno] at h
    obtain ⟨s₁, -, h⟩ := bind_eq_ok.1 h
    cases h
  · rw [dispatch_yield hintno] at h
    cases h
  · rw [dispatch_timer hintno] at h
    cases h

end Others

/-! ## The next process -/

/-- A process that `schedule` may pick. -/
def ready (s : State) (pid : Nat) : Bool := (s.processes pid).state = .runnable

theorem ready_iff {s : State} {pid : Nat} : ready s pid = true ↔ (s.processes pid).state = .runnable :=
  decide_eq_true_iff

/-- `schedule` goes round the slots. -/
theorem schedule_eq (s : State) : schedule s =
    match pick NPROC s.current (ready s) with
    | some pid => run s pid
    | none => .ok (s, none) :=
  rfl

section Resume

variable {s s' : State} {after : After} {next : Option Nat}

/-- The end of `exception`: the current process goes on, or the next one in the circle is run. -/
theorem resume_cases (h : resume s after = .ok (s', next)) :
    (after = .back ∧ (s.processes s.current).state = .runnable ∧ next = some s.current ∧ s' = s) ∨
    (¬ (after = .back ∧ (s.processes s.current).state = .runnable) ∧
      next = pick NPROC s.current (ready s)) := by
  rw [resume] at h
  split at h
  · rename_i hback
    obtain ⟨-, rfl, rfl⟩ := run_eq_ok h
    exact Or.inl ⟨hback.1, hback.2, rfl, rfl⟩
  · rename_i hback
    refine Or.inr ⟨hback, ?_⟩
    rw [schedule_eq] at h
    cases hpick : pick NPROC s.current (ready s) with
    | some pid =>
        rw [hpick] at h
        exact (run_eq_ok h).2.1
    | none =>
        rw [hpick] at h
        exact (ok_pair.1 h).2.symm

end Resume

/-! ## Waiting -/

/-- The trap gives the processor up: the process has yielded, its time is over, or it has ended. -/
def GivesUp (s s' : State) (reg : Registers) : Prop :=
  reg .intno ∈ [INT_SYS_EXIT, INT_SYS_YIELD, INT_TIMER] ∨ (s'.processes s.current).state ≠ .runnable

instance (s s' : State) (reg : Registers) : Decidable (GivesUp s s' reg) :=
  inferInstanceAs (Decidable (_ ∨ _))

/-- Traps have been handled and memory has changed, and no trap has come back in the process `pid`. Of the
traps, `k` gave the processor up. -/
inductive Waiting (pid : Nat) (s : State) : Nat → State → Prop where
  | start : Waiting pid s 0 s
  | changes {k : Nat} {s' : State} {m : Library.ByteMemory.Mem} (h : Waiting pid s k s') :
      Waiting pid s k { s' with mem := m }
  | trap {k : Nat} {s' s'' : State} {reg : Registers} {addr : Nat} {next : Option Nat}
      (h : Waiting pid s k s') (hcode : exception s' reg addr = .ok (s'', next)) (hother : next ≠ some pid) :
      Waiting pid s (if GivesUp s' s'' reg then k + 1 else k) s''

/-- A process waits in a slot of its own while another one runs. -/
structure InLine (s : State) (pid : Nat) : Prop where
  current : s.current < NPROC
  running : (s.processes s.current).state = .runnable
  bound : pid < NPROC
  runnable : (s.processes pid).state = .runnable
  other : pid ≠ s.current

/-- The slots that `schedule` looks at before that of `pid`. -/
def slotsAhead (s : State) (pid : Nat) : Nat := ahead NPROC s.current pid

namespace InLine

variable {s s' : State} {pid : Nat} {reg : Registers} {addr : Nat} {next : Option Nat}

theorem slotsAhead_lt (h : InLine s pid) : slotsAhead s pid + 1 < NPROC :=
  ahead_lt_of_ne h.current h.bound h.other

/-- One trap: the slot of the waiting process is as it was, some process runs, and if the processor was given
up there are fewer slots ahead, or the wait is over. -/
theorem step (h : InLine s pid) (hcode : exception s reg addr = .ok (s', next)) :
    s'.processes pid = s.processes pid ∧ s'.current < NPROC ∧ (s'.processes s'.current).state = .runnable ∧
      next = some s'.current ∧
      (s'.current = pid ∨ slotsAhead s' pid + (if GivesUp s s' reg then 1 else 0) ≤ slotsAhead s pid) := by
  obtain ⟨s₁, s₂, after, he, hdispatch, hresume⟩ := exception_eq_ok hcode
  have hactive₁ : (s₁.processes s₁.current).state ≠ .free := by
    rw [he.current, he.process_self]
    show (s.processes s.current).state ≠ .free
    rw [h.running]
    exact ProcState.noConfusion
  have hbusy : (s.processes pid).state ≠ .free := by
    rw [h.runnable]
    exact ProcState.noConfusion
  obtain ⟨hcurrent₂, hothers⟩ := dispatch_other hactive₁ hdispatch
  rw [he.current] at hcurrent₂ hothers
  have hslot : s₂.processes pid = s.processes pid := by
    have hsame := he.touched.other pid h.other
    rw [hothers pid h.other (by rw [hsame]; exact hbusy), hsame]
  obtain ⟨hsame, hnext⟩ := resume_only hresume
  have hprocs : s'.processes = s₂.processes := by rw [hsame]
  have hready : ready s₂ pid = true := by
    rw [ready_iff, hslot]
    exact h.runnable
  refine ⟨by rw [hprocs, hslot], ?_⟩
  rcases resume_cases hresume with ⟨rfl, hrunning, rfl, rfl⟩ | ⟨hnot, hpick⟩
  · -- the process goes on, and has not given the processor up
    have hkeeps : ¬ GivesUp s s' reg := by
      rintro (hmem | hended)
      · exact dispatch_back hdispatch hmem
      · apply hended
        rw [← hcurrent₂]
        exact hrunning
    refine ⟨?_, hrunning, rfl, Or.inr ?_⟩
    · rw [hcurrent₂]
      exact h.current
    · rw [if_neg hkeeps, slotsAhead, slotsAhead, hcurrent₂]
      exact Nat.le_refl _
  · -- somebody is picked, since the waiting process could be
    cases hfound : pick NPROC s₂.current (ready s₂) with
    | none =>
        have hnone := (pick_eq_none (by decide)).1 hfound pid h.bound
        rw [hready] at hnone
        exact Bool.noConfusion hnone
    | some q =>
        rw [hfound] at hpick
        obtain ⟨hq, hrunning⟩ := hnext q hpick
        have hlt : s₂.current < NPROC := by
          rw [hcurrent₂]
          exact h.current
        refine ⟨?_, ?_, by rw [hpick, hq], ?_⟩
        · rw [hq]
          exact (pick_eq_some hlt hfound).1
        · rw [hprocs, hq]
          exact hrunning
        · by_cases hqp : q = pid
          · exact Or.inl (hq.trans hqp)
          · have hless := ahead_pick hlt hfound h.bound hready hqp
            right
            rw [slotsAhead, slotsAhead, hq, ← hcurrent₂]
            split
            · exact hless
            · exact Nat.le_of_lt hless

/-- A whole wait. -/
theorem run {k : Nat} (h : InLine s pid) (hwait : Waiting pid s k s') :
    InLine s' pid ∧ s'.processes pid = s.processes pid ∧ k + slotsAhead s' pid ≤ slotsAhead s pid := by
  induction hwait with
  | start => exact ⟨h, rfl, Nat.le_of_eq (Nat.zero_add _)⟩
  | changes hwait ih =>
      obtain ⟨hline, hslot, hle⟩ := ih
      exact ⟨⟨hline.current, hline.running, hline.bound, hline.runnable, hline.other⟩, hslot, hle⟩
  | trap hwait hcode hother ih =>
      obtain ⟨hline, hslot, hle⟩ := ih
      obtain ⟨hsame, hlt, hrunning, hnext, hahead⟩ := hline.step hcode
      rw [hnext] at hother
      have hne : pid ≠ _ := fun e => hother (congrArg some e.symm)
      have hless := hahead.resolve_left fun e => hne e.symm
      refine ⟨⟨hlt, hrunning, hline.bound, ?_, hne⟩, hsame.trans hslot, ?_⟩
      · rw [hsame]
        exact hline.runnable
      · split
        · rename_i hgives
          rw [if_pos hgives] at hless
          omega
        · rename_i hkeeps
          rw [if_neg hkeeps] at hless
          omega

end InLine

/-- A runnable process waits for no more turns than there are slots before its own, as long as the kernel comes
back from the traps of the others: while they make traps that it comes back from and memory changes, the slot
of the process stays as it was, no such trap leaves the processor idle, nobody is given the processor twice,
and after as many traps that give the processor up as there are slots ahead, the next one that does, if the
kernel comes back from it, runs the process. A panic, or a call of `sbrk` that never returns, stops everybody. -/
theorem waiting_bounded {s s' : State} {pid k : Nat} (h : InLine s pid) (hwait : Waiting pid s k s') :
    s'.processes pid = s.processes pid ∧ k + slotsAhead s' pid ≤ slotsAhead s pid ∧ slotsAhead s pid ≤ 14 ∧
    (s'.current = s.current → k = 0) ∧
    ∀ reg addr s'' next, exception s' reg addr = .ok (s'', next) → next ≠ none ∧
      (k = slotsAhead s pid → GivesUp s' s'' reg → next = some pid) := by
  obtain ⟨hline, hslot, hle⟩ := h.run hwait
  have hlimit := h.slotsAhead_lt
  refine ⟨hslot, hle, ?_, fun hcurrent => ?_, fun reg addr s'' next hcode => ?_⟩
  · simp only [NPROC] at hlimit
    omega
  · rw [slotsAhead, slotsAhead, hcurrent] at hle
    omega
  · obtain ⟨-, -, -, hnext, hahead⟩ := hline.step hcode
    rw [hnext]
    refine ⟨Option.some_ne_none _, fun hall hgives => ?_⟩
    rw [if_pos hgives] at hahead
    rcases hahead with hpid | hless
    · rw [hpid]
    · omega

/-- Two processes are set up. The first one asks for its number, and the second one waits. -/
theorem waiting_bounded_test2 : ∃ s s', kernel (fun _ _ => 0) (fun _ => 0) (some "test2") = .ok (s, some 1) ∧
    InLine s 2 ∧ Waiting 2 s 0 s' ∧ s'.processes 2 = s.processes 2 ∧
    ∀ reg addr s'' next, exception s' reg addr = .ok (s'', next) → GivesUp s' s'' reg → next = some 2 := by
  obtain ⟨s, T, hkernel, hboot, hlive⟩ := kernel_spec (fun _ _ => 0) (fun _ => 0) (some "test2")
  have hcurrent := hboot.current
  have hfirst := hboot.runnable 1 hboot.first
  have hline : InLine s 2 := by
    refine ⟨?_, ?_, by decide, hboot.runnable 2 ((hlive 2).2 (by decide)), ?_⟩
    · rw [hcurrent]
      decide
    · rw [hcurrent]
      exact hfirst
    · rw [hcurrent]
      decide
  have htrap : FamilyTrap s (callRegisters INT_SYS_GETPID) 0 :=
    familyTrap_of_current hcurrent hfirst (by decide) (by decide)
  obtain ⟨s', next, hcode⟩ := htrap.exception_ok hboot.family hboot.isolated.ownersLive
    (KeepsHigh.of_other (by decide) (by decide))
  -- the call comes back to the first process
  obtain ⟨s₁, s₂, after, he, hdispatch, hresume⟩ := exception_eq_ok hcode
  rw [dispatch_getpid rfl] at hdispatch
  obtain ⟨rfl, rfl⟩ := ok_pair.1 hdispatch
  have hrunning : ((setRax s₁ s₁.current).processes (setRax s₁ s₁.current).current).state = .runnable := by
    show ((s₁.setProc s₁.current _).processes s₁.current).state = .runnable
    rw [State.setProc_self, he.current, he.process_self]
    show (s.processes s.current).state = .runnable
    rw [hcurrent]
    exact hfirst
  have hback := resume_back hrunning hresume
  have hcurrent' : (setRax s₁ s₁.current).current = 1 := he.current.trans hcurrent
  have hkeeps : ¬ GivesUp s s' (callRegisters INT_SYS_GETPID) := by
    rintro (hmem | hended)
    · exact absurd hmem (by decide)
    · apply hended
      rw [hback.2, ← he.current]
      exact hrunning
  have hstart : Waiting 2 s 0 s := Waiting.start
  have hwait := hstart.trap hcode (by
    rw [hback.1, hcurrent']
    decide)
  rw [if_neg hkeeps] at hwait
  obtain ⟨hslot, -, -, -, hnext⟩ := waiting_bounded hline hwait
  refine ⟨s, s', hkernel, hline, hwait, hslot, fun reg addr s'' next hcode' hgives => ?_⟩
  apply (hnext reg addr s'' next hcode').2 _ hgives
  rw [slotsAhead, hcurrent]
  decide

end MemoryManagement.Kernel
