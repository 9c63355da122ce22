import MemoryManagement.Kernel.Ownership

/-!
# Break calls and the memory of the kernel

`sbrk` has one guard, the original break of the process. A process that was loaded has it above its
program, but a forked one has whatever its slot has held, 0 in a slot that was never loaded. Such a process
can move its break up and then down below the user part: the call unmaps pages of the kernel, or it never
ends. `break_calls_safe_iff` says which calls do that in any state that a family of processes reaches.
-/

set_option autoImplicit false

namespace MemoryManagement.Kernel

open MemoryManagement.Library.ByteMemory

/-- The addresses below the user part are mapped as before in every page table, and the pages that are
reserved or the kernel's have the page counts that they had. -/
structure KernelKept (s s' : State) : Prop where
  kernel : ∀ va, va < PROC_START_ADDR →
    virtualMemoryLookup s'.mem kernelPagetable va = virtualMemoryLookup s.mem kernelPagetable va
  tables : ∀ pid ∈ live s, ∀ va, va < PROC_START_ADDR → s'.lookup pid va = s.lookup pid va
  info : ∀ pn, pn < 512 → initialOwner (pn * PAGESIZE) ≠ PO_FREE → s'.pageinfo pn = s.pageinfo pn

/-- The call returns, and the kernel's memory is as before. -/
def CallSafe (s : State) (outcome : Outcome (State × Int)) : Prop :=
  ∃ s' r, outcome = .ok (s', r) ∧ KernelKept s s'

theorem lowMapping_present (va : Nat) : lowMapping va ≠ Vamapping.unmapped := by
  intro h
  have hperm := congrArg Vamapping.perm h
  rw [lowMapping] at hperm
  split at hperm
  · exact absurd hperm (by decide : (7 : Nat) ≠ 0)
  · exact absurd hperm (by decide : (3 : Nat) ≠ 0)

/-! ## The loop below the user part -/

section Loop

variable {s s' : State} {pid d : Nat}

/-- The loop has no end when it is to go down to the first page. -/
theorem sbrkLoop_endless {fuel i : Nat} : sbrkLoop pid 0 fuel s i ≠ .ok s' := by
  intro h
  induction fuel generalizing s i with
  | zero => cases h
  | succ fuel ih =>
      rw [sbrkLoop, if_pos (Nat.zero_le i)] at h
      obtain ⟨s₁, -, h⟩ := bind_eq_ok.1 h
      exact ih h

/-- A break on the first page is never reached. -/
theorem sbrk_endless (hacc : BreakAccepted (s.processes pid) d) (hneg : Negative d)
    (hfirst : newBreak (s.processes pid) d < PAGESIZE) {r : Int} : sbrk s pid d ≠ .ok (s', r) := by
  intro h
  have hdown : roundDownPage (newBreak (s.processes pid) d) = 0 := by
    simp only [roundDownPage, PAGESIZE] at hfirst ⊢
    omega
  rw [sbrk, if_pos hacc, if_pos hneg, hdown] at h
  obtain ⟨s₁, hloop, -⟩ := bind_eq_ok.1 h
  exact sbrkLoop_endless hloop

end Loop

namespace Family

variable {s s' : State} {T : Nat → Tables} {pid : Nat}

/-- The page tables and the page counts of the kernel are the same in all states of a family. -/
theorem kernelKept (h : Family s T) (h' : Family s' T) (hlive : live s' = live s) : KernelKept s s' := by
  constructor
  · intro va hva
    have hphysical : va < MEMSIZE_PHYSICAL := Nat.lt_of_lt_of_le hva (by decide)
    exact (h'.accounted.kernel.identity va hphysical).trans (h.accounted.kernel.identity va hphysical).symm
  · intro j hj va hva
    have hj' : j ∈ live s' := by
      rw [hlive]
      exact hj
    rw [State.lookup, State.lookup, h.accounted.root j hj, h'.accounted.root j hj',
      (h.accounted.space j hj).low va hva, (h'.accounted.space j hj').low va hva]
  · intro pn hlt howner
    have hord : ¬ Ordinary pn := fun hord => howner hord.2
    rw [h.accounted.fixed pn hlt hord, h'.accounted.fixed pn hlt hord]

/-- A break call of a live process is safe if and only if it does not move the break down below the user
part. -/
theorem callSafe_sbrk_iff (h : Family s T) (hpid : pid ∈ live s) {d : Nat} (hd : d < 2 ^ 64) :
    CallSafe s (sbrk s pid d) ↔ StaysHigh (s.processes pid) d := by
  constructor
  · rintro ⟨s', r, hcode, hkept⟩ hacc hneg
    by_contra hbelow
    have hlimit := h.limit pid
    by_cases hfirst : newBreak (s.processes pid) d < PAGESIZE
    · exact sbrk_endless hacc hneg hfirst hcode
    · have hroot := h.accounted.root pid hpid
      have htable : s.TableOk pid := by
        rw [State.TableOk, hroot]
        exact h.accounted.tableOk hpid
      rw [sbrk_lower hlimit hd htable hacc hneg (Nat.le_of_not_lt hfirst)] at hcode
      obtain ⟨rfl, -⟩ := ok_pair.1 hcode
      -- the page of the new break has been mapped and is no longer
      obtain ⟨va, hva⟩ : ∃ va, va = 4096 * (newBreak (s.processes pid) d / 4096) := ⟨_, rfl⟩
      have hlow : va < PROC_START_ADDR := by omega
      have hgone := (shrunk_hides (d := d) htable).gone va ⟨va, mem_pagesDown.2 ⟨0, Nat.zero_le _, hva⟩, rfl⟩
      have hsame := hkept.tables pid hpid va hlow
      rw [State.lookup, State.lookup, shrunk_pagetable, hroot, (h.accounted.space pid hpid).low va hlow] at hsame
      apply hgone
      rw [hroot, Mapped, hsame]
      exact lowMapping_present va
  · intro hhigh
    obtain ⟨s', r, hcode, hfamily', -, hlive, -⟩ := h.sbrk_kept hpid hd hhigh
    exact ⟨s', r, hcode, h.kernelKept hfamily' hlive⟩

theorem callSafe_brk_iff (h : Family s T) (hpid : pid ∈ live s) (a : Nat) :
    CallSafe s (brk s pid a) ↔
      StaysHigh (s.processes pid) (breakDistance (s.processes pid) a) := by
  have hd : breakDistance (s.processes pid) a < 2 ^ 64 := Nat.mod_lt _ (by decide)
  rw [← h.callSafe_sbrk_iff hpid hd]
  constructor
  · rintro ⟨s', r, hcode, hkept⟩
    obtain ⟨⟨s₁, r₁⟩, hsbrk, hpure⟩ := bind_eq_ok.1 hcode
    obtain ⟨rfl, -⟩ := ok_pair.1 hpure
    exact ⟨_, r₁, hsbrk, hkept⟩
  · rintro ⟨s', r, hcode, hkept⟩
    exact ⟨s', _, bind_eq_ok.2 ⟨(s', r), hcode, rfl⟩, hkept⟩

end Family

/-! ## The first child -/

section Child

variable {s s' : State} {T : Nat → Tables}

/-- `schedule` comes back to the same process only when no other one is runnable. -/
theorem schedule_other {j : Nat} {next : Option Nat} (hcurrent : s.current < NPROC) (hj : j < NPROC)
    (hne : j ≠ s.current) (hrunnable : (s.processes j).state = .runnable)
    (h : schedule s = .ok (s', next)) :
    s' = { s with current := s'.current } ∧ next = some s'.current ∧ s'.current ≠ s.current ∧
      s'.current < NPROC ∧ (s.processes s'.current).state = .runnable := by
  obtain ⟨others, hothers⟩ : ∃ others, others =
      (List.range 15).map fun i => (s.current + 1 + i) % NPROC := ⟨_, rfl⟩
  -- the loop tries the running process last
  have horder : (List.range NPROC).map (fun i => (s.current + 1 + i) % NPROC) =
      others ++ [(s.current + 1 + 15) % NPROC] := by
    rw [hothers]
    show (List.range (15 + 1)).map _ = _
    rw [List.range_succ, List.map_append]
    rfl
  have hmem : j ∈ others := by
    rw [hothers, List.mem_map]
    refine ⟨(j + NPROC - (s.current + 1)) % NPROC, ?_, ?_⟩
    · rw [List.mem_range]
      simp only [NPROC] at hcurrent hj ⊢
      omega
    · simp only [NPROC] at hcurrent hj ⊢
      omega
  rw [schedule, horder] at h
  cases hfind : others.find? fun pid => (s.processes pid).state = .runnable with
  | none =>
      have hbusy := List.find?_eq_none.1 hfind j hmem
      rw [decide_eq_true_iff] at hbusy
      exact absurd hrunnable hbusy
  | some pid =>
      rw [List.find?_append, hfind] at h
      obtain ⟨hrun, rfl, rfl⟩ := run_eq_ok h
      have hpid := List.mem_of_find?_eq_some hfind
      rw [hothers, List.mem_map] at hpid
      obtain ⟨i, hi, rfl⟩ := hpid
      rw [List.mem_range] at hi
      refine ⟨rfl, rfl, ?_, Nat.mod_lt _ (by decide), hrun⟩
      show (s.current + 1 + i) % NPROC ≠ s.current
      simp only [NPROC] at hcurrent ⊢
      omega

/-- A process that yields lets another one run. -/
theorem FamilyTrap.yield_other {reg : Registers} {addr j : Nat} (h : FamilyTrap s reg addr)
    (hintno : reg .intno = INT_SYS_YIELD) (hfamily : Family s T) (howners : OwnersLive s) (hj : j < NPROC)
    (hne : j ≠ s.current) (hrunnable : (s.processes j).state = .runnable) :
    ∃ s', exception s reg addr = .ok (s', some s'.current) ∧ Family s' T ∧ OwnersLive s' ∧
      s'.current ≠ s.current ∧ s'.current < NPROC ∧ (s'.processes s'.current).state = .runnable ∧
      s'.processes s.current = { s.processes s.current with registers := reg } ∧
      ∀ pid, pid ≠ s.current → s'.processes pid = s.processes pid := by
  obtain ⟨s', next, hcode⟩ := h.exception_ok hfamily howners
    (KeepsHigh.of_other (by rw [hintno]; decide) (by rw [hintno]; decide))
  obtain ⟨s₁, s₂, after, he, hdispatch, hresume⟩ := exception_eq_ok hcode
  have hsame := Alike.of_entered he
  rw [dispatch_yield hintno] at hdispatch
  obtain ⟨rfl, rfl⟩ := ok_pair.1 hdispatch
  have hschedule : schedule s₁ = .ok (s', next) := by
    rw [resume, if_neg fun e => absurd e.1 (by decide)] at hresume
    exact hresume
  have hrunnable₁ : (s₁.processes j).state = .runnable := by
    rw [he.touched.other j hne]
    exact hrunnable
  obtain ⟨hs', rfl, hother, hlt, hrun⟩ := schedule_other (by rw [he.current]; exact h.current) hj
    (by rw [he.current]; exact hne) hrunnable₁ hschedule
  -- the switch changes `current` and nothing else
  have hpicked : Alike s₁ s' := by
    rw [hs']
    exact Alike.of_processes rfl rfl rfl
  have hprocesses : s'.processes = s₁.processes := by rw [hs']
  refine ⟨s', hcode, hpicked.family (hsame.family hfamily),
    hpicked.ownersLive.2 (hsame.ownersLive.2 howners), ?_, hlt, ?_, ?_, fun pid hpid => ?_⟩
  · rw [he.current] at hother
    exact hother
  · rw [hprocesses]
    exact hrun
  · rw [hprocesses]
    exact he.process_self
  · rw [hprocesses]
    exact he.touched.other pid hpid

/-- A process that moves its break up comes back with the new one. -/
theorem FamilyTrap.sbrk_grows {reg : Registers} {addr : Nat} (h : FamilyTrap s reg addr)
    (hintno : reg .intno = INT_SYS_SBRK) (hfamily : Family s T) (howners : OwnersLive s)
    (hacc : BreakAccepted (s.processes s.current) (reg .rdi)) (hpos : ¬ Negative (reg .rdi)) :
    ∃ s' next, exception s reg addr = .ok (s', next) ∧ (∃ T', Family s' T') ∧
      (s'.processes s.current).state = .runnable ∧
      (s'.processes s.current).originalBreak = (s.processes s.current).originalBreak ∧
      (s'.processes s.current).programBreak = newBreak (s.processes s.current) (reg .rdi) := by
  have hhigh : KeepsHigh s reg :=
    ⟨fun _ _ hneg => absurd hneg hpos, fun e => absurd (hintno.symm.trans e) (by decide)⟩
  obtain ⟨s', next, hcode⟩ := h.exception_ok hfamily howners hhigh
  obtain ⟨s₁, s₃, after, he, hdispatch, hresume⟩ := exception_eq_ok hcode
  have hsame := Alike.of_entered he
  have hproc₁ : s₁.processes s.current = { s.processes s.current with registers := reg } := he.process_self
  have hgrow := sbrk_grow ((hsame.family hfamily).limit s.current) (by rw [hproc₁]; exact hacc) hpos
  -- a growing call only writes the slot of the caller
  obtain ⟨s₂, hs₂⟩ : ∃ s₂, s₂ = s₁.setProc s.current { s₁.processes s.current with
      programBreak := newBreak (s₁.processes s.current) (reg .rdi) } := ⟨_, rfl⟩
  have hcurrent₂ : s₂.current = s.current := by
    rw [hs₂]
    exact he.current
  have hproc₂ : s₂.processes s.current = { s.processes s.current with
      registers := reg, programBreak := newBreak (s.processes s.current) (reg .rdi) } := by
    rw [hs₂, State.setProc_self, hproc₁]
    rfl
  rw [← hs₂] at hgrow
  rw [dispatch_sbrk hintno, he.current, hproc₁, hgrow] at hdispatch
  obtain ⟨rfl, rfl⟩ := ok_pair.1 hdispatch
  obtain ⟨r, hr⟩ : ∃ r : Int, r = (s₁.processes s.current).programBreak := ⟨_, rfl⟩
  have hself : (setRax s₂ r).processes s₂.current = _ := State.setProc_self ..
  rw [hcurrent₂, hproc₂] at hself
  have hrunning : ((setRax s₂ r).processes (setRax s₂ r).current).state = .runnable := by
    show ((setRax s₂ r).processes s₂.current).state = .runnable
    rw [hcurrent₂, hself]
    exact h.running
  rw [hr] at hself hrunning
  obtain ⟨-, rfl⟩ := resume_back hrunning hresume
  refine ⟨_, next, hcode, (h.exception_kept hfamily hhigh hcode).family, ?_, ?_, ?_⟩
  · show ((setRax s₂ _).processes s.current).state = .runnable
    rw [hself]
    exact h.running
  · show ((setRax s₂ _).processes s.current).originalBreak = _
    rw [hself]
  · show ((setRax s₂ _).processes s.current).programBreak = _
    rw [hself]

/-- The registers of a process that calls `sbrk`. -/
def sbrkRegisters (difference : Nat) : Registers :=
  fun r => if r = .intno then INT_SYS_SBRK else if r = .rdi then difference else 0

/-- Any trap of a family of processes. -/
def AnyTrap (_ : State) (_ : Registers) (_ : Nat) : Prop := True

/-- The first process forks and yields; its child, whose slot was never loaded, moves its break up. -/
theorem child_grows : ∃ s s' T' child, kernel (fun _ _ => 0) (fun _ => 0) none = .ok (s, some 1) ∧
    Relation.ReflTransGen (FamilyStep AnyTrap) s s' ∧ Family s' T' ∧ child < NPROC ∧
    (s'.processes child).state = .runnable ∧ (s'.processes child).originalBreak = 0 ∧
    (s'.processes child).programBreak = 0x200000 := by
  obtain ⟨s, T, hkernel, hfresh, hone, htrap⟩ := kernel_one
  obtain ⟨r₁, r₂, s₁, child, U, hfork, hdone, ⟨T₁, hfamily₁⟩, howners₁, -⟩ := hfresh.fork_done hone htrap rfl
  have hcurrent := hfresh.booted.current
  have hcurrent₁ : s₁.current = 1 := hdone.current.trans hcurrent
  have hrunning₁ : (s₁.processes 1).state = .runnable := by
    rw [← hcurrent]
    exact hdone.running
  have hslot := hdone.forked.slot
  have hchild : child ≠ 1 := by
    rintro rfl
    have hidle := hslot.1
    rw [← hcurrent, hdone.entered.process_self, htrap.running] at hidle
    cases hidle
  have hunused : s.processes child = zeroProc := by
    apply hfresh.booted.unused
    rw [hone, Finset.mem_singleton]
    exact hchild
  have hmade : s₁.processes child = _ :=
    (hdone.others child (by rw [hcurrent]; exact hchild)).trans hdone.forked.made
  rw [hdone.entered.touched.other child (by rw [hcurrent]; exact hchild), hunused] at hmade
  -- the parent yields to the child
  have htrap₁ : FamilyTrap s₁ (callRegisters INT_SYS_YIELD) 0 :=
    familyTrap_of_current hcurrent₁ hrunning₁ (by decide) (by decide)
  obtain ⟨s₂, hyield, hfamily₂, howners₂, hother, hlt₂, hrunning₂, -, hkept₂⟩ :=
    htrap₁.yield_other rfl hfamily₁ howners₁ hslot.2.2 (by rw [hcurrent₁]; exact hchild) (by rw [hmade])
  rw [hcurrent₁] at hother hkept₂
  have hpicked : s₂.current = child := by
    by_contra hne
    have hidle : s₁.processes s₂.current = zeroProc := by
      rw [hdone.others s₂.current (by rw [hcurrent]; exact hother), hdone.forked.processes s₂.current hne,
        hdone.entered.touched.other s₂.current (by rw [hcurrent]; exact hother)]
      apply hfresh.booted.unused
      rw [hone, Finset.mem_singleton]
      exact hother
    rw [hkept₂ s₂.current hother, hidle] at hrunning₂
    cases hrunning₂
  -- the child has the break 0 and moves it up
  have hproc₂ : s₂.processes s₂.current = _ := (hkept₂ s₂.current hother).trans (hpicked ▸ hmade)
  have htrap₂ : FamilyTrap s₂ (sbrkRegisters 0x200000) 0 := by
    refine ⟨hlt₂, hrunning₂, fun r => ?_, Or.inl (by decide)⟩
    rw [sbrkRegisters]
    split
    · decide
    · split
      · decide
      · decide
  have hbreak₂ : (s₂.processes s₂.current).programBreak = 0 := by
    rw [hproc₂]
    rfl
  have horiginal₂ : (s₂.processes s₂.current).originalBreak = 0 := by
    rw [hproc₂]
    rfl
  obtain ⟨s₃, next₃, hgrow, ⟨T₃, hfamily₃⟩, hrunning₃, horiginal₃, hbreak₃⟩ :=
    htrap₂.sbrk_grows rfl hfamily₂ howners₂
      (by rw [BreakAccepted, newBreak, hbreak₂, horiginal₂]; decide) (by decide)
  rw [horiginal₂] at horiginal₃
  rw [newBreak, hbreak₂] at hbreak₃
  have hrun : Relation.ReflTransGen (FamilyStep AnyTrap) s s₃ := by
    have hstep₁ : FamilyStep AnyTrap s s₁ := FamilyStep.trap htrap trivial hfork
    have hstep₂ : FamilyStep AnyTrap s₁ s₂ := FamilyStep.trap htrap₁ trivial hyield
    have hstep₃ : FamilyStep AnyTrap s₂ s₃ := FamilyStep.trap htrap₂ trivial hgrow
    exact ((Relation.ReflTransGen.single hstep₁).tail hstep₂).tail hstep₃
  exact ⟨s, s₃, T₃, s₂.current, hkernel, hrun, hfamily₃, hlt₂, hrunning₃, horiginal₃, hbreak₃⟩

end Child

/-! ## Break calls -/

/-- The break calls so far have stayed in the user part. -/
def StaysInUserPart (s : State) (reg : Registers) (_ : Nat) : Prop := KeepsHigh s reg

/-- In every state of a run whose break calls stay in the user part, a break call of a runnable process
returns and leaves the kernel's memory alone if and only if it stays in the user part, too. -/
theorem break_calls_safe_iff {bytes : Nat → Nat → UInt8} {m : Mem} {command : Option String}
    {next : Option Nat} {s s' : State} (hboot : kernel bytes m command = .ok (s, next))
    (hrun : Relation.ReflTransGen (FamilyStep StaysInUserPart) s s') {pid : Nat} (hlt : pid < NPROC)
    (hrunnable : (s'.processes pid).state = .runnable) :
    (∀ d, d < 2 ^ 64 → (CallSafe s' (sbrk s' pid d) ↔ StaysHigh (s'.processes pid) d)) ∧
    ∀ a, CallSafe s' (brk s' pid a) ↔ StaysHigh (s'.processes pid) (breakDistance (s'.processes pid) a) := by
  obtain ⟨T, hbooted⟩ := booted_of_kernel hboot
  obtain ⟨T', hfamily⟩ := hbooted.family.run (fun _ _ _ hstays => hstays) hrun
  have hpid := mem_live_of_runnable hlt hrunnable
  exact ⟨fun d hd => hfamily.callSafe_sbrk_iff hpid hd, fun a => hfamily.callSafe_brk_iff hpid a⟩

/-- The calls of the first process before anything else has happened. -/
theorem break_calls_safe_iff_first : ∃ s, kernel (fun _ _ => 0) (fun _ => 0) none = .ok (s, some 1) ∧
    (∀ d, d < 2 ^ 64 → (CallSafe s (sbrk s 1 d) ↔ StaysHigh (s.processes 1) d)) ∧
    ∀ a, CallSafe s (brk s 1 a) ↔ StaysHigh (s.processes 1) (breakDistance (s.processes 1) a) := by
  obtain ⟨s, T, hkernel, hfresh, -, -⟩ := kernel_one
  exact ⟨s, hkernel, break_calls_safe_iff hkernel Relation.ReflTransGen.refl (by decide)
    (hfresh.booted.runnable 1 hfresh.booted.first)⟩

/-- The child of the first process unmaps pages of the kernel, or never comes back. -/
theorem child_unmaps_kernel : ∃ s s' child, kernel (fun _ _ => 0) (fun _ => 0) none = .ok (s, some 1) ∧
    Relation.ReflTransGen (FamilyStep AnyTrap) s s' ∧ child < NPROC ∧
    (s'.processes child).state = .runnable ∧ ¬ CallSafe s' (sbrk s' child (2 ^ 64 - 0x180000)) ∧
    ∀ s'' r, sbrk s' child (2 ^ 64 - 0x200000) ≠ .ok (s'', r) := by
  obtain ⟨s, s', T', child, hkernel, hrun, hfamily, hlt, hrunnable, horiginal, hbreak⟩ := child_grows
  have hpid := mem_live_of_runnable hlt hrunnable
  refine ⟨s, s', child, hkernel, hrun, hlt, hrunnable, ?_, fun s'' r => ?_⟩
  · rw [hfamily.callSafe_sbrk_iff hpid (by decide), StaysHigh, BreakAccepted, newBreak, horiginal, hbreak]
    decide
  · apply sbrk_endless
    · rw [BreakAccepted, newBreak, horiginal, hbreak]
      decide
    · decide
    · rw [newBreak, hbreak]
      decide

end MemoryManagement.Kernel
