import MemoryManagement.Kernel.Checks
import MemoryManagement.Kernel.Fork
import MemoryManagement.Kernel.Segments

/-!
# What calls leave alone

For calls that have returned, whatever the state was: which slots of `processes` they have written to and
which fields of them. `exception_eq_ok` takes a trap that has been handled apart.
-/

set_option autoImplicit false

namespace MemoryManagement.Kernel

open MemoryManagement.Library.ByteMemory

variable {s s' : State} {pid parent child : Nat}

/-! ## Pages -/

theorem palloc_only (s : State) (pid : Nat) : OnlyPages s (palloc s pid).1 := by
  unfold palloc
  cases findFreePage s.pageinfo with
  | none => exact OnlyPages.refl s
  | some pn => exact OnlyPages.of_update s _ _

theorem processPageAlloc_only {addr : Nat} {r : Int} (h : processPageAlloc s pid addr = .ok (s', r)) :
    OnlyPages s s' := by
  rw [processPageAlloc] at h
  split at h
  · rw [← (ok_pair.1 h).1]
    exact OnlyPages.refl s
  · simp only at h
    split at h
    · rw [← (ok_pair.1 h).1]
      exact palloc_only s pid
    · obtain ⟨map, -, h⟩ := bind_eq_ok.1 h
      rw [← (ok_pair.1 h).1]
      exact (palloc_only s pid).trans (OnlyPages.of_update _ _ _)

theorem forkPage_only {va : Nat} {b : Bool} (h : forkPage parent child s va = .ok (s', b)) :
    OnlyPages s s' := by
  rw [forkPage] at h
  simp only at h
  split at h
  · split at h
    · rw [← (ok_pair.1 h).1]
      exact palloc_only s child
    · obtain ⟨map, -, h⟩ := bind_eq_ok.1 h
      rw [← (ok_pair.1 h).1]
      exact (palloc_only s child).trans (OnlyPages.of_update _ _ _)
  · split at h
    · obtain ⟨map, -, h⟩ := bind_eq_ok.1 h
      split at h
      · rw [← (ok_pair.1 h).1]
        exact OnlyPages.of_update s _ _
      · rw [← (ok_pair.1 h).1]
        exact OnlyPages.of_update s _ _
    · rw [(ok_pair.1 h).1]
      exact OnlyPages.refl s'

/-! ## Slots -/

/-- Only one slot of `processes` has been written to. -/
structure OnlySlot (s s' : State) (pid : Nat) (p : Proc) : Prop where
  processes : s'.processes = Function.update s.processes pid p
  machine : SameMachine s s'

namespace OnlySlot

variable {p q : Proc}

theorem self (h : OnlySlot s s' pid p) : s'.processes pid = p := by
  rw [h.processes, Function.update_self]

theorem other (h : OnlySlot s s' pid p) {j : Nat} (hj : j ≠ pid) : s'.processes j = s.processes j := by
  rw [h.processes, Function.update_of_ne hj]

theorem of_only (h : OnlyPages s s') (pid : Nat) : OnlySlot s s' pid (s.processes pid) := by
  refine ⟨?_, h.machine⟩
  rw [Function.update_eq_self, h.processes]

theorem trans {s₁ : State} (h : OnlySlot s s₁ pid p) (h' : OnlySlot s₁ s' pid q) : OnlySlot s s' pid q := by
  refine ⟨?_, h.machine.trans h'.machine⟩
  rw [h'.processes, h.processes, Function.update_idem]

theorem setProc (s : State) (pid : Nat) (p : Proc) : OnlySlot s (s.setProc pid p) pid p :=
  ⟨rfl, SameMachine.setProc ..⟩

end OnlySlot

theorem processFree_slot (h : processFree s pid = .ok s') :
    OnlySlot s s' pid { s.processes pid with state := .free } := by
  rw [processFree] at h
  obtain ⟨info, -, h⟩ := bind_eq_ok.1 h
  rw [← Except.ok.inj h]
  exact ⟨rfl, rfl, rfl, rfl, rfl, rfl⟩

/-- The copying loop: a child that has not got all its pages is free. -/
theorem forkPages_slot {pages : List Nat} {b : Bool} (h : forkPages parent child pages s = .ok (s', b)) :
    OnlySlot s s' child
      (if b then s.processes child else { s.processes child with state := .free }) := by
  induction pages generalizing s with
  | nil =>
      obtain ⟨rfl, rfl⟩ := ok_pair.1 h
      exact OnlySlot.of_only (OnlyPages.refl s) child
  | cons va rest ih =>
      rw [forkPages] at h
      obtain ⟨⟨s₁, b₁⟩, hpage, h⟩ := bind_eq_ok.1 h
      have hfirst := OnlySlot.of_only (forkPage_only hpage) child
      have hself := hfirst.self
      cases b₁ with
      | true =>
          have hrest := ih h
          rw [hself] at hrest
          exact hfirst.trans hrest
      | false =>
          obtain ⟨s₂, hfree, h⟩ := bind_eq_ok.1 h
          obtain ⟨rfl, rfl⟩ := ok_pair.1 h
          have hrest := processFree_slot hfree
          rw [hself] at hrest
          exact hfirst.trans hrest

/-- A page table goes into the slot, or the slot is as it was. -/
theorem processConfigTables_slot {r : Int} (h : processConfigTables s pid = .ok (s', r)) :
    ∃ root, OnlySlot s s' pid { s.processes pid with pagetable := root } := by
  have hfive : ∀ s₁, s₁ = (palloc (palloc (palloc (palloc (palloc s pid).1 pid).1 pid).1 pid).1 pid).1 →
      OnlyPages s s₁ := by
    rintro s₁ rfl
    exact ((((palloc_only s pid).trans (palloc_only _ pid)).trans (palloc_only _ pid)).trans
      (palloc_only _ pid)).trans (palloc_only _ pid)
  unfold processConfigTables at h
  obtain ⟨s₁, hs₁⟩ : ∃ s₁, s₁ = (palloc (palloc (palloc (palloc (palloc s pid).1 pid).1 pid).1 pid).1 pid).1 :=
    ⟨_, rfl⟩
  have honly := hfive s₁ hs₁
  -- a failure leaves the slot as it is, whatever pages were taken
  have hfailed : ∀ m info, OnlySlot s { s₁ with mem := m, pageinfo := info } pid
      { s.processes pid with pagetable := (s.processes pid).pagetable } := by
    intro m info
    exact OnlySlot.of_only (honly.trans (OnlyPages.of_update s₁ m info)) pid
  simp only at h
  rw [← hs₁] at h
  split at h
  · rw [← (ok_pair.1 h).1]
    exact ⟨_, hfailed _ _⟩
  · obtain ⟨low, -, h⟩ := bind_eq_ok.1 h
    split at h
    · rw [← (ok_pair.1 h).1]
      exact ⟨_, hfailed _ _⟩
    · obtain ⟨console, -, h⟩ := bind_eq_ok.1 h
      split at h
      · rw [← (ok_pair.1 h).1]
        exact ⟨_, hfailed _ _⟩
      · rw [← (ok_pair.1 h).1]
        refine ⟨(palloc s pid).2, ?_, honly.machine.trans ⟨rfl, rfl, rfl, rfl, rfl⟩⟩
        show Function.update s₁.processes pid _ = _
        rw [honly.processes]

/-! ## Forking -/

/-- A slot that was free has become the child of `parent`. -/
structure ChildMade (s s' : State) (parent child : Nat) : Prop where
  free : (s.processes child).state = .free
  pid : 0 < child ∧ child < NPROC
  slot : ∃ root, OnlySlot s s' child { s.processes child with
    registers := Function.update (s.processes parent).registers .rax 0
    state := .runnable
    pagetable := root
    displayStatus := true }

/-- No child: at most a slot that was free, and still is, differs. -/
structure NoChild (s s' : State) : Prop where
  machine : SameMachine s s'
  states : ∀ j, (s'.processes j).state = (s.processes j).state
  others : ∀ j, (s.processes j).state ≠ .free → s'.processes j = s.processes j

theorem NoChild.of_slot {p : Proc} (h : OnlySlot s s' child p) (hfree : (s.processes child).state = .free)
    (hstate : p.state = .free) : NoChild s s' := by
  have hcases : ∀ j, s'.processes j = s.processes j ∨
      (s.processes j).state = .free ∧ (s'.processes j).state = .free := by
    intro j
    by_cases hj : j = child
    · rw [hj, h.self]
      exact Or.inr ⟨hfree, hstate⟩
    · exact Or.inl (h.other hj)
  refine ⟨h.machine, fun j => ?_, fun j hj => ?_⟩
  · rcases hcases j with hsame | ⟨hbefore, hafter⟩
    · rw [hsame]
    · rw [hbefore, hafter]
  · rcases hcases j with hsame | ⟨hbefore, -⟩
    · exact hsame
    · exact absurd hbefore hj

/-- `process_fork` makes a child or returns -1. The parent is not in a free slot. -/
theorem processFork_cases {r : Int} (hparent : (s.processes parent).state ≠ .free)
    (h : processFork s parent = .ok (s', r)) :
    (∃ child, r = (child : Nat) ∧ ChildMade s s' parent child) ∨ r = -1 ∧ NoChild s s' := by
  rw [processFork] at h
  cases hfind : findFreePid s with
  | none =>
      rw [hfind] at h
      obtain ⟨rfl, rfl⟩ := ok_pair.1 h
      exact Or.inr ⟨rfl, ⟨⟨rfl, rfl, rfl, rfl, rfl⟩, fun _ => rfl, fun _ _ => rfl⟩⟩
  | some child =>
      obtain ⟨hfree, hpid⟩ := findFreePid_some hfind
      have hne : parent ≠ child := fun e => hparent (e ▸ hfree)
      rw [hfind] at h
      obtain ⟨⟨s₁, r₁⟩, hconfig, h⟩ := bind_eq_ok.1 h
      obtain ⟨root, hslot₁⟩ := processConfigTables_slot hconfig
      have hslot := (OnlySlot.setProc s child _).trans hslot₁
      rw [processInit, State.setProc_self] at hslot
      simp only at h
      split at h
      · rename_i hfailed
        obtain ⟨rfl, rfl⟩ := ok_pair.1 h
        exact Or.inr ⟨hfailed, NoChild.of_slot hslot hfree hfree⟩
      · obtain ⟨⟨s₂, b⟩, hcopy, h⟩ := bind_eq_ok.1 h
        have hslot₂ := hslot.trans (forkPages_slot hcopy)
        rw [hslot.self] at hslot₂
        cases b with
        | true =>
            obtain ⟨rfl, rfl⟩ := ok_pair.1 h
            rw [if_pos rfl] at hslot₂
            have hmade := hslot₂.trans (OnlySlot.setProc s₂ child { s₂.processes child with
              registers := Function.update (s₂.processes parent).registers .rax 0
              state := .runnable })
            refine Or.inl ⟨child, rfl, ⟨hfree, hpid, root, ⟨?_, hmade.machine⟩⟩⟩
            -- the parent is another slot, so that its registers are the ones at the call
            have hprocs := hmade.processes
            rw [hslot₂.self, hslot₂.other hne] at hprocs
            show (s₂.setProc child { s₂.processes child with
              registers := Function.update (s₂.processes parent).registers .rax 0
              state := .runnable }).processes = _
            rw [hslot₂.self, hslot₂.other hne]
            exact hprocs
        | false =>
            obtain ⟨rfl, rfl⟩ := ok_pair.1 h
            exact Or.inr ⟨rfl, NoChild.of_slot hslot₂ hfree rfl⟩

/-! ## The break -/

/-- `sbrk` of a process whose break is a positive `int`. -/
theorem sbrk_cases {d : Nat} {r : Int} (hbreak : (s.processes pid).programBreak < 2 ^ 31)
    (h : sbrk s pid d = .ok (s', r)) :
    (BreakAccepted (s.processes pid) d ∧ r = (s.processes pid).programBreak ∧
      OnlySlot s s' pid { s.processes pid with programBreak := newBreak (s.processes pid) d }) ∨
    ¬ BreakAccepted (s.processes pid) d ∧ r = -1 ∧ s' = s := by
  have hint : toInt32 (s.processes pid).programBreak = (s.processes pid).programBreak :=
    toInt32_of_lt (by omega)
  -- the loop changes memory and page counts only
  have hset : ∀ s₁, OnlyPages s s₁ → OnlySlot s (s₁.setProc pid
      { s₁.processes pid with programBreak := newBreak (s.processes pid) d }) pid
      { s.processes pid with programBreak := newBreak (s.processes pid) d } := by
    intro s₁ honly
    have hslot := (OnlySlot.of_only honly pid).trans (OnlySlot.setProc s₁ pid
      { s₁.processes pid with programBreak := newBreak (s.processes pid) d })
    refine ⟨?_, hslot.machine⟩
    rw [hslot.processes, honly.processes]
  rw [sbrk] at h
  by_cases hacc : BreakAccepted (s.processes pid) d
  · rw [if_pos hacc] at h
    refine Or.inl ⟨hacc, ?_⟩
    by_cases hneg : Negative d
    · rw [if_pos hneg] at h
      obtain ⟨s₁, hloop, h⟩ := bind_eq_ok.1 h
      have honly : OnlyPages s s₁ := by
        rw [sbrkLoop_frame hloop]
        exact OnlyPages.of_update s _ _
      rw [← (ok_pair.1 h).1, ← (ok_pair.1 h).2]
      exact ⟨hint, hset s₁ honly⟩
    · rw [if_neg hneg] at h
      rw [← (ok_pair.1 h).1, ← (ok_pair.1 h).2]
      exact ⟨hint, hset s (OnlyPages.refl s)⟩
  · rw [if_neg hacc] at h
    obtain ⟨rfl, rfl⟩ := ok_pair.1 h
    exact Or.inr ⟨hacc, rfl, rfl⟩

/-- `brk` asks `sbrk` for the distance. -/
def breakDistance (p : Proc) (address : Nat) : Nat := (address + 2 ^ 64 - p.programBreak) % 2 ^ 64

theorem brk_cases {a : Nat} {r : Int} (hbreak : (s.processes pid).programBreak < 2 ^ 31) (ha : a < 2 ^ 64)
    (h : brk s pid a = .ok (s', r)) :
    (BreakAccepted (s.processes pid) (breakDistance (s.processes pid) a) ∧ r = 0 ∧
      OnlySlot s s' pid { s.processes pid with programBreak := a }) ∨
    ¬ BreakAccepted (s.processes pid) (breakDistance (s.processes pid) a) ∧ r = -1 ∧ s' = s := by
  rw [brk] at h
  obtain ⟨⟨s₁, r₁⟩, hsbrk, h⟩ := bind_eq_ok.1 h
  obtain ⟨rfl, rfl⟩ := ok_pair.1 h
  have hnew : newBreak (s.processes pid) (breakDistance (s.processes pid) a) = a := by
    simp only [newBreak, breakDistance]
    omega
  rcases sbrk_cases hbreak hsbrk with ⟨hacc, hvalue, hslot⟩ | ⟨hacc, hvalue, hsame⟩
  · refine Or.inl ⟨hacc, ?_, ?_⟩
    · show (if r₁ = -1 then -1 else 0) = 0
      rw [if_neg]
      omega
    · rw [← hnew]
      exact hslot
  · refine Or.inr ⟨hacc, ?_, hsame⟩
    exact if_pos hvalue

/-! ## Traps -/

theorem memshow_view (h : memshowVirtualAnimate s = .ok s') : SameView s s' := by
  obtain ⟨s₁, hs₁⟩ : ∃ s₁ : State, s₁ =
      if s.lastTicks = 0 ∨ 50 ≤ (s.ticks + 2 ^ 32 - s.lastTicks) % 2 ^ 32 then
        { s with lastTicks := s.ticks, showing := s.showing + 1 } else s := ⟨_, rfl⟩
  have hview : SameView s s₁ := by
    rw [hs₁]
    split
    · exact ⟨rfl, rfl, rfl, rfl, rfl, rfl⟩
    · exact SameView.refl s
  obtain ⟨s₂, hs₂⟩ : ∃ s₂ : State, s₂ =
      { s₁ with showing := skipFree s₁.processes (2 * NPROC + 1) s₁.showing % NPROC } := ⟨_, rfl⟩
  have hview₂ : SameView s s₂ := by
    rw [hs₂]
    exact ⟨hview.mem, hview.pageinfo, hview.processes, hview.current, hview.ticks, hview.dispGlobal⟩
  have hcode : memshowVirtualAnimate s = (do
      if (s₂.processes s₂.showing).state ≠ .free ∧ (s₂.processes s₂.showing).displayStatus then
        assert (Showable s₂.mem (s₂.processes s₂.showing).pagetable)
      .ok s₂) := by
    rw [hs₂, hs₁]
    rfl
  rw [hcode] at h
  split at h
  · obtain ⟨-, h⟩ := assert_bind_eq_ok.1 h
    rw [← Except.ok.inj h]
    exact hview₂
  · rw [← Except.ok.inj h]
    exact hview₂

/-- The checks of `exception` change what the memory viewer keeps for itself. -/
theorem checks_view {reg : Registers} (h : checks s reg = .ok s') : SameView s s' := by
  rw [checks] at h
  split at h
  · obtain ⟨⟨⟩, -, h⟩ := bind_eq_ok.1 h
    split at h
    · exact memshow_view h
    · rw [Except.ok.inj h]
      exact SameView.refl s'
  · rw [Except.ok.inj h]
    exact SameView.refl s'

/-- A trap that has been handled: the registers were saved, the case of the switch has run, and the end of
`exception` has picked a process. -/
theorem exception_eq_ok {reg : Registers} {cr2 : Nat} {next : Option Nat}
    (h : exception s reg cr2 = .ok (s', next)) : ∃ s₁ s₂ after, Entered s s₁ reg ∧
      dispatch s₁ reg cr2 = .ok (s₂, after) ∧ resume s₂ after = .ok (s', next) := by
  rw [exception] at h
  obtain ⟨-, -, h⟩ := bind_eq_ok.1 h
  obtain ⟨s₁, hchecks, h⟩ := bind_eq_ok.1 h
  obtain ⟨⟨s₂, after⟩, hdispatch, h⟩ := bind_eq_ok.1 h
  have hview := checks_view hchecks
  refine ⟨s₁, s₂, after, ?_, hdispatch, h⟩
  exact ⟨hview.mem, hview.pageinfo, hview.current, hview.ticks, hview.dispGlobal, hview.processes⟩

theorem run_eq_ok {next : Option Nat} (h : run s pid = .ok (s', next)) :
    (s.processes pid).state = .runnable ∧ next = some pid ∧ s' = { s with current := pid } := by
  rw [run] at h
  obtain ⟨hrun, h⟩ := assert_bind_eq_ok.1 h
  obtain ⟨-, -, h⟩ := bind_eq_ok.1 h
  obtain ⟨rfl, rfl⟩ := ok_pair.1 h
  exact ⟨hrun, rfl, rfl⟩

/-- A call that comes back to a runnable process resumes it at once. -/
theorem resume_back {next : Option Nat} (hrunning : (s.processes s.current).state = .runnable)
    (h : resume s .back = .ok (s', next)) : next = some s.current ∧ s' = { s with current := s.current } := by
  rw [resume, if_pos ⟨rfl, hrunning⟩] at h
  exact (run_eq_ok h).2

/-- Only `current` changes when a process is picked. -/
theorem resume_only {after : After} {next : Option Nat} (h : resume s after = .ok (s', next)) :
    s' = { s with current := s'.current } ∧ ∀ pid, next = some pid →
      s'.current = pid ∧ (s.processes pid).state = .runnable := by
  have hrun : ∀ pid, run s pid = .ok (s', next) → s' = { s with current := s'.current } ∧
      ∀ j, next = some j → s'.current = j ∧ (s.processes j).state = .runnable := by
    intro pid hcode
    obtain ⟨hrunnable, rfl, rfl⟩ := run_eq_ok hcode
    refine ⟨rfl, fun j hj => ?_⟩
    obtain rfl := Option.some.inj hj
    exact ⟨rfl, hrunnable⟩
  rw [resume] at h
  split at h
  · exact hrun _ h
  · rw [schedule] at h
    split at h
    · exact hrun _ h
    · obtain ⟨rfl, rfl⟩ := ok_pair.1 h
      exact ⟨rfl, fun j hj => by cases hj⟩

/-- Who is resumed is current and runs. -/
theorem exception_resumed {reg : Registers} {addr j : Nat} (hcode : exception s reg addr = .ok (s', some j)) :
    s'.current = j ∧ (s'.processes j).state = .runnable := by
  obtain ⟨s₁, s₂, after, -, -, hresume⟩ := exception_eq_ok hcode
  obtain ⟨hs', hrun⟩ := resume_only hresume
  obtain ⟨hcurrent, hrunning⟩ := hrun j rfl
  have hprocs : s'.processes = s₂.processes := by rw [hs']
  rw [hprocs]
  exact ⟨hcurrent, hrunning⟩

end MemoryManagement.Kernel
