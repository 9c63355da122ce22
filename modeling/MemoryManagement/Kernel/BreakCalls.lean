import MemoryManagement.Kernel.Break

/-!
# Break arithmetic

`sbrk` and `brk` compute the new break modulo `2 ^ 64` from signed and unsigned values and pass it on
through an `int`. `break_arithmetic` compares them with the integers: exactly the legal breaks are
accepted, the values returned are right, a refused call changes nothing, and the bounds of the breaks
hold after any sequence of calls.
-/

set_option autoImplicit false

namespace MemoryManagement.Kernel

/-- The breaks that a process may ask for. -/
def LegalBreak (p : Proc) (target : Int) : Prop :=
  p.originalBreak ≤ target ∧ target < (MEMSIZE_VIRTUAL - PAGESIZE : Nat)

/-- The answer to a request for the break `target`: a legal one is set, and the call returns `value`;
any other is refused with -1 and changes nothing. Moving the break down touches the page table, which
then has to be in order for the call to return. -/
def Answered (s : State) (pid : Nat) (target value : Int) (outcome : Outcome (State × Int)) : Prop :=
  (LegalBreak (s.processes pid) target →
    ((s.processes pid).programBreak ≤ target ∨ TableOk s.mem (s.processes pid).pagetable →
      ∃ r, outcome = .ok r) ∧
    ∀ r, outcome = .ok r → r.2 = value ∧ r.1.processes = Function.update s.processes pid
      { s.processes pid with programBreak := target.toNat }) ∧
  (¬ LegalBreak (s.processes pid) target → outcome = .ok (s, -1))

/-- A call that moves the break. -/
inductive BreakCall where
  | sbrk (difference : Int)
  | brk (address : Nat)

/-- Arguments are 64-bit values. -/
def BreakCall.Valid : BreakCall → Prop
  | .sbrk difference => -2 ^ 63 ≤ difference ∧ difference < 2 ^ 63
  | .brk address => address < 2 ^ 64

/-- The break that a call asks for. -/
def BreakCall.target (p : Proc) : BreakCall → Int
  | .sbrk difference => p.programBreak + difference
  | .brk address => address

/-- The call made by the process `pid`. -/
def BreakCall.run (s : State) (pid : Nat) : BreakCall → Outcome (State × Int)
  | .sbrk difference => Kernel.sbrk s pid (signExtend difference)
  | .brk address => Kernel.brk s pid address

/-- Calls made by the process `pid`, one after the other. -/
def runBreakCalls (pid : Nat) : State → List BreakCall → Outcome State
  | s, [] => .ok s
  | s, c :: cs => do
      let r ← c.run s pid
      runBreakCalls pid r.1 cs

section Arithmetic

variable {s : State} {pid : Nat}

theorem signExtend_lt (x : Int) : signExtend x < 2 ^ 64 := by
  simp only [signExtend]
  omega

theorem signExtend_natCast {n : Nat} (h : n < 2 ^ 64) : signExtend n = n := by
  rw [signExtend, Int.toNat_emod (Int.natCast_nonneg n) (by decide), Int.toNat_natCast]
  exact Nat.mod_eq_of_lt h

/-- No wrapped sum is accepted. -/
theorem breakAccepted_iff (hb : BreakBounds (s.processes pid)) {d : Int} (hlow : -2 ^ 63 ≤ d)
    (hhigh : d < 2 ^ 63) :
    BreakAccepted (s.processes pid) (signExtend d) ↔
      LegalBreak (s.processes pid) ((s.processes pid).programBreak + d) := by
  have hlimit := hb.limit
  simp only [MEMSIZE_VIRTUAL, PAGESIZE] at hlimit
  simp only [BreakAccepted, LegalBreak, newBreak, signExtend, MEMSIZE_VIRTUAL, PAGESIZE]
  omega

theorem newBreak_eq (hb : BreakBounds (s.processes pid)) {d : Int} (hlow : -2 ^ 63 ≤ d)
    (hhigh : d < 2 ^ 63) (hlegal : LegalBreak (s.processes pid) ((s.processes pid).programBreak + d)) :
    newBreak (s.processes pid) (signExtend d) = ((s.processes pid).programBreak + d).toNat := by
  have hlimit := hb.limit
  obtain ⟨h1, h2⟩ := hlegal
  simp only [MEMSIZE_VIRTUAL, PAGESIZE] at hlimit h2
  simp only [newBreak, signExtend]
  omega

theorem sbrk_answered (hb : BreakBounds (s.processes pid)) {d : Int} (hlow : -2 ^ 63 ≤ d)
    (hhigh : d < 2 ^ 63) :
    Answered s pid ((s.processes pid).programBreak + d) (s.processes pid).programBreak
      (sbrk s pid (signExtend d)) := by
  constructor
  · intro hlegal
    have hacc := (breakAccepted_iff hb hlow hhigh).2 hlegal
    refine ⟨?_, fun r hr => ?_⟩
    · rintro hok
      by_cases hneg : Negative (signExtend d)
      · have htable : TableOk s.mem (s.processes pid).pagetable := by
          rcases hok with hup | htable
          · -- a positive difference has its sign bit clear
            simp only [Negative, signExtend] at hneg
            omega
          · exact htable
        exact ⟨_, sbrk_shrink hb (signExtend_lt d) htable hacc hneg⟩
      · exact ⟨_, sbrk_grow hb.limit hacc hneg⟩
    · obtain ⟨hvalue, hproc⟩ := sbrk_accepted hb hacc hr
      rw [newBreak_eq hb hlow hhigh hlegal] at hproc
      exact ⟨hvalue, hproc⟩
  · intro hillegal
    exact sbrk_refused fun hacc => hillegal ((breakAccepted_iff hb hlow hhigh).1 hacc)

theorem newBreak_brk (p : Proc) {a : Nat} (ha : a < 2 ^ 64) (hp : p.programBreak < 2 ^ 64) :
    newBreak p ((a + 2 ^ 64 - p.programBreak) % 2 ^ 64) = a := by
  simp only [newBreak]
  omega

/-- `brk` to an address is `sbrk` by the distance to it. -/
theorem brk_eq (hb : BreakBounds (s.processes pid)) {a : Nat} :
    (a + 2 ^ 64 - (s.processes pid).programBreak) % 2 ^ 64 =
      signExtend (a - (s.processes pid).programBreak) := by
  have hlimit := hb.limit
  simp only [MEMSIZE_VIRTUAL, PAGESIZE] at hlimit
  simp only [signExtend]
  omega

theorem brk_answered (hb : BreakBounds (s.processes pid)) {a : Nat} (ha : a < 2 ^ 64) :
    Answered s pid a 0 (brk s pid a) := by
  have hlimit := hb.limit
  simp only [MEMSIZE_VIRTUAL, PAGESIZE] at hlimit
  have hnew := newBreak_brk (s.processes pid) ha (by omega)
  have hiff : BreakAccepted (s.processes pid)
      ((a + 2 ^ 64 - (s.processes pid).programBreak) % 2 ^ 64) ↔ LegalBreak (s.processes pid) a := by
    rw [BreakAccepted, hnew, LegalBreak]
    omega
  generalize hd : (a + 2 ^ 64 - (s.processes pid).programBreak) % 2 ^ 64 = d at hnew hiff
  have hdlt : d < 2 ^ 64 := by omega
  -- the old break, which `sbrk` returns, is never -1
  have hvalue : ∀ r : State × Int, r.2 = (s.processes pid).programBreak →
      (if r.2 = -1 then (-1 : Int) else 0) = 0 := by
    intro r hr
    rw [hr]
    exact if_neg (by omega)
  rw [brk, hd]
  constructor
  · intro hlegal
    have hacc := hiff.2 hlegal
    refine ⟨?_, fun r hr => ?_⟩
    · rintro hok
      by_cases hneg : Negative d
      · have htable : TableOk s.mem (s.processes pid).pagetable := by
          rcases hok with hup | htable
          · simp only [Negative] at hneg
            have hlt := newBreak_lt hb.limit hdlt hneg hacc
            omega
          · exact htable
        rw [sbrk_shrink hb hdlt htable hacc hneg]
        exact ⟨_, rfl⟩
      · rw [sbrk_grow hb.limit hacc hneg]
        exact ⟨_, rfl⟩
    · cases hsbrk : sbrk s pid d with
      | error e =>
          rw [hsbrk] at hr
          cases hr
      | ok t =>
          rw [hsbrk] at hr
          obtain ⟨hval, hproc⟩ := sbrk_accepted hb hacc hsbrk
          rw [← Except.ok.inj hr]
          refine ⟨hvalue t hval, ?_⟩
          rw [hnew] at hproc
          exact hproc
  · intro hillegal
    rw [sbrk_refused fun hacc => hillegal (hiff.1 hacc)]
    rfl

/-- One call: the break asked for is set or the call is refused. -/
theorem BreakCall.answered (hb : BreakBounds (s.processes pid)) {c : BreakCall} (hc : c.Valid) :
    ∃ value, Answered s pid (c.target (s.processes pid)) value (c.run s pid) := by
  cases c with
  | sbrk d => exact ⟨_, sbrk_answered hb hc.1 hc.2⟩
  | brk a => exact ⟨_, brk_answered hb hc⟩

/-- The bounds after a call that returns. -/
theorem BreakCall.bounds (hb : BreakBounds (s.processes pid)) {c : BreakCall} (hc : c.Valid)
    {r : State × Int} (hr : c.run s pid = .ok r) : BreakBounds (r.1.processes pid) := by
  obtain ⟨value, hlegal, hillegal⟩ := BreakCall.answered hb hc
  by_cases h : LegalBreak (s.processes pid) (c.target (s.processes pid))
  · obtain ⟨-, hproc⟩ := (hlegal h).2 r hr
    obtain ⟨h1, h2⟩ := h
    rw [hproc, Function.update_self]
    constructor
    · exact hb.start
    · show (s.processes pid).originalBreak ≤ (c.target (s.processes pid)).toNat
      omega
    · show (c.target (s.processes pid)).toNat < MEMSIZE_VIRTUAL - PAGESIZE
      omega
  · rw [hillegal h] at hr
    rw [← Except.ok.inj hr]
    exact hb

/-- On a well-formed page table every call returns and leaves the table well formed. -/
theorem sbrk_table (hb : BreakBounds (s.processes pid))
    (htable : TableOk s.mem (s.processes pid).pagetable) {d : Nat} (hd : d < 2 ^ 64) :
    ∃ r, sbrk s pid d = .ok r ∧ TableOk r.1.mem (r.1.processes pid).pagetable := by
  have hroot : ∀ new, ((s.setProc pid
      { s.processes pid with programBreak := new }).processes pid).pagetable =
        (s.processes pid).pagetable := by
    intro new
    rw [State.setProc_self]
  by_cases hacc : BreakAccepted (s.processes pid) d
  · by_cases hneg : Negative d
    · refine ⟨_, sbrk_shrink hb hd htable hacc hneg, ?_⟩
      have hhides := htable.hidePages (givenUp (s.processes pid) d)
      show TableOk (hidePages s.mem _ _) ((s.setProc pid _).processes pid).pagetable
      rw [hroot]
      exact hhides.ok
    · refine ⟨_, sbrk_grow hb.limit hacc hneg, ?_⟩
      show TableOk s.mem ((s.setProc pid _).processes pid).pagetable
      rw [hroot]
      exact htable
  · exact ⟨_, sbrk_refused hacc, htable⟩

theorem BreakCall.returns (hb : BreakBounds (s.processes pid))
    (htable : TableOk s.mem (s.processes pid).pagetable) (c : BreakCall) :
    ∃ r, c.run s pid = .ok r ∧ TableOk r.1.mem (r.1.processes pid).pagetable := by
  cases c with
  | sbrk d => exact sbrk_table hb htable (signExtend_lt d)
  | brk a =>
      obtain ⟨r, hr, hok⟩ := sbrk_table hb htable
        (Nat.mod_lt (a + 2 ^ 64 - (s.processes pid).programBreak) (by decide : 0 < 2 ^ 64))
      refine ⟨(r.1, if r.2 = -1 then -1 else 0), ?_, hok⟩
      rw [BreakCall.run, Kernel.brk, hr]
      rfl

end Arithmetic

theorem runBreakCalls_returns {pid : Nat} {s : State} (hb : BreakBounds (s.processes pid))
    (htable : TableOk s.mem (s.processes pid).pagetable) {cs : List BreakCall}
    (hcs : ∀ c ∈ cs, c.Valid) : ∃ s', runBreakCalls pid s cs = .ok s' := by
  induction cs generalizing s with
  | nil => exact ⟨s, rfl⟩
  | cons c cs ih =>
      obtain ⟨r, hr, hok⟩ := BreakCall.returns hb htable c
      have hb' := BreakCall.bounds hb (hcs c (List.mem_cons_self ..)) hr
      obtain ⟨s', hs'⟩ := ih hb' hok fun c' hc' => hcs c' (List.mem_cons_of_mem _ hc')
      refine ⟨s', ?_⟩
      rw [runBreakCalls, hr]
      exact hs'

theorem runBreakCalls_bounds {pid : Nat} {s s' : State} (hb : BreakBounds (s.processes pid))
    {cs : List BreakCall} (hcs : ∀ c ∈ cs, c.Valid) (h : runBreakCalls pid s cs = .ok s') :
    BreakBounds (s'.processes pid) := by
  induction cs generalizing s with
  | nil =>
      rw [← Except.ok.inj h]
      exact hb
  | cons c cs ih =>
      rw [runBreakCalls] at h
      cases hr : c.run s pid with
      | error e =>
          rw [hr] at h
          cases h
      | ok r =>
          rw [hr] at h
          exact ih (BreakCall.bounds hb (hcs c (List.mem_cons_self ..)) hr)
            (fun c' hc' => hcs c' (List.mem_cons_of_mem _ hc')) h

/-- `sbrk` and `brk` accept exactly the legal breaks, over the integers; `brk` to an address has the
effect of `sbrk` by the distance to it; and the bounds hold after any sequence of calls. -/
theorem break_arithmetic {s : State} {pid : Nat} (hb : BreakBounds (s.processes pid)) :
    (∀ d : Int, -2 ^ 63 ≤ d → d < 2 ^ 63 →
      Answered s pid ((s.processes pid).programBreak + d) (s.processes pid).programBreak
        (sbrk s pid (signExtend d))) ∧
    (∀ a : Nat, a < 2 ^ 64 → Answered s pid a 0 (brk s pid a) ∧
      (brk s pid a).map Prod.fst =
        (sbrk s pid (signExtend (a - (s.processes pid).programBreak))).map Prod.fst) ∧
    ∀ cs, (∀ c ∈ cs, BreakCall.Valid c) →
      (TableOk s.mem (s.processes pid).pagetable → ∃ s', runBreakCalls pid s cs = .ok s') ∧
      ∀ s', runBreakCalls pid s cs = .ok s' → BreakBounds (s'.processes pid) := by
  refine ⟨?_, ?_, ?_⟩
  · intro d hlow hhigh
    exact sbrk_answered hb hlow hhigh
  · intro a ha
    refine ⟨brk_answered hb ha, ?_⟩
    rw [brk, brk_eq hb]
    cases sbrk s pid (signExtend (a - (s.processes pid).programBreak)) with
    | error e => rfl
    | ok r => rfl
  · intro cs hcs
    exact ⟨fun htable => runBreakCalls_returns hb htable hcs,
      fun s' h => runBreakCalls_bounds hb hcs h⟩

/-- A process without a heap of its own yet, at the first address that a program may have. -/
def freshProc : Proc := ⟨0x101000, 0x101000, fun _ => 0, .runnable, 0x1000, true⟩

/-- A machine with one such process. -/
def freshState : State :=
  ⟨fun _ => 0, fun _ => ⟨PO_FREE, 0⟩, fun _ => freshProc, 1, 0, false, 0, 0⟩

/-- Growing by a page succeeds, growing by the whole address space does not. -/
theorem break_arithmetic_fresh :
    (∃ s', sbrk freshState 1 (signExtend 4096) = .ok (s', 0x101000) ∧
      (s'.processes 1).programBreak = 0x102000) ∧
    sbrk freshState 1 (signExtend (2 ^ 63 - 1)) = .ok (freshState, -1) := by
  have hb : BreakBounds (freshState.processes 1) := ⟨by decide, by decide, by decide⟩
  have key := (break_arithmetic hb).1
  constructor
  · obtain ⟨hreturns, hanswer⟩ := (key 4096 (by decide) (by decide)).1 ⟨by decide, by decide⟩
    -- the break goes up, so the page table does not matter
    obtain ⟨⟨s', value⟩, hcode⟩ := hreturns (Or.inl (by decide))
    obtain ⟨hvalue, hproc⟩ := hanswer _ hcode
    refine ⟨s', ?_, ?_⟩
    · rw [hcode, show value = 0x101000 from hvalue]
    · rw [hproc, Function.update_self]
      rfl
  · apply (key (2 ^ 63 - 1) (by decide) (by decide)).2
    rintro ⟨-, hhigh⟩
    exact absurd hhigh (by decide)

end MemoryManagement.Kernel
