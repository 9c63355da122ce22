import MemoryManagement.Kernel.HostedCompletion
import MemoryManagement.Malloc.Calls
import MemoryManagement.Malloc.Correctness
import MemoryManagement.Malloc.Placement

/-!
# The allocator in a process of the kernel

The allocator with the `sbrk` and the pages of the kernel. The allocator is right whatever `sbrk` answers, so the
answers that the kernel gives are among those it is right for (`exists_answers`). A process that makes legal calls
from boot on then holds, after each of them, a heap with an invariant layout, although pages come in one by one,
other processes run in between and calls of `sbrk` may be refused (`allocator_hosted`).
-/

set_option autoImplicit false

namespace MemoryManagement.Kernel

open MemoryManagement.Library.ByteMemory
open MemoryManagement.Library.Accesses (Program Within)
open MemoryManagement.Malloc (Session)
open MemoryManagement.Malloc.Code (Globals InHeap Growth CopyFits)

/-! ## The answers of the kernel -/

/-- With the answers of the kernel, the `sbrk` of the allocator is the kernel's. -/
theorem sbrk_eq_grow {b n : Nat} {g : Nat → Bool} {requests : List Nat} (hn : Growth n)
    (hg : g requests.length = decide (b + n < MEMSIZE_VIRTUAL - PAGESIZE)) :
    Malloc.sbrk ⟨b, g, requests⟩ n = (⟨(grow b n).1, g, n :: requests⟩, (grow b n).2) := by
  have hsigned : Malloc.toInt64 n = n := if_pos hn
  by_cases hfits : b + n < MEMSIZE_VIRTUAL - PAGESIZE
  · rw [decide_eq_true hfits] at hg
    have hroom : (0 : Int) ≤ b + n ∧ (b + n : Int) < 2 ^ 64 := by
      simp only [MEMSIZE_VIRTUAL, PAGESIZE] at hfits
      omega
    simp only [Malloc.sbrk, hsigned, grow]
    rw [if_pos ⟨hg, hroom⟩, if_pos hfits]
    rfl
  · rw [decide_eq_false hfits] at hg
    simp only [Malloc.sbrk, grow]
    rw [if_neg hfits, if_neg (fun h => by rw [hg] at h; cases h.1)]

section Answers

variable {α : Type} {lo : Nat}

/-- A program that stays in its heap whatever `sbrk` answers does so with the kernel's answers, and what it comes to
is what it comes to with some answers. -/
theorem exists_answers {p : Program α} {m : Mem} {b : Nat} {requests : List Nat} {g₀ : Nat → Bool}
    (hstays : ∀ g : Nat → Bool, (∀ i, i < requests.length → g i = g₀ i) →
      Within Malloc.sbrk (InHeap lo) Growth p m ⟨b, g, requests⟩) :
    Within grow (HeapPart lo) Rising p m b ∧ ∃ g : Nat → Bool, (∀ i, i < requests.length → g i = g₀ i) ∧
      Library.Accesses.run grow p m b =
        (Library.Accesses.run Malloc.sbrk p m ⟨b, g, requests⟩).map fun r => (r.1, r.2.1, r.2.2.current) := by
  induction p generalizing m b requests g₀ with
  | done a => exact ⟨trivial, g₀, fun _ _ => rfl, rfl⟩
  | stuck => exact ⟨trivial, g₀, fun _ _ => rfl, rfl⟩
  | load x next ih =>
      obtain ⟨hwithin, g, hg, hrun⟩ := ih (m x) fun g hg => (hstays g hg).2
      exact ⟨⟨(hstays g₀ fun _ _ => rfl).1, hwithin⟩, g, hg, hrun⟩
  | store x v next ih =>
      obtain ⟨hwithin, g, hg, hrun⟩ := ih fun g hg => (hstays g hg).2
      exact ⟨⟨(hstays g₀ fun _ _ => rfl).1, hwithin⟩, g, hg, hrun⟩
  | ask n next ih =>
      have hn : Growth n := (hstays g₀ fun _ _ => rfl).1
      -- the next answer is the kernel's
      obtain ⟨g₁, hg₁⟩ : ∃ g₁, g₁ = Function.update g₀ requests.length
          (decide (b + n < MEMSIZE_VIRTUAL - PAGESIZE)) := ⟨_, rfl⟩
      have hself : g₁ requests.length = decide (b + n < MEMSIZE_VIRTUAL - PAGESIZE) := by
        rw [hg₁, Function.update_self]
      have hold : ∀ i, i < requests.length → g₁ i = g₀ i := by
        intro i hi
        rw [hg₁, Function.update_of_ne (Nat.ne_of_lt hi)]
      have hnext : ∀ g : Nat → Bool, (∀ i, i < (n :: requests).length → g i = g₁ i) →
          Within Malloc.sbrk (InHeap lo) Growth (next (grow b n).2) m ⟨(grow b n).1, g, n :: requests⟩ := by
        intro g hg
        have hgrow := sbrk_eq_grow hn ((hg requests.length (Nat.lt_succ_self _)).trans hself)
        have hrest := (hstays g fun i hi => (hg i (Nat.lt_succ_of_lt hi)).trans (hold i hi)).2
        rw [hgrow] at hrest
        exact hrest
      obtain ⟨hwithin, g, hg, hrun⟩ := ih (grow b n).2 hnext
      refine ⟨⟨?_, hwithin⟩, g, fun i hi => (hg i (Nat.lt_succ_of_lt hi)).trans (hold i hi), ?_⟩
      · simp only [Growth] at hn
        simp only [Rising]
        omega
      · have hgrow := sbrk_eq_grow hn ((hg requests.length (Nat.lt_succ_self _)).trans hself)
        rw [Library.Accesses.run, Library.Accesses.run, hgrow]
        exact hrun

end Answers

/-! ## Sessions in a process -/

section Sessions

variable {st : Session} {a : Malloc.Layout} {lo : Nat} {c : Malloc.Call}

/-- Which answers `sbrk` has for later makes no difference to an invariant layout. -/
theorem inv_answers {g : Globals} {m : Mem} {b : Nat} {requests : List Nat} {live : List (Nat × Nat)}
    {g₀ : Nat → Bool} (h : Session.Inv lo ⟨g.heap m ⟨b, g₀, requests⟩, live⟩ a) (g₁ : Nat → Bool) :
    Session.Inv lo ⟨g.heap m ⟨b, g₁, requests⟩, live⟩ { a with brk := ⟨b, g₁, requests⟩ } := by
  have hbrk : (⟨b, g₀, requests⟩ : Malloc.Break) = a.brk := h.rep.brk
  have hcurrent : a.brk.current = b := by rw [← hbrk]
  have hinv := h.inv
  have htiled := hinv.tiled
  have hlt := hinv.brk_lt
  rw [hcurrent] at htiled hlt
  constructor
  · exact ⟨h.rep.freeList, h.rep.allocList, h.rep.freeSize, h.rep.allocSize, h.rep.allocBytes, rfl⟩
  · exact ⟨hinv.base_pos, hinv.base_aligned, hlt, htiled, hinv.block, hinv.fits, hinv.freeSorted, hinv.allocSorted⟩
  · exact h.live
  · exact h.distinct

/-- A proper call with the `sbrk` of the kernel: it stays in the heap and does what the call does to the session, for
some answers of `sbrk`. -/
theorem call_grow {g : Globals} {m : Mem} {brk : Malloc.Break} {live : List (Nat × Nat)}
    (h : Session.Inv lo ⟨g.heap m brk, live⟩ a) (hlow : brk.current < MEMSIZE_VIRTUAL) (hproper : c.Proper live)
    (hcopy : CopyFits m brk.current c) :
    Within grow (HeapPart lo) Rising (Malloc.Code.call g live c) m brk.current ∧
    ∃ g₁ st', Session.step ⟨g.heap m ⟨brk.current, g₁, brk.requests⟩, live⟩ c = some st' ∧
      Session.Inv.After lo ⟨g.heap m brk, live⟩ c st' ∧
      Library.Accesses.run grow (Malloc.Code.call g live c) m brk.current =
        some ((Malloc.Code.globals st'.heap, st'.live), st'.heap.mem, st'.heap.brk.current) := by
  obtain ⟨b, g₀, requests⟩ := brk
  have hlegal' : ∀ g₁ : Nat → Bool, Session.Legal ⟨g.heap m ⟨b, g₁, requests⟩, live⟩ c := fun g₁ =>
    Session.legal_of_proper (inv_answers h g₁) (Nat.lt_trans hlow (by decide)) hproper
  have hstays : ∀ g₁ : Nat → Bool, (∀ i, i < requests.length → g₁ i = g₀ i) →
      Within Malloc.sbrk (InHeap lo) Growth (Malloc.Code.call g live c) m ⟨b, g₁, requests⟩ :=
    fun g₁ _ => Malloc.Code.stays_call (inv_answers h g₁) (hlegal' g₁)
      (Malloc.Code.CopyFits.ends (inv_answers h g₁) (hlegal' g₁) hcopy)
  obtain ⟨hwithin, g₁, -, hrun⟩ := exists_answers hstays
  obtain ⟨st', hstep, hafter⟩ := (inv_answers h g₁).step (hlegal' g₁)
  refine ⟨hwithin, g₁, st', hstep, ⟨hafter.inv, hafter.kept⟩, ?_⟩
  have hcall := Malloc.Code.run_call ⟨g.heap m ⟨b, g₁, requests⟩, live⟩ c
  rw [hstep] at hcall
  rw [hrun]
  exact congrArg (Option.map _) hcall

end Sessions

/-! ## A process that allocates -/

/-- The globals before the first call. -/
def noBlocks : Globals := ⟨⟨NULL, NULL, 0⟩, ⟨NULL, NULL, 0⟩⟩

/-- The process `pid` has made proper calls since `s₀`, one after the other, and has the globals `g` and the live
allocations `live`. What `realloc` copies has ended before the break. -/
inductive Working (pid lo : Nat) (s₀ : State) : State → Globals → List (Nat × Nat) → Prop where
  | start : Working pid lo s₀ s₀ noBlocks []
  | call {s s' : State} {g g' : Globals} {live live' : List (Nat × Nat)} {c : Malloc.Call}
      (h : Working pid lo s₀ s g live) (hproper : c.Proper live)
      (hcopy : ∀ m b, (s.slot pid).Holds lo b m → CopyFits m b c)
      (hrun : Relation.ReflTransGen (HostStep pid lo) (s, .running (Malloc.Code.call g live c))
        (s', .running (.done (g', live')))) : Working pid lo s₀ s' g' live'

/-- The process holds the heap of a session. -/
def HoldsSession (s : State) (pid lo : Nat) (g : Globals) (live : List (Nat × Nat)) (m : Mem) (b : Nat) : Prop :=
  (s.slot pid).Holds lo b m ∧ ∃ brk a, brk.current = b ∧ Session.Inv lo ⟨g.heap m brk, live⟩ a

section Process

variable {s s' : State} {T : Nat → Tables} {pid lo : Nat} {g g' : Globals} {live live' : List (Nat × Nat)}
  {c : Malloc.Call} {m : Mem} {b : Nat}

/-- The break of the heap is the kernel's. -/
theorem HoldsSession.limit (h : HoldsSession s pid lo g live m b) (hsep : Separate s T) :
    b < MEMSIZE_VIRTUAL - PAGESIZE := by
  have hbelow := hsep.family.limit pid
  rwa [h.1.cells.2.1] at hbelow

/-- A process that holds the heap of a session and begins a proper call agrees with the session. -/
theorem HoldsSession.agrees (h : HoldsSession s pid lo g live m b) (hsep : Separate s T) (hproper : c.Proper live)
    (hcopy : CopyFits m b c) : ∃ brk st', brk.current = b ∧
      Session.Inv.After lo ⟨g.heap m brk, live⟩ c st' ∧ Agrees s pid lo (Malloc.Code.call g live c)
        (some ((Malloc.Code.globals st'.heap, st'.live), st'.heap.mem, st'.heap.brk.current)) := by
  have hlimit := h.limit hsep
  obtain ⟨hholds, brk, a, rfl, hinv⟩ := h
  obtain ⟨hwithin, -, st', -, hafter, hrun⟩ := call_grow hinv (Nat.lt_of_lt_of_le hlimit (Nat.sub_le ..)) hproper hcopy
  exact ⟨brk, st', rfl, hafter, m, brk.current, hholds, hwithin, hrun⟩

/-- A call that has come to its end: the process holds the heap of the session after it, and the allocations that it
spares are as they were. -/
theorem HoldsSession.called (h : HoldsSession s pid lo g live m b) (hsep : Separate s T) (hlo : PROC_START_ADDR ≤ lo)
    (hproper : c.Proper live) (hcopy : CopyFits m b c)
    (hrun : Relation.ReflTransGen (HostStep pid lo) (s, .running (Malloc.Code.call g live c))
      (s', .running (.done (g', live')))) :
    Relation.ReflTransGen SystemStep s s' ∧ ∃ m' b', HoldsSession s' pid lo g' live' m' b' ∧
      ∀ e ∈ live, c.Spares e → e ∈ live' ∧ Malloc.Undisturbed m m' e := by
  obtain ⟨brk, st', -, hafter, hagrees⟩ := h.agrees hsep hproper hcopy
  obtain ⟨hsystem, m', b', hholds, -, hdone⟩ := HostStep.run_sound hrun hsep hlo hagrees
  obtain ⟨hresult, hmem, hbreak⟩ : (g', live') = (Malloc.Code.globals st'.heap, st'.live) ∧ m' = st'.heap.mem ∧
      b' = st'.heap.brk.current := by
    have hpair := Option.some.inj hdone
    exact ⟨congrArg Prod.fst hpair, congrArg (fun r => r.2.1) hpair, congrArg (fun r => r.2.2) hpair⟩
  obtain ⟨rfl, rfl⟩ := Prod.mk.inj hresult
  obtain ⟨a', hinv⟩ := hafter.inv
  refine ⟨hsystem, m', b', ⟨hholds, st'.heap.brk, a', hbreak.symm, ?_⟩, ?_⟩
  · rw [hmem]
    exact hinv
  · rw [hmem]
    exact hafter.kept

/-- The allocator does not get stuck. -/
theorem Agrees.not_stuck {α : Type} {r : α × Mem × Nat} (h : Agrees s pid lo (.stuck : Program α) (some r)) : False := by
  obtain ⟨m, b, -, -, hrun⟩ := h
  cases hrun

/-- A process that has made legal calls holds the heap of a session. -/
theorem Working.holds {s₀ : State} (h : Working pid lo s₀ s g live) (hsep : Separate s₀ T)
    (hlo : PROC_START_ADDR ≤ lo) (hstart : HoldsSession s₀ pid lo noBlocks [] freshBytes lo) :
    Relation.ReflTransGen SystemStep s₀ s ∧ ∃ m b, HoldsSession s pid lo g live m b := by
  induction h with
  | start => exact ⟨Relation.ReflTransGen.refl, freshBytes, lo, hstart⟩
  | call _ hproper hcopy hrun ih =>
      obtain ⟨hsystem, m, b, hholds⟩ := ih
      obtain ⟨T₁, hsep₁⟩ := (system_simulated.run ⟨T, hsep⟩ hsystem).1
      obtain ⟨hsystem', m', b', hholds', -⟩ := hholds.called hsep₁ hlo hproper (hcopy m b hholds.1) hrun
      exact ⟨hsystem.trans hsystem', m', b', hholds'⟩

end Process

/-- A heap can start at the break of a process that `kernel` has set up. -/
theorem HeapEmpty.heapStart {s : State} {pid : Nat} (h : HeapEmpty s pid) (hbreaks : BreakBounds (s.processes pid))
    (answers : Nat → Bool) : Malloc.HeapStart ⟨(s.processes pid).originalBreak, answers, []⟩ := by
  have hstart := h.start
  have haligned := h.aligned
  have hlimit := Nat.lt_of_le_of_lt hbreaks.ordered hbreaks.limit
  simp only [PROC_START_ADDR, PAGESIZE, MEMSIZE_VIRTUAL] at hstart haligned hlimit
  constructor
  · show (s.processes pid).originalBreak ≠ 0
    omega
  · show (s.processes pid).originalBreak % 8 = 0
    omega
  · show (s.processes pid).originalBreak < 2 ^ 64
    omega

/-- The heap of a process that `kernel` has set up is that of an allocator before its first call. -/
theorem HeapEmpty.holdsSession {s : State} {pid : Nat} (h : HeapEmpty s pid) (hpid : pid ∈ live s)
    (hbreaks : BreakBounds (s.processes pid)) :
    HoldsSession s pid (s.processes pid).originalBreak noBlocks [] freshBytes (s.processes pid).originalBreak :=
  ⟨h.holds hpid, _, _, rfl, Session.Inv.init (h.heapStart hbreaks fun _ => false) freshBytes⟩

/-- A process that `kernel` has set up and that makes legal calls of the allocator, with the `sbrk` and the pages of
the kernel, while the other processes make contained steps: after each call the blocks partition its heap and the live
allocations are payloads of them. A call leaves the allocations alone that it spares, does not get stuck, and is killed
only when no page is left. -/
theorem allocator_hosted {bytes : Nat → Nat → UInt8} {m₀ : Mem} {command : Option String} {next : Option Nat}
    {s s' : State} (hboot : kernel bytes m₀ command = .ok (s, next)) {pid lo : Nat} (hpid : pid ∈ live s)
    (hlo : lo = (s.processes pid).originalBreak) {g : Globals} {blocks : List (Nat × Nat)}
    (h : Working pid lo s s' g blocks) :
    ∃ m b, (s'.slot pid).Holds lo b m ∧ b < MEMSIZE_VIRTUAL - PAGESIZE ∧
      (∃ brk fs as, brk.current = b ∧ Malloc.Partition lo ⟨g.heap m brk, blocks⟩ fs as) ∧
      ∀ c : Malloc.Call, c.Proper blocks → CopyFits m b c →
        (∀ s'' g' blocks', Relation.ReflTransGen (HostStep pid lo) (s', .running (Malloc.Code.call g blocks c))
            (s'', .running (.done (g', blocks'))) →
          ∃ m' b', (s''.slot pid).Holds lo b' m' ∧
            ∀ e ∈ blocks, c.Spares e → e ∈ blocks' ∧ Malloc.Undisturbed m m' e) ∧
        ∀ s'' st, Relation.ReflTransGen (HostStep pid lo) (s', .running (Malloc.Code.call g blocks c)) (s'', st) →
          st ≠ .running .stuck ∧ ∀ s₁, HostStep pid lo (s'', st) (s₁, .killed) → s''.full = true := by
  obtain ⟨T, hbooted⟩ := booted_of_kernel hboot
  have hempty := kernel_heap hboot pid hpid
  have hstart := hempty.start
  have hsession := hempty.holdsSession hpid (hbooted.isolated.breaks pid hpid)
  rw [← hlo] at hstart hsession
  obtain ⟨hsystem, m, b, hholds⟩ := h.holds hbooted.separate hstart hsession
  obtain ⟨T', hsep⟩ := (system_simulated.run ⟨T, hbooted.separate⟩ hsystem).1
  have hslot := hholds.1
  obtain ⟨brk, a, hbrk, hinv⟩ := hholds.2
  refine ⟨m, b, hslot, hholds.limit hsep, ⟨brk, _, _, hbrk, hinv.partition⟩, fun c hproper hcopy => ⟨?_, ?_⟩⟩
  · intro s'' g' blocks' hrun
    obtain ⟨-, m', b', hholds', hkept⟩ := hholds.called hsep hstart hproper hcopy hrun
    exact ⟨m', b', hholds'.1, hkept⟩
  · intro s'' st hrun
    obtain ⟨-, st', -, -, hagrees⟩ := hholds.agrees hsep hproper hcopy
    obtain ⟨hsystem', hsound⟩ := HostStep.run_sound hrun hsep hstart hagrees
    obtain ⟨T'', hsep'⟩ := (system_simulated.run ⟨T', hsep⟩ hsystem').1
    refine ⟨?_, fun s₁ hstep => hstep.killed_full hsep' hstart hsound⟩
    rintro rfl
    exact Agrees.not_stuck hsound

/-- The first request takes at most one chunk. -/
theorem first_malloc_break {m : Mem} {brk : Malloc.Break} {st : Session} (hbrk : Malloc.HeapStart brk)
    (hstep : Session.step (Session.start m brk) (.malloc 24) = some st) :
    st.heap.brk.current ≤ brk.current + 16384 := by
  have hinv := Session.Inv.init hbrk m
  have hsmall : 24 < 2 ^ 62 := by decide
  obtain ⟨s', fresh, hcode, -, e⟩ := hinv.rep.malloc_effect hinv.inv (Malloc.Layout.servable_of_lt _ hsmall)
  rw [Session.step, hcode] at hstep
  obtain rfl := Option.some.inj hstep
  have hchunk : Malloc.chunk 24 = 16384 := by decide +kernel
  have hmoved : (Malloc.sbrk brk (Malloc.chunk 24)).1.current ≤ brk.current + 16384 := by
    rw [hchunk]
    rcases Malloc.sbrk_cases brk (by decide : 0 < 16384) (by decide) with ⟨-, hsame⟩ | ⟨-, hup, -⟩
    · omega
    · omega
  show s'.brk.current ≤ _
  rw [e.rep.brk, Malloc.Layout.malloc_grow (by decide) rfl]
  split
  · exact hmoved
  · unfold Malloc.Layout.carve
    split
    · exact hmoved
    · exact hmoved

/-- The first process has called `malloc(24)`. -/
theorem allocator_hosted_first : ∃ s s' lo g blocks m b, kernel (fun _ _ => 0) (fun _ => 0) none = .ok (s, some 1) ∧
    Relation.ReflTransGen (HostStep 1 lo) (s, .running (Malloc.Code.call noBlocks [] (.malloc 24)))
      (s', .running (.done (g, blocks))) ∧
    (s'.slot 1).Holds lo b m ∧
    ∃ brk fs as, brk.current = b ∧ Malloc.Partition lo ⟨g.heap m brk, blocks⟩ fs as := by
  obtain ⟨s, T, hkernel, hfresh, hone, -⟩ := kernel_one
  have hpid : 1 ∈ live s := hfresh.booted.first
  obtain ⟨lo, hlo⟩ : ∃ lo, lo = (s.processes 1).originalBreak := ⟨_, rfl⟩
  have hempty := kernel_heap hkernel 1 hpid
  have hholds := hempty.holds hpid
  have hstart := hempty.start
  have haligned := hempty.aligned
  have hbrk := hempty.heapStart (hfresh.booted.isolated.breaks 1 hpid) fun _ => false
  rw [← hlo] at hholds hstart haligned hbrk
  have hinv : Session.Inv lo ⟨noBlocks.heap freshBytes ⟨lo, fun _ => false, []⟩, []⟩ _ :=
    Session.Inv.init hbrk freshBytes
  have hproper : Malloc.Call.Proper [] (.malloc 24) := (by decide : 24 < 2 ^ 62)
  have hbreaks := hfresh.booted.isolated.breaks 1 hpid
  have hlow : lo < MEMSIZE_VIRTUAL := by
    have hordered := hbreaks.ordered
    have hlimit := hbreaks.limit
    omega
  obtain ⟨hwithin, g₁, st, hstep, -, hresult⟩ := call_grow hinv hlow hproper trivial
  have hbrk₁ : Malloc.HeapStart ⟨lo, g₁, []⟩ := ⟨hbrk.nonnull, hbrk.aligned, hbrk.lt⟩
  have hbound : st.heap.brk.current ≤ lo + 16384 := first_malloc_break (m := freshBytes) hbrk₁ hstep
  have hagrees : Agrees s 1 lo (Malloc.Code.call noBlocks [] (.malloc 24)) (some _) :=
    ⟨freshBytes, lo, hholds, hwithin, hresult⟩
  have hready : Ready s 1 lo st.heap.brk.current := by
    refine ⟨hfresh.booted.current, hfresh.booted.runnable 1 hpid, ⟨T, hfresh.booted.separate⟩,
      hfresh.booted.isolated.ownersLive, Nat.le_trans (card_missingPages_le ..) ?_⟩
    have hleft := hfresh.left
    simp only [PAGESIZE] at haligned hbound ⊢
    omega
  obtain ⟨s', hrun, -⟩ := hagrees.completes hready hstart
  have hworking : Working 1 lo s s' _ _ := Working.start.call hproper (fun _ _ _ => trivial) hrun
  obtain ⟨m, b, hholds', -, hpartition, -⟩ := allocator_hosted hkernel hpid hlo hworking
  exact ⟨s, s', lo, _, _, m, b, hkernel, hrun, hholds', hpartition⟩

end MemoryManagement.Kernel
