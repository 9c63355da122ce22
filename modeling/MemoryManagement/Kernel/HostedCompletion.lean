import MemoryManagement.Kernel.HostedPrograms
import MemoryManagement.Kernel.FreePages
import Mathlib.Order.Interval.Finset.Nat

/-!
# Programs come to their end

A process that keeps the processor brings its program to its end, with the result that the program has on a memory of
its own, when as many pages are left as its heap has in the end (`hosted_program_completes`). Each fault takes one page
from those that are left, and one from those of the heap that have not come in (`Ready`).
-/

set_option autoImplicit false

namespace MemoryManagement.Kernel

open MemoryManagement.Library.ByteMemory
open MemoryManagement.Library.Accesses (Program Within)

/-! ## Breaks -/

theorem grow_le (b n : Nat) : b ≤ (grow b n).1 := by
  rw [grow]
  split
  · exact Nat.le_add_right b n
  · exact Nat.le_refl b

/-- The break at the end of a run is the highest one. -/
theorem run_grow_le {α : Type} {p : Program α} {m : Mem} {b : Nat} {r : α × Mem × Nat}
    (h : Library.Accesses.run grow p m b = some r) : b ≤ r.2.2 := by
  induction p generalizing m b with
  | done a =>
      rw [← Option.some.inj h]
  | stuck => cases h
  | load x next ih => exact ih (m x) h
  | store x v next ih => exact ih h
  | ask n next ih => exact Nat.le_trans (grow_le b n) (ih (grow b n).2 h)

/-! ## Pages that have not come in -/

/-- The pages of a heap from `lo` to `top` that have not come in. -/
def missingPages (s : State) (pid lo top : Nat) : Finset Nat :=
  (Finset.Ico (lo / PAGESIZE) ((top + PAGESIZE - 1) / PAGESIZE)).filter fun i => ¬ s.HasPage pid (PAGESIZE * i)

/-- The process has the processor, and each page of its heap up to `top` has come in or is left. -/
structure Ready (s : State) (pid lo top : Nat) : Prop where
  current : s.current = pid
  running : (s.processes pid).state = .runnable
  separate : ∃ T, Separate s T
  owners : OwnersLive s
  room : (missingPages s pid lo top).card ≤ (pagesLeft s.pageinfo).card

section Pages

variable {s s' : State} {T : Nat → Tables} {pid lo top a : Nat}

theorem missingPages_congr (h : ∀ x, s'.HasPage pid x ↔ s.HasPage pid x) :
    missingPages s' pid lo top = missingPages s pid lo top := by
  apply Finset.filter_congr
  intro i _
  rw [h]

/-- There are no more of them than the heap has pages. -/
theorem card_missingPages_le (s : State) (pid lo top : Nat) :
    (missingPages s pid lo top).card ≤ (top + PAGESIZE - 1) / PAGESIZE - lo / PAGESIZE := by
  rw [← Nat.card_Ico]
  exact Finset.card_filter_le ..

/-- The page of a heap address that has no page. -/
theorem mem_missingPages (hlow : lo ≤ a) (hhigh : a < top) (hm : ¬ s.HasPage pid a) :
    a / PAGESIZE ∈ missingPages s pid lo top := by
  have hpage : page48 (PAGESIZE * (a / PAGESIZE)) = page48 a := by
    simp only [page48, PAGESIZE]
    omega
  rw [missingPages, Finset.mem_filter, Finset.mem_Ico]
  refine ⟨⟨Nat.div_le_div_right hlow, ?_⟩, fun hm' => hm ((Mapped.of_page48 hpage).1 hm')⟩
  simp only [PAGESIZE]
  omega

/-- A page that comes in is no longer missing, and no longer left. -/
theorem PageSupplied.room (h : PageSupplied s s' pid a) (hlow : lo ≤ a) (hhigh : a < top) (hm : ¬ s.HasPage pid a)
    (hroom : (missingPages s pid lo top).card ≤ (pagesLeft s.pageinfo).card) :
    (missingPages s' pid lo top).card ≤ (pagesLeft s'.pageinfo).card := by
  have hmem := mem_missingPages hlow hhigh hm
  have hsub : missingPages s' pid lo top ⊆ (missingPages s pid lo top).erase (a / PAGESIZE) := by
    intro i hi
    rw [missingPages, Finset.mem_filter] at hi
    obtain ⟨hrange, hnot⟩ := hi
    rw [h.pages, not_or] at hnot
    rw [Finset.mem_erase, missingPages, Finset.mem_filter]
    refine ⟨?_, hrange, hnot.2⟩
    rintro rfl
    apply hnot.1
    simp only [page48, PAGESIZE]
    omega
  have hcard := Finset.card_le_card hsub
  rw [Finset.card_erase_of_mem hmem] at hcard
  obtain ⟨pn, hlt, hfree, hinfo⟩ := h.info
  have hleft := pagesLeft_taken hlt hfree hinfo
  omega

end Pages

/-! ## Runs to the end -/

section Completion

variable {α : Type} {s s' : State} {T : Nat → Tables} {pid lo : Nat} {p : Program α} {r : α × Mem × Nat}

/-- What a step of the process keeps, besides the pages that are left for it. -/
theorem Ready.step {top : Nat} (h : Ready s pid lo top) (hsystem : Relation.ReflTransGen SystemStep s s')
    (hcurrent : s'.current = pid) (hrunning : (s'.processes pid).state = .runnable)
    (hroom : (missingPages s' pid lo top).card ≤ (pagesLeft s'.pageinfo).card) : Ready s' pid lo top := by
  obtain ⟨T, hsep⟩ := h.separate
  obtain ⟨hsep', -⟩ := system_simulated.run ⟨T, hsep⟩ hsystem
  exact ⟨hcurrent, hrunning, hsep', (hsep.family.system_run h.owners hsystem).2, hroom⟩

/-- After the fault that there may be, the next access is let through. -/
theorem Agrees.permitted (h : Agrees s pid lo p (some r)) (hready : Ready s pid lo r.2.2) (hlo : PROC_START_ADDR ≤ lo) :
    ∃ s₁, Relation.ReflTransGen (HostStep pid lo) (s, .running p) (s₁, .running p) ∧ Agrees s₁ pid lo p (some r) ∧
      Ready s₁ pid lo r.2.2 ∧ ∀ x, ¬ Denied s₁ pid p x := by
  by_cases hnone : ∀ x, ¬ Denied s pid p x
  · exact ⟨s, Relation.ReflTransGen.refl, h, hready, hnone⟩
  obtain ⟨a, hdenied⟩ := not_forall_not.1 hnone
  obtain ⟨T, hsep⟩ := hready.separate
  have hmissing := h.missing hsep hlo hdenied
  have hbelow : lo ≤ a ∧ a < r.2.2 := by
    obtain ⟨m, b, -, hwithin, hrun⟩ := h
    obtain ⟨hlow, hhigh⟩ := hdenied.heapPart hwithin
    exact ⟨hlow, Nat.lt_of_lt_of_le hhigh (run_grow_le hrun)⟩
  have hfull : s.full = false := by
    have hpos := Finset.card_pos.2 ⟨_, mem_missingPages hbelow.1 hbelow.2 hmissing⟩
    obtain ⟨q, hq⟩ := Finset.card_pos.1 (Nat.lt_of_lt_of_le hpos hready.room)
    rw [Bool.eq_false_iff]
    exact fun hfull => hsep.family.accounted.full_iff.1 hfull ⟨q, mem_pagesLeft.1 hq⟩
  have hcurrent := hready.current
  have hfault := userFault_missing hcurrent (mem_live.1 h.live).1 hready.running hmissing
  obtain ⟨s₁, hcode, hstep, hsupplied, hpermitted⟩ :=
    h.served hsep hready.owners hlo hcurrent hdenied hfull hfault faultRegisters_lt
  obtain ⟨hsystem, h₁⟩ := hstep.sound hsep hlo h
  refine ⟨s₁, Relation.ReflTransGen.single hstep, h₁, ?_, hpermitted⟩
  exact hready.step hsystem hsupplied.current hsupplied.running
    (hsupplied.room hbelow.1 hbelow.2 hmissing hready.room)

/-- A process that keeps the processor brings its program to its end. -/
theorem Agrees.completes (h : Agrees s pid lo p (some r)) (hready : Ready s pid lo r.2.2)
    (hlo : PROC_START_ADDR ≤ lo) :
    ∃ s', Relation.ReflTransGen (HostStep pid lo) (s, .running p) (s', .running (.done r.1)) ∧
      Ready s' pid lo r.2.2 := by
  induction p generalizing s with
  | done a =>
      obtain ⟨m, b, -, -, hrun⟩ := h
      obtain rfl := Option.some.inj hrun
      exact ⟨s, Relation.ReflTransGen.refl, hready⟩
  | stuck =>
      obtain ⟨m, b, -, -, hrun⟩ := h
      cases hrun
  | load x next ih =>
      obtain ⟨s₁, hrun₁, h₁, hready₁, hpermitted⟩ := h.permitted hready hlo
      obtain ⟨T₁, hsep₁⟩ := hready₁.separate
      have hreadable : UserReadable s₁.mem (s₁.processes pid).pagetable x :=
        not_not.1 fun hnot => hpermitted x ⟨rfl, hnot⟩
      have hstep : HostStep pid lo (s₁, .running (.load x next)) (s₁, .running (next (s₁.byteAt pid x))) :=
        HostStep.load hready₁.current hreadable
      obtain ⟨s₂, hrun₂, hready₂⟩ := ih _ (h₁.load hsep₁ hlo hreadable) hready₁
      exact ⟨s₂, (hrun₁.tail hstep).trans hrun₂, hready₂⟩
  | store x v next ih =>
      obtain ⟨s₁, hrun₁, h₁, hready₁, hpermitted⟩ := h.permitted hready hlo
      obtain ⟨T₁, hsep₁⟩ := hready₁.separate
      have hwritable : UserWritable s₁.mem (s₁.processes pid).pagetable x :=
        not_not.1 fun hnot => hpermitted x ⟨rfl, hnot⟩
      have hstep : HostStep pid lo (s₁, .running (.store x v next)) (_, .running next) :=
        HostStep.store hready₁.current hready₁.running hwritable
      obtain ⟨hsystem, hagrees⟩ := hstep.sound hsep₁ hlo h₁
      have hchanges := (h₁.store hsep₁ hlo hwritable rfl).1
      have hready' := hready₁.step hsystem hready₁.current hready₁.running (by
        rw [missingPages_congr (hsep₁.hasPage_changes h₁.live hchanges)]
        exact hready₁.room)
      obtain ⟨s₂, hrun₂, hready₂⟩ := ih hagrees hready'
      exact ⟨s₂, (hrun₁.tail hstep).trans hrun₂, hready₂⟩
  | ask n next ih =>
      obtain ⟨T, hsep⟩ := hready.separate
      have hcurrent := hready.current
      have hrising : Rising n := by
        obtain ⟨m, b, -, ⟨hrising, -⟩, -⟩ := h
        exact hrising
      have hlt : n < 2 ^ 64 := by
        simp only [Rising, Negative] at hrising
        omega
      have hcall : SoftwareInterrupt s (sbrkRegisters n) :=
        sbrk_interrupt (hcurrent ▸ (mem_live.1 h.live).1) (hcurrent ▸ hready.running) hlt
      obtain ⟨s₁, hcode, hstep⟩ := h.asked hsep hready.owners hready.current hcall rfl rfl 0
      obtain ⟨hsystem, h₁⟩ := hstep.sound hsep hlo h
      obtain ⟨hcurrent₁, hrunning₁⟩ := exception_resumed hcode
      obtain ⟨hinfo, hpages⟩ := sbrk_exception_keeps hsep.family rfl hrising hcode
      have hready₁ := hready.step hsystem hcurrent₁ hrunning₁ (by
        rw [missingPages_congr (hpages pid), hinfo]
        exact hready.room)
      obtain ⟨s₂, hrun₂, hready₂⟩ := ih _ h₁ hready₁
      exact ⟨s₂, (Relation.ReflTransGen.single hstep).trans hrun₂, hready₂⟩

end Completion

/-- A program that keeps to its heap and moves its break up only, in a process that `kernel` has set up and among
processes that make contained steps, comes to its end from every point of its run at which the process has the processor,
if as many pages are left as its heap has in the end: the process holds the memory that the program leaves on its own. -/
theorem hosted_program_completes {bytes : Nat → Nat → UInt8} {m₀ : Mem} {command : Option String} {next : Option Nat}
    {s s' : State} (hboot : kernel bytes m₀ command = .ok (s, next)) {pid lo : Nat} (hpid : pid ∈ live s)
    (hlo : lo = (s.processes pid).originalBreak) {α : Type} {p q : Program α}
    (hwithin : Within grow (HeapPart lo) Rising p freshBytes lo) {a : α} {m : Mem} {b : Nat}
    (hresult : Library.Accesses.run grow p freshBytes lo = some (a, m, b))
    (hrun : Relation.ReflTransGen (HostStep pid lo) (s, .running p) (s', .running q)) (hcurrent : s'.current = pid)
    (hrunning : (s'.processes pid).state = .runnable)
    (hroom : (b + PAGESIZE - 1) / PAGESIZE - lo / PAGESIZE ≤ (pagesLeft s'.pageinfo).card) :
    ∃ s'', Relation.ReflTransGen (HostStep pid lo) (s', .running q) (s'', .running (.done a)) ∧
      (s''.slot pid).Holds lo b m := by
  obtain ⟨hstart, ⟨T, hsep⟩, howners, hsound⟩ := hosted_run hboot hpid hlo hwithin hrun
  rw [hresult] at hsound
  have hready : Ready s' pid lo b := by
    exact ⟨hcurrent, hrunning, ⟨T, hsep⟩, howners, Nat.le_trans (card_missingPages_le ..) hroom⟩
  obtain ⟨s'', hrun', hready'⟩ := Agrees.completes hsound hready hstart
  obtain ⟨-, m', b', hholds, -, hdone⟩ := HostStep.run_sound hrun' hsep hstart hsound
  have hpair := Option.some.inj hdone
  obtain ⟨rfl, rfl⟩ : m' = m ∧ b' = b := ⟨congrArg (fun r => r.2.1) hpair, congrArg (fun r => r.2.2) hpair⟩
  exact ⟨s'', hrun', hholds⟩

/-- After booting some pages are left. -/
theorem Fresh.left {s : State} {T : Nat → Tables} (h : Fresh s T) : 4 ≤ (pagesLeft s.pageinfo).card := by
  have hsub : ({19, 20, 21, 22} : Finset Nat) ⊆ pagesLeft s.pageinfo := by
    intro q hq
    have hrange : 19 ≤ q ∧ q < 64 := by
      simp only [Finset.mem_insert, Finset.mem_singleton] at hq
      omega
    exact mem_pagesLeft.2 ⟨by omega, h.free q hrange.1 (ordinary_of_lt (by omega) hrange.2)⟩
  exact Finset.card_le_card hsub

/-- The first process takes eight bytes, stores a seven and loads it again. -/
theorem hosted_program_completes_first : ∃ s s' lo m b, kernel (fun _ _ => 0) (fun _ => 0) none = .ok (s, some 1) ∧
    Relation.ReflTransGen (HostStep 1 lo) (s, .running oneByte) (s', .running (.done (some 7))) ∧
    (s'.slot 1).Holds lo b m := by
  obtain ⟨s, T, hkernel, hfresh, hone, -⟩ := kernel_one
  have hpid : 1 ∈ live s := hfresh.booted.first
  obtain ⟨lo, hlo⟩ : ∃ lo, lo = (s.processes 1).originalBreak := ⟨_, rfl⟩
  have hbreaks := hfresh.booted.isolated.breaks 1 hpid
  have hlimit : lo < MEMSIZE_VIRTUAL - PAGESIZE := hlo ▸ Nat.lt_of_le_of_lt hbreaks.ordered hbreaks.limit
  have haligned : lo % PAGESIZE = 0 := hlo ▸ (kernel_heap hkernel 1 hpid).aligned
  have hresult := run_oneByte (fits_of_aligned haligned hlimit)
  have hroom : (lo + 8 + PAGESIZE - 1) / PAGESIZE - lo / PAGESIZE ≤ (pagesLeft s.pageinfo).card := by
    have hleft := hfresh.left
    simp only [PAGESIZE] at haligned ⊢
    omega
  obtain ⟨s', hrun, hholds⟩ := hosted_program_completes hkernel hpid hlo (within_oneByte hlimit) hresult
    Relation.ReflTransGen.refl hfresh.booted.current (hfresh.booted.runnable 1 hpid) hroom
  exact ⟨s, s', lo, _, _, hkernel, hrun, hholds⟩

end MemoryManagement.Kernel
