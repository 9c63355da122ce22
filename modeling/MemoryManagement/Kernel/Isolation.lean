import MemoryManagement.Kernel.Checks
import MemoryManagement.Kernel.Supply

/-!
# Isolated processes

The page accounting of processes that share nothing (`Isolated`): every ordinary page in use belongs to
the one process that uses it, and uses it once. `process_setup` makes such processes, and without `fork`
and `sys_page_alloc` they stay that way. A heap page that is supplied, a page that is given up and a
process that ends each have a lemma here.
-/

set_option autoImplicit false

namespace MemoryManagement.Kernel

open MemoryManagement.Library.ByteMemory
open MemoryManagement.Library.RefCount

/-- The processes that are not free have the page tables `T`, the page counts are right, and a page in
use has one user, its owner. -/
structure Isolated (s : State) (T : Nat → Tables) : Prop where
  accounted : Accounted s (live s) T ∅
  owner : ∀ q, Ordinary q → (s.pageinfo q).refcount ≠ 0 →
    ∃ j ∈ live s, (s.pageinfo q).owner = (j : Nat) ∧ ∀ k ∈ live s, k ≠ j → uses s.mem (T k) q = 0
  breaks : ∀ pid ∈ live s, BreakBounds (s.processes pid)

/-- Of the pages in use, only the new one has other references than before. -/
theorem Supplied.uses_same {s s' : State} {A : Finset Nat} {T : Nat → Tables}
    {pid i pn q : Nat} (h : Supplied s s' A T pid i pn) (hacc : Accounted s A T ∅) (hpid : pid ∈ A)
    (hq : Ordinary q) (hne : q ≠ pn) : uses s'.mem (T pid) q = uses s.mem (T pid) q := by
  have hchange : refs s'.mem A T ∅ q + uses s.mem (T pid) q = refs s.mem A T ∅ q + uses s'.mem (T pid) q :=
    refs_change hpid fun j hj hjp => h.uses_other hj hjp q
  have hnew := h.accounted.counted q hq
  have hold := hacc.counted q hq
  rw [h.info, Function.update_of_ne hne] at hnew
  omega

namespace Isolated

section Pages

variable {s : State} {T : Nat → Tables} (h : Isolated s T)
include h

theorem ownersLive : OwnersLive s := by
  intro q hq hcount
  obtain ⟨j, hj, howner, -⟩ := h.owner q hq hcount
  exact ⟨j, hj, howner⟩

/-- The owner of a page has all its references. -/
theorem refcount_eq {q : Nat} (hq : Ordinary q) (hcount : (s.pageinfo q).refcount ≠ 0) :
    ∃ j ∈ live s, (s.pageinfo q).owner = (j : Nat) ∧
      (s.pageinfo q).refcount = (uses s.mem (T j) q : Nat) ∧
      ∀ k ∈ live s, k ≠ j → uses s.mem (T k) q = 0 := by
  obtain ⟨j, hj, howner, hothers⟩ := h.owner q hq hcount
  refine ⟨j, hj, howner, ?_, hothers⟩
  have hone : refs s.mem (live s) T ∅ q = uses s.mem (T j) q :=
    count_of_alone (u := fun pid => uses s.mem (T pid)) hj hothers (Finset.notMem_empty q)
  rw [h.accounted.counted q hq, hone]

/-- A page that a process uses has that use as its only reference. -/
theorem info_of_uses {pid q : Nat} (hpid : pid ∈ live s) (huse : 0 < uses s.mem (T pid) q) :
    s.pageinfo q = ⟨pid, 1⟩ := by
  have hspace := h.accounted.space pid hpid
  have hq := hspace.ordinary_of_uses huse
  have hcount := h.accounted.counted q hq
  have hle : uses s.mem (T pid) q ≤ refs s.mem (live s) T ∅ q := uses_le_refs hpid
  obtain ⟨j, hj, howner, hrefs, hothers⟩ := h.refcount_eq hq (by omega)
  have hjp : j = pid := by
    by_contra hne
    have := hothers pid hpid (Ne.symm hne)
    omega
  subst hjp
  by_cases htable : PAGESIZE * q ∈ (T j).pages
  · -- a page of the page table
    have hinfo := h.accounted.tables j hj _ htable
    rwa [Nat.mul_div_cancel_left q (by decide : 0 < PAGESIZE)] at hinfo
  · have hone := hspace.references_le_one q
    have huses : uses s.mem (T j) q = 1 := by
      rw [uses, if_neg htable] at huse ⊢
      omega
    calc s.pageinfo q = ⟨(s.pageinfo q).owner, (s.pageinfo q).refcount⟩ := rfl
      _ = ⟨j, 1⟩ := by rw [howner, hrefs, huses, Nat.cast_one]

/-- The states of processes, their page tables and their breaks are all that matters of them. -/
theorem of_processes {s' : State} (hmem : s'.mem = s.mem) (hinfo : s'.pageinfo = s.pageinfo)
    (hstate : ∀ pid, pid < NPROC → ((s'.processes pid).state = .free ↔ (s.processes pid).state = .free))
    (hroot : ∀ pid, (s'.processes pid).pagetable = (s.processes pid).pagetable)
    (hbreaks : ∀ pid ∈ live s, BreakBounds (s'.processes pid)) : Isolated s' T := by
  have hlive := live_congr hstate
  constructor
  · rw [hlive]
    exact h.accounted.of_eq hmem hinfo fun pid _ => hroot pid
  · rw [hlive, hinfo, hmem]
    exact h.owner
  · rw [hlive]
    exact hbreaks

end Pages

/-! ## A page is supplied -/

section Supply

variable {s s' : State} {T : Nat → Tables} {pid i pn : Nat}

/-- A fresh page in the heap of a process. -/
theorem supplied (h : Isolated s T) (hpid : pid ∈ live s) (hs : Supplied s s' (live s) T pid i pn) :
    Isolated s' T := by
  have hprocesses := hs.only.processes
  have hlive : live s' = live s := live_congr fun j _ => by rw [hprocesses]
  have hinfo := hs.info
  constructor
  · rw [hlive]
    exact hs.accounted
  · rw [hlive]
    intro q hq hcount
    by_cases hqn : q = pn
    · subst hqn
      -- the page was free, so that nobody else uses it
      obtain ⟨hunused, -⟩ := h.accounted.unused hq (by rw [hs.wasFree])
      refine ⟨pid, hpid, ?_, fun k hk hne => ?_⟩
      · rw [hinfo, Function.update_self]
      · rw [hs.uses_other hk hne]
        exact hunused k hk
    · rw [hinfo, Function.update_of_ne hqn] at hcount ⊢
      obtain ⟨j, hj, howner, hothers⟩ := h.owner q hq hcount
      refine ⟨j, hj, howner, fun k hk hne => ?_⟩
      by_cases hkp : k = pid
      · subst hkp
        rw [hs.uses_same h.accounted hk hq hqn]
        exact hothers k hk hne
      · rw [hs.uses_other hk hkp]
        exact hothers k hk hne
  · rw [hlive, hprocesses]
    exact h.breaks

end Supply

/-! ## A process ends -/

section Exit

variable {s : State} {T : Nat → Tables} {pid : Nat}

theorem live_released (U : Tables) : live (released s U pid) = (live s).erase pid := by
  ext j
  rw [mem_live, Finset.mem_erase, mem_live]
  by_cases hj : j = pid
  · subst hj
    simp [released]
  · have hproc : (released s U pid).processes j = s.processes j := State.setProc_other s _ hj
    rw [hproc]
    simp [hj]

/-- All pages of a process that ends are free again, the others stay as they are. -/
theorem releasedInfo_eq (h : Isolated s T) (hpid : pid ∈ live s) (q : Nat) :
    releasedInfo s (T pid) q = if 0 < uses s.mem (T pid) q then ⟨PO_FREE, 0⟩ else s.pageinfo q := by
  rw [releasedInfo]
  split
  · rename_i htable
    rw [if_pos]
    rw [uses, if_pos htable]
    omega
  · rename_i htable
    have huses : uses s.mem (T pid) q = references s.mem (T pid).l1 userPages q := by
      rw [uses, if_neg htable, Nat.add_zero]
    rw [huses]
    split
    · rename_i hpos
      rw [h.info_of_uses hpid (by omega)]
      rfl
    · rfl

theorem exit (h : Isolated s T) (hpid : pid ∈ live s) : Isolated (released s (T pid) pid) T := by
  have hlive : live (released s (T pid) pid) = (live s).erase pid := live_released (T pid)
  constructor
  · rw [hlive]
    exact h.accounted.leave hpid
  · rw [hlive]
    intro q hq hcount
    replace hcount : (releasedInfo s (T pid) q).refcount ≠ 0 := hcount
    show ∃ j ∈ (live s).erase pid, (releasedInfo s (T pid) q).owner = (j : Nat) ∧
      ∀ k ∈ (live s).erase pid, k ≠ j → uses s.mem (T k) q = 0
    rw [h.releasedInfo_eq hpid] at hcount ⊢
    split at hcount
    · exact absurd rfl hcount
    · rename_i hunused
      rw [if_neg hunused]
      obtain ⟨j, hj, howner, hrefs, hothers⟩ := h.refcount_eq hq hcount
      have hne : j ≠ pid := by
        rintro rfl
        omega
      exact ⟨j, Finset.mem_erase.2 ⟨hne, hj⟩, howner, fun k hk => hothers k (Finset.mem_erase.1 hk).2⟩
  · rw [hlive]
    intro j hj
    obtain ⟨hne, hj⟩ := Finset.mem_erase.1 hj
    have hproc : (released s (T pid) pid).processes j = s.processes j := State.setProc_other s _ hne
    rw [hproc]
    exact h.breaks j hj

end Exit

end Isolated

end MemoryManagement.Kernel
