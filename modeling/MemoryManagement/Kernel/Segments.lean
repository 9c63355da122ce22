import MemoryManagement.Kernel.Loading
import MemoryManagement.Kernel.Startup
import Mathlib.Order.Bounds.Basic

/-!
# The segments of a program

`loadSegments` loads the segments of a program one after the other; with enough free pages it succeeds
(`loadSegments_spec`). Each segment sets the break behind itself, so that the break ends up behind the
last segment in the table, which is above the whole program exactly when that segment is the highest
(`initial_break_iff`).
-/

set_option autoImplicit false

namespace MemoryManagement.Kernel

open MemoryManagement.Library.ByteMemory
open MemoryManagement.Library.RefCount

/-! ## The break -/

/-- The headers that are loaded. -/
def loads (programs : List ElfProgram) : List ElfProgram :=
  programs.filter fun ph => ph.pType = ELF_PTYPE_LOAD

theorem loads_cons_of_load {ph : ElfProgram} (h : ph.pType = ELF_PTYPE_LOAD) (rest : List ElfProgram) :
    loads (ph :: rest) = ph :: loads rest :=
  List.filter_cons_of_pos (decide_eq_true h)

theorem loads_cons_of_other {ph : ElfProgram} (h : ph.pType ≠ ELF_PTYPE_LOAD) (rest : List ElfProgram) :
    loads (ph :: rest) = loads rest :=
  List.filter_cons_of_neg fun e => h (of_decide_eq_true e)

/-- `ROUNDUP(end_mem, PAGESIZE)`. -/
def ElfProgram.breakAfter (ph : ElfProgram) : Nat := roundUpPage ph.endMem

theorem roundUpPage_mod (a : Nat) : roundUpPage a % PAGESIZE = 0 := by
  simp only [roundUpPage, roundDownPage, PAGESIZE]
  omega

theorem ElfProgram.Fits.le_breakAfter {ph : ElfProgram} (h : ph.Fits) :
    ph.pVa + ph.pMemsz ≤ ph.breakAfter := by
  have hlimit := h.limit
  simp only [MEMSIZE_VIRTUAL] at hlimit
  rw [ElfProgram.breakAfter, h.endMem_eq]
  simp only [roundUpPage, roundDownPage, PAGESIZE]
  omega

section Break

variable {s s' : State} {pid : Nat} {ph : ElfProgram}

/-- `palloc` leaves the processes alone. -/
theorem palloc_processes (s : State) (pid : Nat) : (palloc s pid).1.processes = s.processes := by
  unfold palloc
  cases findFreePage s.pageinfo with
  | none => rfl
  | some pn => rfl

theorem loadPages_processes {endMem fuel addr : Nat} {b : Bool}
    (h : loadPages pid endMem fuel s addr = .ok (s', b)) : s'.processes = s.processes := by
  induction fuel generalizing s addr with
  | zero => cases h
  | succ fuel ih =>
      rw [loadPages] at h
      split at h
      · simp only at h
        split at h
        · rw [← (ok_pair.1 h).1]
          exact palloc_processes s pid
        · obtain ⟨map, -, h⟩ := bind_eq_ok.1 h
          split at h
          · rw [← (ok_pair.1 h).1]
            exact palloc_processes s pid
          · exact (ih h).trans (palloc_processes s pid)
      · rw [(ok_pair.1 h).1]

/-- A segment that has been loaded has set the break. -/
theorem programLoadSegment_processes {src : Nat → UInt8}
    (h : programLoadSegment s pid ph src = .ok (s', true)) :
    s'.processes = Function.update s.processes pid { s.processes pid with
      originalBreak := ph.breakAfter, programBreak := ph.breakAfter } := by
  obtain ⟨s₁, copied, filled, mem, hrun, rfl⟩ := programLoadSegment_eq_ok.1 h
  have hproc := loadPages_processes hrun.pages
  show Function.update s₁.processes pid _ = _
  rw [hproc]
  rfl

theorem loadSegments_cons_of_load {image : RamImage} (hload : ph.pType = ELF_PTYPE_LOAD)
    (rest : List ElfProgram) : loadSegments pid image (ph :: rest) s = (do
      let next ← programLoadSegment s pid ph fun k => image.bytes (ph.pOffset + k)
      if next.2 then loadSegments pid image rest next.1 else .ok next) := by
  rw [loadSegments, if_pos hload]

/-- Headers of other types are skipped. -/
theorem loadSegments_cons_of_other {image : RamImage} (hload : ph.pType ≠ ELF_PTYPE_LOAD)
    (rest : List ElfProgram) : loadSegments pid image (ph :: rest) s = loadSegments pid image rest s := by
  rw [loadSegments, if_neg hload]
  rfl

/-- After a program the break is where its last segment has put it. -/
theorem loadSegments_break {image : RamImage} {programs : List ElfProgram}
    (h : loadSegments pid image programs s = .ok (s', true)) :
    (∀ j, j ≠ pid → s'.processes j = s.processes j) ∧
    s'.processes pid = match (loads programs).getLast? with
      | none => s.processes pid
      | some ph => { s.processes pid with originalBreak := ph.breakAfter, programBreak := ph.breakAfter } := by
  induction programs generalizing s with
  | nil =>
      rw [← (ok_pair.1 h).1]
      exact ⟨fun _ _ => rfl, rfl⟩
  | cons ph rest ih =>
      by_cases hload : ph.pType = ELF_PTYPE_LOAD
      · rw [loadSegments_cons_of_load hload, bind_eq_ok] at h
        obtain ⟨⟨s₁, b⟩, hfirst, h⟩ := h
        cases b with
        | false => cases (ok_pair.1 h).2
        | true =>
            simp only [if_true] at h
            obtain ⟨hothers, hself⟩ := ih h
            have hproc := programLoadSegment_processes hfirst
            constructor
            · intro j hj
              rw [hothers j hj, hproc, Function.update_of_ne hj]
            · rw [hself, hproc, Function.update_self, loads_cons_of_load hload, List.getLast?_cons]
              -- a later segment overwrites the break of this one
              cases (loads rest).getLast? with
              | none => rfl
              | some last => rfl
      · rw [loadSegments_cons_of_other hload] at h
        rw [loads_cons_of_other hload]
        exact ih h

end Break

/-! ## Success -/

/-- The pages of the segment, its partly used first and last page included. -/
def ElfProgram.Covers (ph : ElfProgram) (a : Nat) : Prop :=
  ph.firstPage ≤ page48 a ∧ page48 a < ph.firstPage + ph.pageCount

/-- Two segments on different pages. -/
def PagesApart (ph ph' : ElfProgram) : Prop :=
  ph.firstPage + ph.pageCount ≤ ph'.firstPage ∨ ph'.firstPage + ph'.pageCount ≤ ph.firstPage

instance (ph ph' : ElfProgram) : Decidable (PagesApart ph ph') := inferInstanceAs (Decidable (_ ∨ _))

/-- How many pages the segments of a program take. -/
def pagesOf (programs : List ElfProgram) : Nat := ((loads programs).map ElfProgram.pageCount).sum

/-- The segments of a program have been loaded on pages that were not mapped. -/
structure SegmentsLoaded (s s' : State) (A : Finset Nat) (T : Nat → Tables) (pid : Nat)
    (programs : List ElfProgram) : Prop where
  accounted : Accounted s' A T ∅
  machine : SameMachine s s'
  inside : ∀ ph ∈ loads programs, ∀ a, ph.Covers a →
    (virtualMemoryLookup s'.mem (T pid).l1 a).perm = ph.perm
  outside : ∀ a, (∀ ph ∈ loads programs, ¬ ph.Covers a) →
    virtualMemoryLookup s'.mem (T pid).l1 a = virtualMemoryLookup s.mem (T pid).l1 a
  others : ∀ j ∈ A, j ≠ pid → ∀ a,
    virtualMemoryLookup s'.mem (T j).l1 a = virtualMemoryLookup s.mem (T j).l1 a
  taking : Taking s s' pid

namespace SegmentsLoaded

variable {s s₁ s' : State} {A : Finset Nat} {T : Nat → Tables} {pid : Nat} {ph : ElfProgram}
  {rest : List ElfProgram}

theorem nil (h : Accounted s A T ∅) (pid : Nat) : SegmentsLoaded s s A T pid [] := by
  constructor
  · exact h
  · exact ⟨rfl, rfl, rfl, rfl, rfl⟩
  · intro ph hph
    cases hph
  · exact fun _ _ => rfl
  · exact fun _ _ _ _ => rfl
  · exact fun _ => Or.inl rfl

/-- A segment, and then those behind it, on other pages. -/
theorem cons (hload : ph.pType = ELF_PTYPE_LOAD) (hseg : SegmentLoaded s s₁ A T pid ph)
    (h : SegmentsLoaded s₁ s' A T pid rest) (hfirst : ∀ q ∈ loads rest, PagesApart ph q) :
    SegmentsLoaded s s' A T pid (ph :: rest) := by
  have hloads := loads_cons_of_load hload rest
  constructor
  · exact h.accounted
  · exact hseg.machine.trans h.machine
  · intro q hq a ha
    rw [hloads] at hq
    rcases List.mem_cons.1 hq with rfl | hq
    · rw [h.outside]
      · exact hseg.inside a ha.1 ha.2
      · -- the later segments do not meet this one
        rintro q' hq' ⟨hlow, hhigh⟩
        obtain ⟨hlow', hhigh'⟩ := ha
        rcases hfirst q' hq' with hbelow | habove
        · omega
        · omega
    · exact h.inside q hq a ha
  · intro a hout
    rw [hloads] at hout
    rw [h.outside a fun q hq => hout q (List.mem_cons_of_mem ph hq)]
    exact hseg.outside a (hout ph List.mem_cons_self)
  · intro j hj hne a
    exact (h.others j hj hne a).trans (hseg.others j hj hne a)
  · exact hseg.taking.trans h.taking

/-- An entry that is not to be loaded is passed over. -/
theorem pass (hload : ph.pType ≠ ELF_PTYPE_LOAD) (h : SegmentsLoaded s s' A T pid rest) :
    SegmentsLoaded s s' A T pid (ph :: rest) := by
  have hloads := loads_cons_of_other hload rest
  refine ⟨h.accounted, h.machine, ?_, ?_, h.others, h.taking⟩
  · rw [hloads]
    exact h.inside
  · rw [hloads]
    exact h.outside

end SegmentsLoaded

/-- With enough free pages a program is loaded. -/
theorem Accounted.loadSegments_spec {s : State} {A : Finset Nat} {T : Nat → Tables}
    (h : Accounted s A T ∅) {pid : Nat} (hpid : pid ∈ A) (image : RamImage) {programs : List ElfProgram}
    (hfit : ∀ ph ∈ loads programs, ph.Fits) (hapart : (loads programs).Pairwise PagesApart)
    (hunmapped : ∀ ph ∈ loads programs, ∀ i, ph.firstPage ≤ i → i < ph.firstPage + ph.pageCount →
      ¬ Mapped s.mem (T pid).l1 (PAGESIZE * i))
    {k : Nat} (hk : 0 < k) (hpages : k + pagesOf programs ≤ 0x40) (hfree : FreeFrom k s.pageinfo) :
    ∃ s', loadSegments pid image programs s = .ok (s', true) ∧
      SegmentsLoaded s s' A T pid programs ∧ FreeFrom (k + pagesOf programs) s'.pageinfo := by
  induction programs generalizing s k with
  | nil =>
      exact ⟨s, rfl, SegmentsLoaded.nil h pid, hfree⟩
  | cons ph rest ih =>
      by_cases hload : ph.pType = ELF_PTYPE_LOAD
      · have hloads := loads_cons_of_load hload rest
        rw [hloads] at hfit hapart hunmapped
        obtain ⟨hfirst, hrest⟩ := List.pairwise_cons.1 hapart
        have hmem : ph ∈ ph :: loads rest := List.mem_cons_self
        have htail : ∀ q, q ∈ loads rest → q ∈ ph :: loads rest := fun q hq => List.mem_cons_of_mem ph hq
        have hcount : pagesOf (ph :: rest) = ph.pageCount + pagesOf rest := by
          rw [pagesOf, hloads, List.map_cons, List.sum_cons, ← pagesOf]
        rw [hcount] at hpages ⊢
        obtain ⟨s₁, b, hcode, hloaded, henough⟩ := h.programLoadSegment_spec hpid (hfit ph hmem)
          (fun j => image.bytes (ph.pOffset + j)) (hunmapped ph hmem)
        obtain ⟨rfl, hfree₁⟩ := henough k hk (by omega) hfree
        have hseg := hloaded rfl
        -- the segments that are left are on other pages
        have hleft : ∀ q ∈ loads rest, ∀ i, q.firstPage ≤ i → i < q.firstPage + q.pageCount →
            ¬ Mapped s₁.mem (T pid).l1 (PAGESIZE * i) := by
          intro q hq i hlow hhigh
          have hpage := page48_page (i := i) (by
            have := (hfit q (htail q hq)).pages_le
            omega)
          rw [Mapped, hseg.outside]
          · exact hunmapped q (htail q hq) i hlow hhigh
          · rw [hpage]
            rcases hfirst q hq with hbelow | habove
            · omega
            · omega
        obtain ⟨s', hrun, hall, hfree'⟩ := ih hseg.accounted (fun q hq => hfit q (htail q hq)) hrest hleft
          (by omega) (by omega) hfree₁
        refine ⟨s', ?_, SegmentsLoaded.cons hload hseg hall hfirst, ?_⟩
        · rw [loadSegments_cons_of_load hload, bind_eq_ok]
          exact ⟨(s₁, true), hcode, hrun⟩
        · rw [← Nat.add_assoc]
          exact hfree'
      · have hloads := loads_cons_of_other hload rest
        have hcount : pagesOf (ph :: rest) = pagesOf rest := by rw [pagesOf, hloads, ← pagesOf]
        rw [hloads] at hfit hapart hunmapped
        rw [hcount] at hpages ⊢
        obtain ⟨s', hrun, hall, hfree'⟩ := ih h hfit hapart hunmapped hk hpages hfree
        refine ⟨s', ?_, SegmentsLoaded.pass hload hall, hfree'⟩
        rw [loadSegments_cons_of_other hload]
        exact hrun

/-! ## Above the whole program -/

/-- The break of a process is above all segments of its program, and no higher than that. -/
structure BreakAbove (p : Proc) (segments : List ElfProgram) : Prop where
  same : p.originalBreak = p.programBreak
  aligned : p.programBreak % PAGESIZE = 0
  greatest : IsGreatest {b | ∃ ph ∈ segments, ph.breakAfter = b} p.programBreak
  -- no page of a segment is in the heap
  clear : ∀ ph ∈ segments, ∀ a, a < ph.pVa + ph.pMemsz → a < p.originalBreak

/-- The segments are all that can fail. -/
theorem processLoad_eq_ok {s s' : State} {pid : Nat} {image : RamImage} :
    processLoad s pid image = .ok (s', true) ↔ image.eMagic = ELF_MAGIC ∧ ∃ s₁,
      loadSegments pid image image.programs s = .ok (s₁, true) ∧
      s' = s₁.setProc pid { s₁.processes pid with
        registers := Function.update (s₁.processes pid).registers .rip image.eEntry } := by
  unfold processLoad
  rw [assert_bind_eq_ok, bind_eq_ok]
  constructor
  · rintro ⟨hmagic, ⟨s₁, b⟩, hload, h⟩
    cases b with
    | false => cases (ok_pair.1 h).2
    | true =>
        simp only [if_true] at h
        exact ⟨hmagic, s₁, hload, (ok_pair.1 h).1.symm⟩
  · rintro ⟨hmagic, s₁, hload, rfl⟩
    exact ⟨hmagic, (s₁, true), hload, rfl⟩

/-- A program that fits can be loaded as the first process. -/
theorem exists_loaded (image : RamImage) (hmagic : image.eMagic = ELF_MAGIC)
    (hfit : ∀ ph ∈ loads image.programs, ph.Fits) (hapart : (loads image.programs).Pairwise PagesApart)
    (hpages : 6 + pagesOf image.programs ≤ 0x40) :
    ∃ s s', processLoad s 1 image = .ok (s', true) := by
  obtain ⟨s, T, hacc, hempty, hfree, -⟩ := exists_firstProcess fun _ => 0
  obtain ⟨s₁, hload, -, -⟩ := hacc.loadSegments_spec (Finset.mem_singleton_self 1) image hfit hapart
    (fun ph hph i hlow hhigh => by
      have hle := (hfit ph hph).pages_le
      apply hempty
      simp only [UserPart, PROC_START_ADDR, MEMSIZE_VIRTUAL, PAGESIZE]
      omega)
    (by decide) hpages hfree
  exact ⟨s, _, processLoad_eq_ok.2 ⟨hmagic, s₁, hload, rfl⟩⟩

/-- The initial break is above the program if and only if no segment ends above the last one. -/
theorem initial_break_iff {s s' : State} {pid : Nat} {image : RamImage}
    (h : processLoad s pid image = .ok (s', true)) (hsome : loads image.programs ≠ [])
    (hfit : ∀ ph ∈ loads image.programs, ph.Fits) :
    BreakAbove (s'.processes pid) (loads image.programs) ↔
      ∀ ph ∈ loads image.programs, ph.breakAfter ≤ ((loads image.programs).getLast hsome).breakAfter := by
  -- the last segment of the table has set the break
  obtain ⟨last, hlast⟩ : ∃ last, last = (loads image.programs).getLast hsome := ⟨_, rfl⟩
  have hmem : last ∈ loads image.programs := by
    rw [hlast]
    exact List.getLast_mem hsome
  rw [← hlast]
  obtain ⟨-, s₁, hload, hs⟩ := processLoad_eq_ok.1 h
  have hself := (loadSegments_break hload).2
  rw [List.getLast?_eq_some_getLast hsome, ← hlast] at hself
  have hs' : s'.processes pid = { s₁.processes pid with
      registers := Function.update (s₁.processes pid).registers .rip image.eEntry } := by
    rw [hs]
    exact State.setProc_self ..
  have horiginal : (s'.processes pid).originalBreak = last.breakAfter := by rw [hs', hself]
  have hprogram : (s'.processes pid).programBreak = last.breakAfter := by rw [hs', hself]
  constructor
  · intro habove ph hph
    rw [← hprogram]
    exact habove.greatest.2 ⟨ph, hph, rfl⟩
  · intro hle
    constructor
    · rw [horiginal, hprogram]
    · rw [hprogram]
      exact roundUpPage_mod _
    · rw [hprogram]
      refine ⟨⟨last, hmem, rfl⟩, ?_⟩
      rintro b ⟨ph, hph, rfl⟩
      exact hle ph hph
    · intro ph hph a ha
      rw [horiginal]
      exact Nat.lt_of_lt_of_le ha (Nat.le_trans (hfit ph hph).le_breakAfter (hle ph hph))

/-- The image of `p-malloc` is loaded with the break above it. -/
theorem initial_break_iff_malloc : ∃ s s', processLoad s 1 (ramimages (fun _ _ => 0) 1) = .ok (s', true) ∧
    BreakAbove (s'.processes 1) (loads (ramimages (fun _ _ => 0) 1).programs) := by
  obtain ⟨s, s', h⟩ := exists_loaded (ramimages (fun _ _ => 0) 1) rfl (by decide) (by decide) (by decide)
  exact ⟨s, s', h, (initial_break_iff h (by decide) (by decide)).2 (by decide)⟩

/-- A program whose data segment stands before its text segment in the table. -/
def dataFirst : RamImage :=
  ⟨ELF_MAGIC, 0x100000, [⟨ELF_PTYPE_LOAD, 6, 0x2000, 0x102000, 0x20, 0x40⟩,
    ⟨ELF_PTYPE_LOAD, 5, 0x1000, 0x100000, 0x1800, 0x1800⟩], fun _ => 0⟩

/-- Its data page is at the break, where the heap is to be. -/
theorem break_below_data : (∀ ph ∈ loads dataFirst.programs, ph.Fits) ∧
    (loads dataFirst.programs).Pairwise PagesApart ∧ loads dataFirst.programs ≠ [] ∧
    ∃ s s', processLoad s 1 dataFirst = .ok (s', true) ∧
      ¬ BreakAbove (s'.processes 1) (loads dataFirst.programs) := by
  have hfit : ∀ ph ∈ loads dataFirst.programs, ph.Fits := by decide
  have hapart : (loads dataFirst.programs).Pairwise PagesApart := by decide
  have hsome : loads dataFirst.programs ≠ [] := by decide
  obtain ⟨s, s', h⟩ := exists_loaded dataFirst rfl hfit hapart (by decide)
  refine ⟨hfit, hapart, hsome, s, s', h, fun habove => ?_⟩
  obtain ⟨-, s₁, hload, hs⟩ := processLoad_eq_ok.1 h
  have hself := (loadSegments_break hload).2
  have horiginal : (s'.processes 1).originalBreak = 0x102000 := by
    rw [hs, State.setProc_self, hself]
    rfl
  have hclear := habove.clear ⟨ELF_PTYPE_LOAD, 6, 0x2000, 0x102000, 0x20, 0x40⟩ (by decide) 0x102000
    (by decide)
  rw [horiginal] at hclear
  exact absurd hclear (by decide)

/-- The images of the kernel have their segments in order. -/
theorem ramimages_ordered (bytes : Nat → Nat → UInt8) (n : Nat) :
    ∃ text data, loads (ramimages bytes n).programs = [text, data] ∧ text.Fits ∧ data.Fits ∧
      PagesApart text data ∧ text.breakAfter ≤ data.breakAfter ∧
      data.breakAfter < MEMSIZE_VIRTUAL - PAGESIZE ∧ text.pageCount + data.pageCount = 3 := by
  match n with
  | 0 => exact ⟨_, _, rfl, by decide, by decide, by decide, by decide, by decide, by decide⟩
  | 1 => exact ⟨_, _, rfl, by decide, by decide, by decide, by decide, by decide, by decide⟩
  | 2 => exact ⟨_, _, rfl, by decide, by decide, by decide, by decide, by decide, by decide⟩
  | n + 3 => exact ⟨_, _, rfl, by decide, by decide, by decide, by decide, by decide, by decide⟩

theorem ramimages_fit (bytes : Nat → Nat → UInt8) (n : Nat) :
    ∀ ph ∈ loads (ramimages bytes n).programs, ph.Fits := by
  obtain ⟨text, data, hloads, htext, hdata, -⟩ := ramimages_ordered bytes n
  rw [hloads]
  intro ph hph
  rcases List.mem_cons.1 hph with rfl | hph
  · exact htext
  · rw [List.mem_singleton.1 hph]
    exact hdata

theorem ramimages_apart (bytes : Nat → Nat → UInt8) (n : Nat) :
    (loads (ramimages bytes n).programs).Pairwise PagesApart := by
  obtain ⟨text, data, hloads, -, -, hapart, -⟩ := ramimages_ordered bytes n
  rw [hloads]
  exact List.pairwise_pair.2 hapart

theorem pagesOf_ramimages (bytes : Nat → Nat → UInt8) (n : Nat) : pagesOf (ramimages bytes n).programs = 3 := by
  obtain ⟨text, data, hloads, -, -, -, -, -, hcount⟩ := ramimages_ordered bytes n
  rw [pagesOf, hloads, ← hcount]
  rfl

/-- The segments of an image end below the page of the stack. -/
theorem ramimages_stack (bytes : Nat → Nat → UInt8) (n : Nat) :
    ∀ ph ∈ loads (ramimages bytes n).programs, ¬ ph.Covers (MEMSIZE_VIRTUAL - PAGESIZE) := by
  rintro ph hph ⟨-, hhigh⟩
  have hend := (ramimages_fit bytes n ph hph).le_breakAfter
  obtain ⟨text, data, hloads, -, -, -, horder, hbelow, -⟩ := ramimages_ordered bytes n
  rw [hloads] at hph
  have hlast : ph.breakAfter ≤ data.breakAfter := by
    rcases List.mem_cons.1 hph with rfl | hph
    · exact horder
    · rw [List.mem_singleton.1 hph]
  have hstack : page48 (MEMSIZE_VIRTUAL - PAGESIZE) = 767 := by decide
  rw [hstack, ElfProgram.pageCount, ElfProgram.firstPage] at hhigh
  simp only [MEMSIZE_VIRTUAL, PAGESIZE] at hbelow
  omega

/-- The text of an image is mapped without the write permission. -/
theorem ramimages_text (bytes : Nat → Nat → UInt8) (n : Nat) :
    ∃ text ∈ loads (ramimages bytes n).programs, text.perm = 5 ∧ 256 ≤ text.firstPage ∧
      text.firstPage < 768 ∧ 0 < text.pageCount := by
  match n with
  | 0 => exact ⟨_, List.mem_cons_self, by decide⟩
  | 1 => exact ⟨_, List.mem_cons_self, by decide⟩
  | 2 => exact ⟨_, List.mem_cons_self, by decide⟩
  | n + 3 => exact ⟨_, List.mem_cons_self, by decide⟩

end MemoryManagement.Kernel
