import MemoryManagement.Kernel.Accounting
import MemoryManagement.Kernel.Shrink

/-!
# Moves of pages

How page accounting moves when a page is mapped, shared, given up or released with its process. Mapping
a page that was set aside turns the reservation into a reference (`mapAside`), sharing a page adds a
reference (`share`), the loop of `sbrk` removes those of the pages it hides (`hide`), and `process_free`
removes all references of a process (`processFree`).
-/

set_option autoImplicit false

namespace MemoryManagement.Kernel

open MemoryManagement.Library.ByteMemory
open MemoryManagement.Library.RefCount

namespace Accounted

variable {s : State} {A : Finset Nat} {T : Nat → Tables} {P : Finset Nat}

/-! ## Mapping a page -/

section Map

variable (h : Accounted s A T P) {pid i pn perm : Nat} (hpid : pid ∈ A) (hi : 256 ≤ i) (hi' : i < 768)
  (hpn : Ordinary pn) (hperm : perm = 7 ∨ perm = 5) {m' : Mem}
  (hmap : MapsPages s.mem m' (T pid) i (PAGESIZE * pn) perm 1)
  (hunmapped : ¬ Mapped s.mem (T pid).l1 (PAGESIZE * i))
  (hfresh : references s.mem (T pid).l1 userPages pn = 0)

include h hpid hi hi' hpn hperm hmap hunmapped hfresh

/-- The address spaces after a page has been mapped, and their references. -/
theorem map_spaces : KernelSpace m' ∧ (∀ j ∈ A, Space m' (T j)) ∧
    ∀ j ∈ A, ∀ q, uses m' (T j) q = uses s.mem (T j) q + if j = pid ∧ q = pn then 1 else 0 := by
  obtain ⟨hkernel, hothers⟩ := h.of_leaves hpid hmap.bytes
  refine ⟨hkernel, fun j hj => ?_, fun j hj q => ?_⟩
  · by_cases hjp : j = pid
    · subst hjp
      apply (h.space j hj).mapPage hi hi' hpn hperm hmap
      intro va hva hm hpn'
      apply references_eq_zero.1 hfresh va hva hm
      rw [hpn', Int.toNat_natCast]
    · exact (hothers j hj hjp).1
  · by_cases hjp : j = pid
    · subst hjp
      rw [Space.uses_mapPage hi hi' hperm hmap hunmapped]
      simp
    · rw [(hothers j hj hjp).2, if_neg fun e => hjp e.1, Nat.add_zero]

/-- The references after a page has been mapped. -/
theorem map_refs (Q : Finset Nat) (q : Nat) :
    refs m' A T Q q = refs s.mem A T Q q + if q = pn then 1 else 0 := by
  obtain ⟨-, -, huses⟩ := h.map_spaces hpid hi hi' hpn hperm hmap hunmapped hfresh
  have hchange : refs m' A T Q q + uses s.mem (T pid) q = refs s.mem A T Q q + uses m' (T pid) q := by
    apply refs_change hpid
    intro j hj hne
    rw [huses j hj, if_neg fun e => hne e.1, Nat.add_zero]
  have hself : uses m' (T pid) q = uses s.mem (T pid) q + if q = pn then 1 else 0 := by
    rw [huses pid hpid]
    simp
  omega

end Map

/-- A page that was set aside is mapped. -/
theorem mapAside (h : Accounted s A T P) {pid i pn perm : Nat} (hpid : pid ∈ A) (hi : 256 ≤ i)
    (hi' : i < 768) (hpn : pn ∈ P) (hperm : perm = 7 ∨ perm = 5) {m' : Mem}
    (hmap : MapsPages s.mem m' (T pid) i (PAGESIZE * pn) perm 1)
    (hunmapped : ¬ Mapped s.mem (T pid).l1 (PAGESIZE * i)) :
    Accounted { s with mem := m' } A T (P.erase pn) := by
  obtain ⟨hord, hunused⟩ := h.aside pn hpn
  have hfresh := (uses_eq_zero.1 (hunused pid hpid)).1
  obtain ⟨hkernel, hspaces, huses⟩ := h.map_spaces hpid hi hi' hord hperm hmap hunmapped hfresh
  constructor
  · exact hkernel
  · exact h.pids
  · exact h.root
  · exact hspaces
  · intro q hq
    obtain ⟨hne, hq'⟩ := Finset.mem_erase.1 hq
    refine ⟨(h.aside q hq').1, fun j hj => ?_⟩
    rw [huses j hj, (h.aside q hq').2 j hj, if_neg fun e => hne e.2]
  · intro q hq
    have hmapped := h.map_refs hpid hi hi' hord hperm hmap hunmapped hfresh (P.erase pn) q
    have herase : refs s.mem A T (P.erase pn) q + (if q = pn then 1 else 0) = refs s.mem A T P q :=
      count_erase hpn q
    rw [hmapped, herase]
    exact h.counted q hq
  · exact h.free
  · exact h.tables
  · exact h.fixed

theorem addReference_self {info : Nat → PageInfo} {pn : Nat} (h0 : 0 ≤ (info pn).refcount)
    (h1 : (info pn).refcount < 127) :
    addReference info pn pn = ⟨(info pn).owner, (info pn).refcount + 1⟩ := by
  rw [addReference, Function.update_self, toInt8_of_nonneg (by omega) (by omega)]

/-- A page that another process has mapped is mapped once more. -/
theorem share (h : Accounted s A T P) {pid j i pn perm : Nat} (hpid : pid ∈ A) (hj : j ∈ A)
    (hi : 256 ≤ i) (hi' : i < 768) (hperm : perm = 7 ∨ perm = 5) {m' : Mem}
    (hmap : MapsPages s.mem m' (T pid) i (PAGESIZE * pn) perm 1)
    (hunmapped : ¬ Mapped s.mem (T pid).l1 (PAGESIZE * i))
    (hfresh : references s.mem (T pid).l1 userPages pn = 0)
    (hshared : 0 < references s.mem (T j).l1 userPages pn) :
    Accounted { s with mem := m', pageinfo := addReference s.pageinfo pn } A T P := by
  have hord := (h.space j hj).ordinary_of_references hshared
  obtain ⟨hkernel, hspaces, huses⟩ := h.map_spaces hpid hi hi' hord hperm hmap hunmapped hfresh
  have hcount := h.counted pn hord
  have hle := h.refs_le pn
  have hpos : 0 < refs s.mem A T P pn := by
    have huse : uses s.mem (T j) pn ≤ refs s.mem A T P pn := uses_le_refs hj
    rw [uses] at huse
    omega
  have hself : addReference s.pageinfo pn pn =
      ⟨(s.pageinfo pn).owner, (s.pageinfo pn).refcount + 1⟩ :=
    addReference_self (by omega) (by omega)
  have hother : ∀ q, q ≠ pn → addReference s.pageinfo pn q = s.pageinfo q :=
    fun q hq => Function.update_of_ne hq ..
  constructor
  · exact hkernel
  · exact h.pids
  · exact h.root
  · exact hspaces
  · intro q hq
    obtain ⟨hq', hzero⟩ := h.aside q hq
    refine ⟨hq', fun k hk => ?_⟩
    have hne : q ≠ pn := by
      rintro rfl
      have := (uses_eq_zero.1 (hzero j hj)).1
      omega
    rw [huses k hk, hzero k hk, if_neg fun e => hne e.2]
  · intro q hq
    have hmapped := h.map_refs hpid hi hi' hord hperm hmap hunmapped hfresh P q
    show (addReference s.pageinfo pn q).refcount = (refs m' A T P q : Nat)
    rw [hmapped]
    by_cases hq' : q = pn
    · subst hq'
      rw [hself, if_pos rfl]
      push_cast
      rw [hcount]
    · rw [hother q hq', if_neg hq']
      exact h.counted q hq
  · intro q hq
    show (addReference s.pageinfo pn q).owner = PO_FREE ↔ (addReference s.pageinfo pn q).refcount = 0
    by_cases hq' : q = pn
    · subst hq'
      have hfree := h.free q hq
      rw [hself]
      simp only
      omega
    · rw [hother q hq']
      exact h.free q hq
  · intro k hk t ht
    show addReference s.pageinfo pn (t / PAGESIZE) = _
    rw [hother]
    · exact h.tables k hk t ht
    · rintro e
      -- a page of a page table is mapped by nobody
      obtain ⟨hzero, hothers, -⟩ := h.table_alone hk ht
      rw [e] at hzero hothers
      by_cases hjk : j = k
      · subst hjk
        omega
      · have := (uses_eq_zero.1 (hothers j hj hjk)).1
        omega
  · intro q hlt hq
    show addReference s.pageinfo pn q = _
    rw [hother]
    · exact h.fixed q hlt hq
    · rintro rfl
      exact hq hord

end Accounted

/-! ## Hiding pages -/

theorem drop_of_pos {i : PageInfo} (h0 : 0 < i.refcount) (h1 : i.refcount < 128) :
    i.drop = ⟨if i.refcount = 1 then PO_FREE else i.owner, i.refcount - 1⟩ := by
  have hcount : toInt8 (i.refcount - 1) = i.refcount - 1 := toInt8_of_nonneg (by omega) (by omega)
  have hzero : i.refcount - 1 = 0 ↔ i.refcount = 1 := by omega
  simp only [PageInfo.drop, hcount, hzero]

section Hide

variable {m : Mem} {T : Tables}

/-- Hiding a page writes to a last-level table. -/
theorem Linked.hidePage (h : Linked m T) (hT : T.Ok) (va : Nat) :
    Linked (hidePage m T.l1 va) T ∧ ∀ x, ¬ InRange T.l4a PAGESIZE x → ¬ InRange T.l4b PAGESIZE x →
      Kernel.hidePage m T.l1 va x = m x := by
  rw [Kernel.hidePage]
  split
  · rename_i hm
    obtain ⟨t, ht⟩ := hm.table
    have hleaf := ht
    rw [h.tableAt_indices hT] at hleaf
    rw [ht, Option.getD_some]
    refine ⟨h.setLeaf hT hleaf (pageindex_lt va 3), fun x hxa hxb => ?_⟩
    apply setEntry_of_not_inRange (pageindex_lt va 3)
    rcases Tables.leafTable_mem hleaf with rfl | rfl
    · exact hxa
    · exact hxb
  · exact ⟨h, fun _ _ _ => rfl⟩

theorem Linked.hidePages (h : Linked m T) (hT : T.Ok) (pages : List Nat) :
    Linked (hidePages m T.l1 pages) T ∧ ∀ x, ¬ InRange T.l4a PAGESIZE x →
      ¬ InRange T.l4b PAGESIZE x → Kernel.hidePages m T.l1 pages x = m x := by
  induction pages generalizing m with
  | nil => exact ⟨h, fun _ _ _ => rfl⟩
  | cons va pages ih =>
      obtain ⟨hlink, hbytes⟩ := h.hidePage hT va
      obtain ⟨hlink', hbytes'⟩ := ih hlink
      refine ⟨hlink', fun x hxa hxb => ?_⟩
      rw [Kernel.hidePages, hbytes' x hxa hxb, hbytes x hxa hxb]

variable {pages : List Nat} (h : Space m T) (hhides : Hides m (hidePages m T.l1 pages) T.l1 pages)
  (hsub : ∀ va ∈ pages, va ∈ userPages)

include hhides

/-- What is mapped afterwards was mapped before, to the same page. -/
theorem lookup_hidePages {a : Nat} (hm : Mapped (hidePages m T.l1 pages) T.l1 a) :
    Mapped m T.l1 a ∧ virtualMemoryLookup (hidePages m T.l1 pages) T.l1 a =
      virtualMemoryLookup m T.l1 a := by
  have hsame := hhides.kept a fun va hva hpage => hhides.gone a ⟨va, hva, hpage⟩ hm
  refine ⟨?_, hsame⟩
  rw [Mapped, ← hsame]
  exact hm

include hsub

include h in
theorem Space.hide : Space (hidePages m T.l1 pages) T := by
  have hlookup := fun {a} hm => lookup_hidePages (a := a) hhides hm
  constructor
  · exact h.tables
  · exact (h.linked.hidePages h.tables pages).1
  · exact h.ordinary
  · intro va hva
    rw [hhides.kept va]
    · exact h.low va hva
    · intro w hw hpage
      have huser := (mem_userPages.1 (hsub w hw)).2
      rw [huser.page48_eq, page48] at hpage
      simp only [UserPart, PROC_START_ADDR, MEMSIZE_VIRTUAL] at huser hva
      omega
  · intro va hva hm
    rw [(hlookup hm).2]
    exact h.user va hva (hlookup hm).1
  · intro va hva hlt hm
    exact h.high va hva hlt (hlookup hm).1
  · intro va va' hva hva' hm hm' hpn
    rw [(hlookup hm).2, (hlookup hm').2] at hpn
    exact h.once va va' hva hva' (hlookup hm).1 (hlookup hm').1 hpn

/-- The references that are left and those that are given up. -/
theorem references_hidePages (hnodup : pages.Nodup) (q : Nat) :
    references (hidePages m T.l1 pages) T.l1 userPages q + references m T.l1 pages q =
      references m T.l1 userPages q := by
  have hsplit := List.countP_eq_countP_filter_add userPages
    (fun va => decide (Mapped m T.l1 va ∧ (virtualMemoryLookup m T.l1 va).pn.toNat = q))
    (fun va => decide (va ∈ pages))
  have hgone := countP_mem_and nodup_userPages hnodup hsub
    (fun va => decide (Mapped m T.l1 va ∧ (virtualMemoryLookup m T.l1 va).pn.toNat = q))
  rw [List.countP_filter, List.countP_filter] at hsplit
  have hcomm : userPages.countP (fun va => decide (Mapped m T.l1 va ∧
      (virtualMemoryLookup m T.l1 va).pn.toNat = q) && decide (va ∈ pages)) =
      references m T.l1 pages q := by
    rw [references, ← hgone]
    apply List.countP_congr
    intro va _
    rw [Bool.and_comm]
  have hleft : userPages.countP (fun va => decide (Mapped m T.l1 va ∧
      (virtualMemoryLookup m T.l1 va).pn.toNat = q) && !decide (va ∈ pages)) =
      references (hidePages m T.l1 pages) T.l1 userPages q := by
    apply List.countP_congr
    intro va hva
    simp only [Bool.and_eq_true, Bool.not_eq_true', decide_eq_true_iff, decide_eq_false_iff_not]
    constructor
    · rintro ⟨⟨hm, hpn⟩, hout⟩
      -- pages of the list are page addresses, so another page address is on another page
      have hsame := hhides.kept va fun w hw hpage => by
        apply hout
        rw [page48_inj (hsub w hw) hva hpage]
        exact hw
      rw [Mapped, hsame]
      exact ⟨hm, hpn⟩
    · rintro ⟨hm, hpn⟩
      obtain ⟨hold, hsame⟩ := lookup_hidePages hhides hm
      rw [hsame] at hpn
      exact ⟨⟨hold, hpn⟩, fun hin => hhides.gone va ⟨va, hin, rfl⟩ hm⟩
  rw [← hleft, ← hcomm]
  refine Eq.trans ?_ hsplit.symm
  exact Nat.add_comm ..

end Hide

namespace Accounted

variable {s : State} {A : Finset Nat} {T : Nat → Tables} {P : Finset Nat}

/-- Pages of the user part are hidden and lose a reference each. -/
theorem hide (h : Accounted s A T P) {pid : Nat} (hpid : pid ∈ A) {pages : List Nat}
    (hnodup : pages.Nodup) (hsub : ∀ va ∈ pages, va ∈ userPages) :
    Accounted { s with
      mem := hidePages s.mem (T pid).l1 pages
      pageinfo := freePages s.mem (T pid).l1 pages s.pageinfo } A T P := by
  have hspace := h.space pid hpid
  have hhides := (h.tableOk hpid).hidePages pages
  obtain ⟨hlinked, hbytes⟩ := hspace.linked.hidePages hspace.tables pages
  obtain ⟨hkernel, hothers⟩ := h.of_leaves hpid hbytes
  have hspace' := Space.hide hspace hhides hsub
  have hrefs := references_hidePages hhides hsub hnodup
  -- the process loses the references of the pages, the others keep theirs
  have hself : ∀ q, uses (hidePages s.mem (T pid).l1 pages) (T pid) q +
      references s.mem (T pid).l1 pages q = uses s.mem (T pid) q := by
    intro q
    have := hrefs q
    rw [uses, uses]
    omega
  have hone : ∀ q, references s.mem (T pid).l1 pages q ≤ 1 := by
    intro q
    have h1 := hrefs q
    have h2 := hspace.references_le_one q
    omega
  have hinfo : ∀ q, freePages s.mem (T pid).l1 pages s.pageinfo q =
      if references s.mem (T pid).l1 pages q = 1 then (s.pageinfo q).drop else s.pageinfo q := by
    intro q
    have hle := hone q
    rw [freePages_apply]
    split
    · rename_i hq
      rw [hq]
      rfl
    · rename_i hq
      rw [show references s.mem (T pid).l1 pages q = 0 by omega]
      rfl
  have hcount : ∀ q, refs (hidePages s.mem (T pid).l1 pages) A T P q +
      references s.mem (T pid).l1 pages q = refs s.mem A T P q := by
    intro q
    have hchange : refs (hidePages s.mem (T pid).l1 pages) A T P q + uses s.mem (T pid) q =
        refs s.mem A T P q + uses (hidePages s.mem (T pid).l1 pages) (T pid) q :=
      refs_change hpid fun j hj hne => (hothers j hj hne).2 q
    have := hself q
    omega
  constructor
  · exact hkernel
  · exact h.pids
  · exact h.root
  · intro j hj
    by_cases hjp : j = pid
    · subst hjp
      exact hspace'
    · exact (hothers j hj hjp).1
  · intro q hq
    refine ⟨(h.aside q hq).1, fun j hj => ?_⟩
    have hzero := (h.aside q hq).2 j hj
    by_cases hjp : j = pid
    · subst hjp
      have := hself q
      show uses (hidePages s.mem (T j).l1 pages) (T j) q = 0
      omega
    · exact ((hothers j hj hjp).2 q).trans hzero
  · intro q hq
    show (freePages s.mem (T pid).l1 pages s.pageinfo q).refcount =
      (refs (hidePages s.mem (T pid).l1 pages) A T P q : Nat)
    have h1 := h.counted q hq
    have h2 := hcount q
    have h3 := h.refs_le q
    have h4 := hone q
    rw [hinfo]
    split
    · rw [drop_of_pos (by omega) (by omega)]
      simp only
      omega
    · omega
  · intro q hq
    show (freePages s.mem (T pid).l1 pages s.pageinfo q).owner = PO_FREE ↔
      (freePages s.mem (T pid).l1 pages s.pageinfo q).refcount = 0
    have h1 := h.counted q hq
    have h2 := hcount q
    have h3 := h.refs_le q
    have hfree := h.free q hq
    rw [hinfo]
    split
    · rw [drop_of_pos (by omega) (by omega)]
      simp only
      split
      · rename_i hq1
        simp [hq1]
      · rw [hfree]
        omega
    · exact hfree
  · intro j hj t ht
    show freePages s.mem (T pid).l1 pages s.pageinfo (t / PAGESIZE) = _
    have hzero : references s.mem (T pid).l1 userPages (t / PAGESIZE) = 0 := by
      by_cases hjp : j = pid
      · subst hjp
        exact (h.table_alone hj ht).1
      · exact (uses_eq_zero.1 ((h.table_alone hj ht).2.1 pid hpid (Ne.symm hjp))).1
    have := hrefs (t / PAGESIZE)
    rw [hinfo, if_neg (by omega)]
    exact h.tables j hj t ht
  · intro q hlt hq
    show freePages s.mem (T pid).l1 pages s.pageinfo q = _
    have hzero : ¬ 0 < references s.mem (T pid).l1 userPages q :=
      fun hpos => hq (hspace.ordinary_of_references hpos)
    have := hrefs q
    rw [hinfo, if_neg (by omega)]
    exact h.fixed q hlt hq

end Accounted

/-! ## Releasing a process -/

theorem pageinfoIndex_eq {t : Nat} (ht : t < MEMSIZE_PHYSICAL) : pageinfoIndex t = t / PAGESIZE := by
  simp only [MEMSIZE_PHYSICAL] at ht
  have hshift : t >>> 12 = t / 4096 := Nat.shiftRight_eq_div_pow t 12
  rw [pageinfoIndex, pageNumber, hshift, toInt32_of_lt (by omega)]
  rfl

/-- Pages that each have one reference are given back. -/
theorem freeTables_eq {ts : List Nat} {info : Nat → PageInfo} (hnodup : ts.Nodup)
    (halign : ∀ t ∈ ts, t % 4096 = 0) (hlt : ∀ t ∈ ts, t < MEMSIZE_PHYSICAL)
    (hone : ∀ t ∈ ts, (info (t / PAGESIZE)).refcount = 1) :
    freeTables ts info = .ok fun q => if PAGESIZE * q ∈ ts then ⟨PO_FREE, 0⟩ else info q := by
  induction ts generalizing info with
  | nil => simp [freeTables]
  | cons t ts ih =>
      obtain ⟨hnew, hnodup'⟩ := List.nodup_cons.1 hnodup
      have ht0 := halign t (List.mem_cons_self ..)
      have hindex := pageinfoIndex_eq (hlt t (List.mem_cons_self ..))
      -- the other pages still have their reference
      have hother : ∀ t' ∈ ts, clearPage info (pageinfoIndex t) (t' / PAGESIZE) = info (t' / PAGESIZE) := by
        intro t' ht'
        rw [clearPage, hindex, Function.update_of_ne]
        intro e
        have ht'0 := halign t' (List.mem_cons_of_mem _ ht')
        apply hnew
        rw [← page_mul_div ht0, ← e, page_mul_div ht'0]
        exact ht'
      have hcount : (info (pageinfoIndex t)).refcount = 1 := by
        rw [hindex]
        exact hone t (List.mem_cons_self ..)
      have hone' : ∀ t' ∈ ts, (clearPage info (pageinfoIndex t) (t' / PAGESIZE)).refcount = 1 := by
        intro t' ht'
        rw [hother t' ht']
        exact hone t' (List.mem_cons_of_mem _ ht')
      rw [freeTables, assert_bind_of hcount,
        ih hnodup' (fun t' ht' => halign t' (List.mem_cons_of_mem _ ht'))
          (fun t' ht' => hlt t' (List.mem_cons_of_mem _ ht')) hone']
      refine congrArg Except.ok (funext fun q => ?_)
      by_cases hq : PAGESIZE * q = t
      · have hqi : q = pageinfoIndex t := by
          rw [hindex, ← hq, Nat.mul_div_cancel_left q (by decide : 0 < PAGESIZE)]
        rw [if_neg (by rw [hq]; exact hnew), if_pos (by rw [hq]; exact List.mem_cons_self ..), hqi,
          clearPage, Function.update_self]
      · have hqi : q ≠ pageinfoIndex t := by
          intro e
          apply hq
          rw [e, hindex, page_mul_div ht0]
        rw [clearPage, Function.update_of_ne hqi]
        simp only [List.mem_cons, hq, false_or]

/-- The page counts after a process has been released. -/
def releasedInfo (s : State) (T : Tables) (q : Nat) : PageInfo :=
  if PAGESIZE * q ∈ T.pages then ⟨PO_FREE, 0⟩
  else if 0 < references s.mem T.l1 userPages q then (s.pageinfo q).drop
  else s.pageinfo q

/-- The state after a process has been released. -/
def released (s : State) (T : Tables) (pid : Nat) : State :=
  { s.setProc pid { s.processes pid with state := .free } with pageinfo := releasedInfo s T }

namespace Accounted

variable {s : State} {A : Finset Nat} {T : Nat → Tables} {P : Finset Nat}

/-- The invariant does not mention the states of processes. -/
theorem processFree_eq (h : Accounted s A T P) {pid : Nat} (hpid : pid ∈ A) :
    processFree s pid = .ok (released s (T pid) pid) := by
  have hspace := h.space pid hpid
  have hpages : freePages s.mem (T pid).l1 userPages s.pageinfo = fun q =>
      if 0 < references s.mem (T pid).l1 userPages q then (s.pageinfo q).drop else s.pageinfo q := by
    funext q
    have hle := hspace.references_le_one q
    rw [freePages_apply]
    split
    · rename_i hpos
      rw [show references s.mem (T pid).l1 userPages q = 1 by omega]
      rfl
    · rename_i hzero
      rw [Nat.eq_zero_of_not_pos hzero]
      rfl
  -- the pages of a page table have one reference, that of the table itself
  have hone : ∀ t ∈ (T pid).pages, (freePages s.mem (T pid).l1 userPages s.pageinfo
      (t / PAGESIZE)).refcount = 1 := by
    intro t ht
    have hzero := (h.table_alone hpid ht).1
    rw [hpages]
    simp only [hzero, Nat.lt_irrefl, if_false]
    rw [h.tables pid hpid t ht]
  have hfree := freeTables_eq hspace.tables.nodup hspace.tables.aligned hspace.tables.physical hone
  have hinfo : (fun q => if PAGESIZE * q ∈ (T pid).pages then (⟨PO_FREE, 0⟩ : PageInfo)
      else freePages s.mem (T pid).l1 userPages s.pageinfo q) = releasedInfo s (T pid) := by
    funext q
    rw [hpages]
    rfl
  rw [hinfo, ← hspace.linked.tablePages_eq hspace.tables, ← h.root pid hpid] at hfree
  simp only [processFree]
  rw [hfree]
  rfl

/-- A process is released with all its references. -/
theorem leave (h : Accounted s A T P) {pid : Nat} (hpid : pid ∈ A) :
    Accounted (released s (T pid) pid) (A.erase pid) T P := by
  have hspace := h.space pid hpid
  have hsub : ∀ j ∈ A.erase pid, j ∈ A := fun j hj => (Finset.mem_erase.1 hj).2
  constructor
  · exact h.kernel
  · exact fun j hj => h.pids j (hsub j hj)
  · intro j hj
    have hne := (Finset.mem_erase.1 hj).1
    have hproc : (released s (T pid) pid).processes j = s.processes j := State.setProc_other s _ hne
    rw [hproc]
    exact h.root j (hsub j hj)
  · exact fun j hj => h.space j (hsub j hj)
  · exact fun q hq => ⟨(h.aside q hq).1, fun j hj => (h.aside q hq).2 j (hsub j hj)⟩
  · intro q hq
    show (releasedInfo s (T pid) q).refcount = (refs s.mem (A.erase pid) T P q : Nat)
    have hleave : refs s.mem (A.erase pid) T P q + uses s.mem (T pid) q = refs s.mem A T P q :=
      refs_leave hpid
    have hcount := h.counted q hq
    have hle := h.refs_le q
    have hone := hspace.references_le_one q
    rw [releasedInfo]
    rw [uses] at hleave
    split
    · rename_i htable
      -- the page belongs to the page table alone
      have hq' : PAGESIZE * q / PAGESIZE = q := Nat.mul_div_cancel_left q (by decide)
      have hinfo := h.tables pid hpid _ htable
      rw [hq'] at hinfo
      rw [hinfo] at hcount
      rw [if_pos htable] at hleave
      simp only at hcount ⊢
      omega
    · rename_i htable
      rw [if_neg htable] at hleave
      split
      · rename_i hpos
        rw [drop_of_pos (by omega) (by omega)]
        simp only
        omega
      · rename_i hzero
        omega
  · intro q hq
    show (releasedInfo s (T pid) q).owner = PO_FREE ↔ (releasedInfo s (T pid) q).refcount = 0
    have hfree := h.free q hq
    have hcount := h.counted q hq
    have hle := h.refs_le q
    have huse : uses s.mem (T pid) q ≤ refs s.mem A T P q := uses_le_refs hpid
    rw [releasedInfo]
    split
    · simp
    · split
      · rename_i hpos
        rw [uses] at huse
        rw [drop_of_pos (by omega) (by omega)]
        simp only
        split
        · rename_i hone
          simp [hone]
        · rename_i hmore
          rw [hfree]
          omega
      · exact hfree
  · intro j hj t ht
    obtain ⟨hne, hj'⟩ := Finset.mem_erase.1 hj
    show releasedInfo s (T pid) (t / PAGESIZE) = _
    have hzero := (uses_eq_zero.1 ((h.table_alone hj' ht).2.1 pid hpid (Ne.symm hne)))
    rw [releasedInfo, if_neg hzero.2, if_neg (by omega)]
    exact h.tables j hj' t ht
  · intro q hlt hq
    show releasedInfo s (T pid) q = _
    have htable : PAGESIZE * q ∉ (T pid).pages := by
      intro hmem
      have := hspace.ordinary _ hmem
      rw [Nat.mul_div_cancel_left q (by decide : 0 < PAGESIZE)] at this
      exact hq this
    have hzero : ¬ 0 < references s.mem (T pid).l1 userPages q :=
      fun hpos => hq (hspace.ordinary_of_references hpos)
    rw [releasedInfo, if_neg htable, if_neg hzero]
    exact h.fixed q hlt hq

end Accounted

end MemoryManagement.Kernel
