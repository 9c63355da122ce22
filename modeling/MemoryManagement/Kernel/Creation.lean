import MemoryManagement.Kernel.Moves

/-!
# Creating page tables

`process_config_tables` takes five pages, clears and links them, and maps the kernel's memory and the
console. It either gives the process an empty address space or gives the pages back and changes nothing
that matters (`processConfigTables_spec`).
-/

set_option autoImplicit false

namespace MemoryManagement.Kernel

open MemoryManagement.Library.ByteMemory
open MemoryManagement.Library.RefCount

/-! ## Five pages -/

/-- `n` pages taken one after the other. -/
def pallocs (pid : Nat) : Nat → State → State × List Nat
  | 0, s => (s, [])
  | n + 1, s =>
      let page := palloc s pid
      let rest := pallocs pid n page.1
      (rest.1, page.2 :: rest.2)

/-- Pages `ts` taken for a process: those that are not `NULL` are set aside, and all else is as it was. -/
structure Taken (s s' : State) (pid : Nat) (ts : List Nat) (held : Finset Nat) : Prop where
  only : OnlyPages s s'
  held_iff : ∀ q, q ∈ held ↔ q ≠ 0 ∧ PAGESIZE * q ∈ ts
  aligned : ∀ t ∈ ts, t % 4096 = 0
  distinct : (ts.filter fun t => t ≠ NULL).Nodup
  wasFree : ∀ q ∈ held, s.pageinfo q = ⟨PO_FREE, 0⟩
  info : ∀ q, s'.pageinfo q = if q ∈ held then ⟨pid, 1⟩ else s.pageinfo q
  bytes : ∀ x, (∀ q ∈ held, ¬ InRange (PAGESIZE * q) PAGESIZE x) → s'.mem x = s.mem x

namespace Taken

variable {s s₁ s' : State} {pid pn : Nat} {ts : List Nat} {held : Finset Nat}

theorem nil (s : State) (pid : Nat) : Taken s s pid [] ∅ := by
  refine ⟨OnlyPages.refl s, ?_, ?_, ?_, ?_, ?_, ?_⟩ <;> simp

/-- No page was left for the first one. -/
theorem null (h : Taken s s' pid ts held) : Taken s s' pid (NULL :: ts) held := by
  refine ⟨h.only, fun q => ?_, ?_, ?_, h.wasFree, h.info, h.bytes⟩
  · rw [h.held_iff, List.mem_cons]
    constructor
    · rintro ⟨h0, hmem⟩
      exact ⟨h0, Or.inr hmem⟩
    · rintro ⟨h0, hzero | hmem⟩
      · simp only [PAGESIZE, NULL] at hzero
        omega
      · exact ⟨h0, hmem⟩
  · intro t ht
    rcases List.mem_cons.1 ht with rfl | ht
    · rfl
    · exact h.aligned t ht
  · rw [List.filter_cons_of_neg (by simp)]
    exact h.distinct

theorem cons (halloc : Allocated s s₁ pid pn) (h : Taken s₁ s' pid ts held) (hpn : pn ∉ held) :
    Taken s s' pid (PAGESIZE * pn :: ts) (insert pn held) := by
  -- page 0 is never handed out, so that an address of the list tells its page
  have hpos := halloc.ordinary.pos
  have hinfo₁ := halloc.info
  refine ⟨?_, fun q => ?_, ?_, ?_, ?_, fun q => ?_, fun x hx => ?_⟩
  · exact halloc.only.trans h.only
  · rw [Finset.mem_insert, h.held_iff, List.mem_cons]
    simp only [PAGESIZE]
    constructor
    · rintro (rfl | ⟨h0, hmem⟩)
      · exact ⟨by omega, Or.inl rfl⟩
      · exact ⟨h0, Or.inr hmem⟩
    · rintro ⟨h0, hsame | hmem⟩
      · exact Or.inl (by omega)
      · exact Or.inr ⟨h0, hmem⟩
  · intro t ht
    rcases List.mem_cons.1 ht with rfl | ht
    · exact Nat.mul_mod_right ..
    · exact h.aligned t ht
  · have hnonnull : PAGESIZE * pn ≠ NULL := halloc.ordinary.page_ne_null
    rw [List.filter_cons_of_pos (by simpa using hnonnull), List.nodup_cons]
    refine ⟨fun hmem => ?_, h.distinct⟩
    exact hpn ((h.held_iff pn).2 ⟨by omega, (List.mem_filter.1 hmem).1⟩)
  · intro q hq
    rcases Finset.mem_insert.1 hq with rfl | hq'
    · -- the first page was free before, the others were not this one
      exact halloc.wasFree
    · have hfree := h.wasFree q hq'
      rw [hinfo₁, Function.update_of_ne] at hfree
      · exact hfree
      · rintro rfl
        exact hpn hq'
  · rw [h.info, hinfo₁]
    by_cases hq : q = pn
    · subst hq
      rw [if_neg hpn, if_pos (Finset.mem_insert_self ..), Function.update_self]
    · rw [Function.update_of_ne hq]
      simp only [Finset.mem_insert, hq, false_or]
  · rw [h.bytes x fun q hq => hx q (Finset.mem_insert_of_mem hq)]
    exact halloc.bytes x (hx pn (Finset.mem_insert_self ..))

end Taken

theorem Accounted.pallocs {s : State} {A : Finset Nat} {T : Nat → Tables} {P : Finset Nat}
    (h : Accounted s A T P) {pid : Nat} (hpid : 0 < pid ∧ pid < NPROC) (n : Nat) :
    ∃ held, Disjoint P held ∧ Taken s (Kernel.pallocs pid n s).1 pid (Kernel.pallocs pid n s).2 held ∧
      Accounted (Kernel.pallocs pid n s).1 A T (P ∪ held) := by
  induction n generalizing s P with
  | zero =>
      refine ⟨∅, Finset.disjoint_empty_right P, Taken.nil s pid, ?_⟩
      rw [Finset.union_empty]
      exact h
  | succ n ih =>
      rcases h.palloc hpid.2 with ⟨-, hcode⟩ | ⟨pn, s₁, -, hcode, halloc⟩
      · obtain ⟨held, hdisj, htaken, hacc⟩ := ih h
        rw [Kernel.pallocs, hcode]
        exact ⟨held, hdisj, htaken.null, hacc⟩
      · obtain ⟨hnew, hacc₁⟩ := h.allocated hpid.1 halloc
        obtain ⟨held, hdisj, htaken, hacc⟩ := ih hacc₁
        have hpn : pn ∉ held := fun hmem =>
          Finset.disjoint_left.1 hdisj (Finset.mem_insert_self pn P) hmem
        have hset : P ∪ insert pn held = insert pn P ∪ held := by
          rw [Finset.union_insert, Finset.insert_union]
        rw [Kernel.pallocs, hcode]
        refine ⟨insert pn held, ?_, Taken.cons halloc htaken hpn, ?_⟩
        · rw [Finset.disjoint_insert_right]
          exact ⟨hnew, Finset.disjoint_of_subset_left (Finset.subset_insert pn P) hdisj⟩
        · rw [hset]
          exact hacc

/-- Giving pages back clears their page counts. -/
theorem clearTables_apply {ts : List Nat} {info : Nat → PageInfo} (halign : ∀ t ∈ ts, t % 4096 = 0)
    (hlt : ∀ t ∈ ts, t < MEMSIZE_PHYSICAL) (q : Nat) :
    clearTables info ts q = if q ≠ 0 ∧ PAGESIZE * q ∈ ts then ⟨PO_FREE, 0⟩ else info q := by
  induction ts generalizing info with
  | nil => simp [clearTables]
  | cons t ts ih =>
      have ht0 := halign t (List.mem_cons_self ..)
      have hindex := pageinfoIndex_eq (hlt t (List.mem_cons_self ..))
      rw [clearTables, ih (fun t' ht' => halign t' (List.mem_cons_of_mem _ ht'))
        (fun t' ht' => hlt t' (List.mem_cons_of_mem _ ht'))]
      -- a page that comes again later in the list is cleared all the same
      by_cases hrest : q ≠ 0 ∧ PAGESIZE * q ∈ ts
      · rw [if_pos hrest, if_pos ⟨hrest.1, List.mem_cons_of_mem _ hrest.2⟩]
      · rw [if_neg hrest]
        by_cases hq : q ≠ 0 ∧ PAGESIZE * q = t
        · have hnull : t ≠ NULL := by
            rw [← hq.2]
            simp only [PAGESIZE, NULL]
            omega
          have hqi : q = pageinfoIndex t := by
            rw [hindex, ← hq.2, Nat.mul_div_cancel_left q (by decide : 0 < PAGESIZE)]
          rw [if_pos hnull, if_pos ⟨hq.1, by rw [hq.2]; exact List.mem_cons_self ..⟩, hqi, clearPage,
            Function.update_self]
        · have hout : ¬ (q ≠ 0 ∧ PAGESIZE * q ∈ t :: ts) := by
            rintro ⟨h0, hmem⟩
            rcases List.mem_cons.1 hmem with hmem | hmem
            · exact hq ⟨h0, hmem⟩
            · exact hrest ⟨h0, hmem⟩
          rw [if_neg hout]
          split
          · rename_i hnull
            have hne : q ≠ pageinfoIndex t := by
              intro e
              rw [hindex] at e
              simp only [PAGESIZE, NULL] at e hq hnull
              omega
            rw [clearPage, Function.update_of_ne hne]
          · rfl

/-- The page that is cleared first; its contents stay behind a name, which keeps them folded. -/
theorem zeroPages_cons {m m' : Mem} {t : Nat} {ts : List Nat} (h : m' = memset m t 0 PAGESIZE) :
    zeroPages m (t :: ts) = zeroPages m' ts := by
  conv_lhs => unfold zeroPages
  rw [← h]

theorem zeroPages_of_not_mem {m : Mem} {ts : List Nat} {x : Nat} (hx : ∀ t ∈ ts, ¬ InRange t PAGESIZE x) :
    zeroPages m ts x = m x := by
  induction ts generalizing m with
  | nil => rfl
  | cons t ts ih =>
      obtain ⟨m', hm'⟩ : ∃ m', m' = memset m t 0 PAGESIZE := ⟨_, rfl⟩
      rw [zeroPages_cons hm', ih fun t' ht' => hx t' (List.mem_cons_of_mem _ ht'), hm']
      exact memset_of_not_inRange (hx t (List.mem_cons_self ..))

/-- Pages that lie apart from each other are cleared. -/
theorem zeroPages_of_mem {m : Mem} {ts : List Nat} {t x : Nat} (halign : ∀ t ∈ ts, t % 4096 = 0)
    (ht : t ∈ ts) (hx : InRange t PAGESIZE x) : zeroPages m ts x = 0 := by
  induction ts generalizing m with
  | nil => cases ht
  | cons t' ts ih =>
      obtain ⟨m', hm'⟩ : ∃ m', m' = memset m t' 0 PAGESIZE := ⟨_, rfl⟩
      rw [zeroPages_cons hm']
      by_cases hrest : t ∈ ts
      · exact ih (fun t ht => halign t (List.mem_cons_of_mem _ ht)) hrest
      · obtain rfl : t = t' := (List.mem_cons.1 ht).resolve_right hrest
        have hout : ∀ t₂ ∈ ts, ¬ InRange t₂ PAGESIZE x := by
          intro t₂ ht₂ hx₂
          have hsame := page_eq_of_inRange (halign t (List.mem_cons_self ..))
            (halign t₂ (List.mem_cons_of_mem _ ht₂)) hx hx₂
          exact hrest (hsame ▸ ht₂)
        rw [zeroPages_of_not_mem hout, hm']
        exact memset_of_inRange hx

/-! ## An empty address space -/

section Build

variable {m : Mem} {U : Tables}

/-- Five cleared and linked pages map nothing. -/
theorem not_mapped_linked (hU : U.Ok) (va : Nat) :
    Linked (linkTables (zeroPages m U.pages) U.l1 U.l2 U.l3 U.l4a U.l4b) U ∧
    ¬ Mapped (linkTables (zeroPages m U.pages) U.l1 U.l2 U.l3 U.l4a U.l4b) U.l1 va := by
  have hzero : ∀ t ∈ U.pages, ∀ i, i < 512 → entry (zeroPages m U.pages) t i = 0 := by
    intro t ht i hi
    rw [← entry_zero t i]
    apply entry_congr hi
    intro x hx
    exact zeroPages_of_mem hU.aligned ht hx
  have hlinked := linked_linkTables hU fun t ht => hzero t (U.upper_subset t ht)
  refine ⟨hlinked, ?_⟩
  rw [not_mapped, hlinked.lookup hU]
  cases hleaf : U.leafTable (page48 va) with
  | none => rfl
  | some t =>
      have hlt : page48 va % 512 < 512 := Nat.mod_lt _ (by decide)
      have hmem := Tables.leafTable_pages hleaf
      -- the links are in other pages than the last-level tables
      have hentry : entry (linkTables (zeroPages m U.pages) U.l1 U.l2 U.l3 U.l4a U.l4b) t
          (page48 va % 512) = 0 := by
        rw [← hzero t hmem _ hlt]
        apply entry_congr hlt
        intro x hx
        apply linkTables_other
        intro s hs hx'
        have hsame := page_eq_of_inRange (hU.aligned t hmem)
          (hU.aligned s (U.upper_subset s hs)) hx hx'
        have hnodup := hU.nodup
        simp only [Tables.pages, List.nodup_cons, List.mem_cons, List.not_mem_nil, or_false,
          not_or] at hnodup
        simp only [List.mem_cons, List.not_mem_nil, or_false] at hs
        rcases Tables.leafTable_mem hleaf with rfl | rfl
        · omega
        · omega
      simp only [hentry]
      rfl

/-- The kernel's memory is mapped to itself, the console for the user too, in an empty page table. -/
theorem lookup_built {m₁ low console : Mem} (hunmapped : ∀ va, ¬ Mapped m₁ U.l1 va)
    (hlow : MapsPages m₁ low U 0 0 (PTE_P ||| PTE_W) 256)
    (hconsole : MapsPages low console U 0xB8 CONSOLE_ADDR (PTE_P ||| PTE_W ||| PTE_U) 1) {va : Nat}
    (hva : va < 2 ^ 48) : virtualMemoryLookup console U.l1 va =
      if va < PROC_START_ADDR then lowMapping va else Vamapping.unmapped := by
  have hpage : page48 va = va / 4096 := by
    rw [page48]
    omega
  have hw : PTE_P ||| PTE_W = 3 := by decide
  have hwu : PTE_P ||| PTE_W ||| PTE_U = 7 := by decide
  rw [hconsole.lookup, hlow.lookup, hpage, not_mapped.1 (hunmapped va), hwu, hw]
  -- the console is mapped a second time, over the mapping of the whole low part
  by_cases hcon : va / 4096 = 0xB8
  · have hlowva : va < PROC_START_ADDR := by
      simp only [PROC_START_ADDR]
      omega
    have hpa : CONSOLE_ADDR + 4096 * (va / 4096 - 0xB8) + va % 4096 = va := by
      simp only [CONSOLE_ADDR]
      omega
    have hpn : CONSOLE_ADDR / 4096 + (va / 4096 - 0xB8) = va / 4096 := by
      simp only [CONSOLE_ADDR]
      omega
    rw [if_pos (by omega), if_pos hlowva, mappedTo, if_pos (by decide), hpa, hpn,
      lowMapping_console hcon]
  · rw [if_neg (by omega)]
    by_cases hlowva : va < PROC_START_ADDR
    · have hpage' : va / 4096 < 256 := by
        simp only [PROC_START_ADDR] at hlowva
        omega
      have hpa : 0 + 4096 * (va / 4096 - 0) + va % 4096 = va := by omega
      have hpn : 0 / 4096 + (va / 4096 - 0) = va / 4096 := by omega
      rw [if_pos (by omega), if_pos hlowva, mappedTo, if_pos (by decide), hpa, hpn,
        lowMapping_other hcon]
    · have hpage' : ¬ va / 4096 < 256 := by
        simp only [PROC_START_ADDR] at hlowva
        omega
      rw [if_neg (by omega), if_neg hlowva]

/-- What `process_config_tables` builds from five pages. -/
theorem emptySpace_built (hU : U.Ok) (hord : ∀ t ∈ U.pages, Ordinary (t / PAGESIZE)) :
    ∃ low console,
      virtualMemoryMap (linkTables (zeroPages m U.pages) U.l1 U.l2 U.l3 U.l4a U.l4b) U.l1 0 0
        PROC_START_ADDR (PTE_P ||| PTE_W) = .ok (low, 0) ∧
      virtualMemoryMap low U.l1 CONSOLE_ADDR CONSOLE_ADDR PAGESIZE (PTE_P ||| PTE_W ||| PTE_U) =
        .ok (console, 0) ∧
      Space console U ∧ (∀ va, PROC_START_ADDR ≤ va → va < 2 ^ 48 → ¬ Mapped console U.l1 va) ∧
      ∀ x, (∀ t ∈ U.pages, ¬ InRange t PAGESIZE x) → console x = m x := by
  have hlinked := (not_mapped_linked (m := m) hU 0).1
  have hunmapped := fun va => (not_mapped_linked (m := m) hU va).2
  have hother : ∀ x, (∀ t ∈ U.pages, ¬ InRange t PAGESIZE x) →
      linkTables (zeroPages m U.pages) U.l1 U.l2 U.l3 U.l4a U.l4b x = m x := by
    intro x hx
    rw [linkTables_other fun t ht => hx t (U.upper_subset t ht)]
    exact zeroPages_of_not_mem hx
  -- from here only what the linked tables map matters
  generalize linkTables (zeroPages m U.pages) U.l1 U.l2 U.l3 U.l4a U.l4b = m₁ at *
  obtain ⟨low, hlow, hmapsLow⟩ := hlinked.map_pages hU (i := 0) (n := 256) (by decide)
    (by decide : PTE_P ||| PTE_W < 4096) (by decide) (by decide : 0 % 4096 = 0) (by decide)
  obtain ⟨console, hconsole, hmapsConsole⟩ := hmapsLow.linked.map_pages hU (i := 0xB8) (n := 1)
    (by decide) (by decide : PTE_P ||| PTE_W ||| PTE_U < 4096) (by decide)
    (by decide : CONSOLE_ADDR % 4096 = 0) (by decide)
  have hlookup : ∀ va, va < 2 ^ 48 → virtualMemoryLookup console U.l1 va =
      if va < PROC_START_ADDR then lowMapping va else Vamapping.unmapped :=
    fun va hva => lookup_built hunmapped hmapsLow hmapsConsole hva
  have hnone : ∀ va, PROC_START_ADDR ≤ va → va < 2 ^ 48 → ¬ Mapped console U.l1 va := by
    intro va h1 h2
    rw [not_mapped, hlookup va h2, if_neg (Nat.not_lt.2 h1)]
  have huser : ∀ va, UserPart va → ¬ Mapped console U.l1 va := by
    intro va hva
    apply hnone va hva.1
    have := hva.2
    simp only [MEMSIZE_VIRTUAL] at this
    omega
  refine ⟨low, console, hlow, hconsole, ?_, hnone, ?_⟩
  · constructor
    · exact hU
    · exact hmapsConsole.linked
    · exact hord
    · intro va hva
      rw [hlookup va (Nat.lt_trans hva (by decide)), if_pos hva]
    · exact fun va hva hm => absurd hm (huser va hva)
    · intro va hva hlt
      apply hnone va _ hlt
      simp only [MEMSIZE_VIRTUAL, PROC_START_ADDR] at hva ⊢
      omega
    · exact fun va _ hva _ hm => absurd hm (huser va hva)
  · intro x hx
    have hl4a : U.l4a ∈ U.pages := U.l4a_mem
    have hl4b : U.l4b ∈ U.pages := U.l4b_mem
    rw [hmapsConsole.bytes x (hx _ hl4a) (hx _ hl4b), hmapsLow.bytes x (hx _ hl4a) (hx _ hl4b)]
    exact hother x hx

end Build

/-- A process with a page table of pages that were set aside comes in. -/
theorem Accounted.join {s s' : State} {A : Finset Nat} {T : Nat → Tables} {P : Finset Nat}
    (h : Accounted s A T P) {child : Nat} (hnew : child ∉ A) (hchild : 0 < child ∧ child < NPROC)
    {U : Tables} (hspace : Space s'.mem U)
    (hempty : ∀ va, UserPart va → ¬ Mapped s'.mem U.l1 va)
    (hheld : ∀ t ∈ U.pages, t / PAGESIZE ∈ P ∧ s.pageinfo (t / PAGESIZE) = ⟨child, 1⟩)
    (hbytes : ∀ x, (∀ t ∈ U.pages, ¬ InRange t PAGESIZE x) → s'.mem x = s.mem x)
    (hinfo : s'.pageinfo = s.pageinfo) (hroot : (s'.processes child).pagetable = U.l1)
    (hothers : ∀ j ∈ A, (s'.processes j).pagetable = (s.processes j).pagetable) :
    Accounted s' (insert child A) (Function.update T child U)
      (P.filter fun q => PAGESIZE * q ∉ U.pages) := by
  have hmem : Accounted { s with mem := s'.mem } A T P := by
    apply h.of_frames fun q => PAGESIZE * q ∈ U.pages
    · intro q hq
      have hq' : PAGESIZE * q / PAGESIZE = q := Nat.mul_div_cancel_left q (by decide)
      have hqP := (hheld _ hq).1
      rw [hq'] at hqP
      exact ⟨(h.aside q hqP).1, fun j hj => (uses_eq_zero.1 ((h.aside q hqP).2 j hj)).2⟩
    · intro x hx
      apply hbytes
      intro t ht hxt
      apply hx (t / PAGESIZE)
      · show PAGESIZE * (t / PAGESIZE) ∈ U.pages
        rw [page_mul_div (hspace.tables.aligned t ht)]
        exact ht
      · rw [page_mul_div (hspace.tables.aligned t ht)]
        exact hxt
  have hself : Function.update T child U child = U := Function.update_self ..
  have hother : ∀ j ∈ A, Function.update T child U j = T j := by
    intro j hj
    have hne : j ≠ child := fun e => hnew (e ▸ hj)
    exact Function.update_of_ne hne ..
  have hchildUses : ∀ q, uses s'.mem U q = if PAGESIZE * q ∈ U.pages then 1 else 0 := by
    intro q
    have hzero : references s'.mem U.l1 userPages q = 0 :=
      references_eq_zero.2 fun va hva hm => absurd hm (hempty va hva)
    rw [uses, hzero, Nat.zero_add]
  constructor
  · exact hmem.kernel
  · intro j hj
    rcases Finset.mem_insert.1 hj with rfl | hj
    · exact hchild
    · exact h.pids j hj
  · intro j hj
    rcases Finset.mem_insert.1 hj with rfl | hj
    · rw [hself, hroot]
    · rw [hother j hj, hothers j hj]
      exact h.root j hj
  · intro j hj
    rcases Finset.mem_insert.1 hj with rfl | hj
    · rw [hself]
      exact hspace
    · rw [hother j hj]
      exact hmem.space j hj
  · intro q hq
    obtain ⟨hqP, htable⟩ := Finset.mem_filter.1 hq
    refine ⟨(h.aside q hqP).1, fun j hj => ?_⟩
    rcases Finset.mem_insert.1 hj with rfl | hj
    · rw [hself, hchildUses, if_neg htable]
    · rw [hother j hj]
      exact (hmem.aside q hqP).2 j hj
  · intro q hq
    -- a page of the new page table was set aside before, and is used now
    have hinsert : refs s'.mem (insert child A) (Function.update T child U)
        (P.filter fun q => PAGESIZE * q ∉ U.pages) q =
        refs s'.mem A T (P.filter fun q => PAGESIZE * q ∉ U.pages) q + uses s'.mem U q := by
      rw [refs, refs, count_insert (u := fun j => uses s'.mem (T j)) hnew fun j hj => by rw [hother j hj],
        hself]
    have hsame : refs s'.mem A T (P.filter fun q => PAGESIZE * q ∉ U.pages) q + uses s'.mem U q =
        refs s'.mem A T P q := by
      rw [refs, refs, count, count, hchildUses]
      by_cases htable : PAGESIZE * q ∈ U.pages
      · have hqP := (hheld _ htable).1
        rw [Nat.mul_div_cancel_left q (by decide : 0 < PAGESIZE)] at hqP
        have hgone : q ∉ P.filter fun q => PAGESIZE * q ∉ U.pages := by
          rw [Finset.mem_filter]
          exact fun e => e.2 htable
        rw [if_neg hgone, if_pos htable, if_pos hqP]
      · rw [if_neg htable]
        simp only [Finset.mem_filter, htable, not_false_eq_true, and_true, Nat.add_zero]
    rw [hinsert, hsame, hinfo]
    exact hmem.counted q hq
  · rw [hinfo]
    exact h.free
  · intro j hj t ht
    rw [hinfo]
    rcases Finset.mem_insert.1 hj with rfl | hj
    · rw [hself] at ht
      exact (hheld t ht).2
    · rw [hother j hj] at ht
      exact h.tables j hj t ht
  · rw [hinfo]
    exact h.fixed

/-- The code once the five pages are there. -/
theorem processConfigTables_of {s s₁ : State} {child : Nat} {U : Tables}
    (h : pallocs child 5 s = (s₁, U.pages)) :
    processConfigTables s child =
      if NULL ∈ U.pages then
        .ok ({ s₁ with pageinfo := clearTables s₁.pageinfo U.pages }, -1)
      else (do
        let low ← virtualMemoryMap (linkTables (zeroPages s₁.mem U.pages) U.l1 U.l2 U.l3 U.l4a U.l4b)
          U.l1 0 0 PROC_START_ADDR (PTE_P ||| PTE_W)
        if low.2 ≠ 0 then
          .ok ({ s₁ with pageinfo := clearTables s₁.pageinfo U.pages, mem := low.1 }, -1)
        else do
          let console ← virtualMemoryMap low.1 U.l1 CONSOLE_ADDR CONSOLE_ADDR PAGESIZE
            (PTE_P ||| PTE_W ||| PTE_U)
          if console.2 ≠ 0 then
            .ok ({ s₁ with pageinfo := clearTables s₁.pageinfo U.pages, mem := console.1 }, -1)
          else
            .ok ({ s₁.setProc child { s₁.processes child with pagetable := U.l1 } with
              mem := console.1 }, 0)) := by
  cases U
  simp only [pallocs, Tables.pages, Prod.mk.injEq, List.cons.injEq, and_true] at h
  obtain ⟨rfl, rfl, rfl, rfl, rfl, rfl⟩ := h
  rfl

/-- `process_config_tables(child)` has given the child the empty address space `U`. -/
structure Configured (s s' : State) (A : Finset Nat) (T : Nat → Tables) (child : Nat) (U : Tables) :
    Prop where
  accounted : Accounted s' (insert child A) (Function.update T child U) ∅
  empty : ∀ va, UserPart va → ¬ Mapped s'.mem U.l1 va
  only : OnlyPages (s.setProc child { s.processes child with pagetable := U.l1 }) s'
  info : ∀ q, s'.pageinfo q = s.pageinfo q ∨
    s.pageinfo q = ⟨PO_FREE, 0⟩ ∧ s'.pageinfo q = ⟨child, 1⟩
  taken : s'.pageinfo = (pallocs child 5 s).1.pageinfo
  others : ∀ j ∈ A, ∀ va, virtualMemoryLookup s'.mem (T j).l1 va = virtualMemoryLookup s.mem (T j).l1 va

/-- Without a free page for each table nothing is left changed. -/
structure NotConfigured (s s' : State) (A : Finset Nat) (T : Nat → Tables) (child : Nat) : Prop where
  accounted : Accounted s' A T ∅
  only : OnlyPages s s'
  info : s'.pageinfo = s.pageinfo
  missing : NULL ∈ (pallocs child 5 s).2

theorem processConfigTables_spec {s : State} {A : Finset Nat} {T : Nat → Tables}
    (h : Accounted s A T ∅) {child : Nat} (hnew : child ∉ A) (hchild : 0 < child ∧ child < NPROC) :
    (∃ s', processConfigTables s child = .ok (s', -1) ∧ NotConfigured s s' A T child) ∨
    ∃ s' U, processConfigTables s child = .ok (s', 0) ∧ Configured s s' A T child U := by
  obtain ⟨held, -, htaken, hacc⟩ := h.pallocs hchild 5
  rw [Finset.empty_union] at hacc
  obtain ⟨U, hU⟩ : ∃ U : Tables, (pallocs child 5 s).2 = U.pages :=
    ⟨⟨(palloc s child).2, (palloc (palloc s child).1 child).2,
      (palloc (palloc (palloc s child).1 child).1 child).2,
      (palloc (palloc (palloc (palloc s child).1 child).1 child).1 child).2,
      (palloc (palloc (palloc (palloc (palloc s child).1 child).1 child).1 child).1 child).2⟩, rfl⟩
  have hlt : ∀ t ∈ U.pages, t < MEMSIZE_PHYSICAL := by
    intro t ht
    by_cases h0 : t = 0
    · rw [h0]
      decide
    · have halign := htaken.aligned t (by rw [hU]; exact ht)
      have hq : t / PAGESIZE ∈ held := by
        rw [htaken.held_iff, page_mul_div halign, hU]
        refine ⟨?_, ht⟩
        simp only [PAGESIZE]
        omega
      have := (hacc.aside _ hq).1.lt
      simp only [PAGESIZE, MEMSIZE_PHYSICAL] at this ⊢
      omega
  have halign : ∀ t ∈ U.pages, t % 4096 = 0 := fun t ht => htaken.aligned t (by rw [hU]; exact ht)
  obtain ⟨s₁, hs₁⟩ : ∃ s₁, (pallocs child 5 s).1 = s₁ := ⟨_, rfl⟩
  have hcode := processConfigTables_of (Prod.ext hs₁ hU : pallocs child 5 s = (s₁, U.pages))
  rw [hs₁] at hacc
  rw [hs₁, hU] at htaken
  by_cases hnull : NULL ∈ U.pages
  · left
    rw [if_pos hnull] at hcode
    have hinfo : clearTables s₁.pageinfo U.pages = s.pageinfo := by
      funext q
      rw [clearTables_apply halign hlt, htaken.info]
      by_cases hq : q ∈ held
      · rw [if_pos ((htaken.held_iff q).1 hq), htaken.wasFree q hq]
      · rw [if_neg fun e => hq ((htaken.held_iff q).2 e), if_neg hq]
    refine ⟨_, hcode, ?_, htaken.only.trans (OnlyPages.of_update s₁ _ _), hinfo, ?_⟩
    · have hmem : Accounted { s with mem := s₁.mem } A T ∅ := by
        apply h.of_frames fun q => q ∈ held
        · intro q hq
          obtain ⟨hunused, -⟩ := h.unused (hacc.aside q hq).1 (by rw [htaken.wasFree q hq])
          exact ⟨(hacc.aside q hq).1, fun j hj => (uses_eq_zero.1 (hunused j hj)).2⟩
        · exact htaken.bytes
      refine hmem.of_eq rfl hinfo fun j _ => ?_
      show (s₁.processes j).pagetable = _
      rw [htaken.only.processes]
    · rw [hU]
      exact hnull
  · right
    rw [if_neg hnull] at hcode
    have hnonnull : ∀ t ∈ U.pages, t ≠ NULL := fun t ht e => hnull (e ▸ ht)
    have hheldU : ∀ t ∈ U.pages, t / PAGESIZE ∈ held := by
      intro t ht
      rw [htaken.held_iff, page_mul_div (halign t ht)]
      refine ⟨?_, ht⟩
      have h0 := hnonnull t ht
      have h1 := halign t ht
      simp only [PAGESIZE, NULL] at h0 ⊢
      omega
    have hUok : U.Ok := by
      refine ⟨halign, hnonnull, hlt, ?_⟩
      have hdistinct := htaken.distinct
      rwa [List.filter_eq_self.2 fun t ht => by simpa using hnonnull t ht] at hdistinct
    have hord : ∀ t ∈ U.pages, Ordinary (t / PAGESIZE) :=
      fun t ht => (hacc.aside _ (hheldU t ht)).1
    obtain ⟨low, console, hlow, hconsole, hspace, hempty, hbytes⟩ :=
      emptySpace_built (m := s₁.mem) hUok hord
    obtain ⟨s₂, hs₂⟩ : ∃ s₂ : State, s₂ = { s₁.setProc child { s₁.processes child with
        pagetable := U.l1 } with mem := console } := ⟨_, rfl⟩
    have hcode₂ : processConfigTables s child = .ok (s₂, 0) := by
      rw [hcode, hlow, hs₂]
      simp only [bind, Except.bind, ne_eq, not_true_eq_false, if_false, hconsole]
    have hmem : s₂.mem = console := by rw [hs₂]
    have hinfo : s₂.pageinfo = s₁.pageinfo := by rw [hs₂]; rfl
    have hself : s₂.processes child = { s₁.processes child with pagetable := U.l1 } := by
      rw [hs₂]
      exact State.setProc_self ..
    have hother : ∀ j ∈ A, s₂.processes j = s₁.processes j := by
      intro j hj
      have hne : j ≠ child := fun e => hnew (e ▸ hj)
      rw [hs₂]
      exact State.setProc_other s₁ _ hne
    have huser : ∀ va, UserPart va → ¬ Mapped s₂.mem U.l1 va := by
      intro va hva
      rw [hmem]
      exact hempty va hva.1 (Nat.lt_trans hva.2 (by decide))
    refine ⟨s₂, U, hcode₂, ?_, huser, ?_, ?_, ?_, ?_⟩
    · have hjoin : Accounted s₂ (insert child A) (Function.update T child U)
          (held.filter fun q => PAGESIZE * q ∉ U.pages) := by
        refine hacc.join hnew hchild (hmem ▸ hspace) huser (fun t ht => ⟨hheldU t ht, ?_⟩)
          (fun x hx => ?_) hinfo ?_ fun j hj => ?_
        · rw [htaken.info, if_pos (hheldU t ht)]
        · rw [hmem]
          exact hbytes x hx
        · rw [hself]
        · rw [hother j hj]
      have hnone : held.filter (fun q => PAGESIZE * q ∉ U.pages) = ∅ := by
        rw [Finset.filter_eq_empty_iff]
        intro q hq
        exact not_not.2 ((htaken.held_iff q).1 hq).2
      rw [hnone] at hjoin
      exact hjoin
    · rw [hs₂]
      refine ⟨?_, htaken.only.current, htaken.only.ticks, htaken.only.dispGlobal,
        htaken.only.lastTicks, htaken.only.showing⟩
      show Function.update s₁.processes child _ = Function.update s.processes child _
      rw [htaken.only.processes]
    · intro q
      rw [hinfo, htaken.info]
      by_cases hq : q ∈ held
      · rw [if_pos hq]
        exact Or.inr ⟨htaken.wasFree q hq, rfl⟩
      · rw [if_neg hq]
        exact Or.inl rfl
    · rw [hinfo, hs₁]
    · intro j hj va
      have hj' := h.space j hj
      apply hj'.linked.lookup_congr hj'.tables
      intro t ht x hx
      -- the pages that were taken are in no page table
      have hapart : ∀ q ∈ held, ¬ InRange (PAGESIZE * q) PAGESIZE x := by
        intro q hq hx'
        have hzero := (uses_eq_zero.1 ((hacc.aside q hq).2 j hj)).2
        apply hzero
        rw [← page_eq_of_inRange (hj'.tables.aligned t ht) (Nat.mul_mod_right PAGESIZE q) hx hx']
        exact ht
      rw [hmem, hbytes x, htaken.bytes x hapart]
      intro t' ht' hx'
      apply hapart _ (hheldU t' ht')
      rw [page_mul_div (halign t' ht')]
      exact hx'

end MemoryManagement.Kernel
