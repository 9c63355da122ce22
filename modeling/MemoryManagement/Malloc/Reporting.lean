import MemoryManagement.Malloc.Coalescing
import MemoryManagement.Malloc.Realloc

/-!
# What `heap_info` reports, and what a failed call leaves

`heap_info` counts the allocated blocks, adds up the free ones, allocates two arrays and lists the
allocated blocks in them, largest first, without the arrays. The listing is always that of the alloc
list (`heap_info_exact_iff`). It is that of the live allocations exactly as long as the program holds a
pointer to every allocated block, and a call that fails can end that: when the second array is refused,
the first one stays allocated and nobody has its pointer (`failed_call_traceless_iff`).
-/

set_option autoImplicit false

namespace MemoryManagement.Malloc

open MemoryManagement.Library.ByteMemory
open MemoryManagement.Library.DoublyLinked
open MemoryManagement.Library.Tiling

/-- The kernel's limit on addresses of a process. -/
abbrev MEMSIZE_VIRTUAL : Nat := 0x300000

/-! ## The statistics -/

/-- As long as the sum fits an `int`, the loop computes the sum and the maximum. -/
theorem foldl_addStat {t l : Nat} {bs : List Span} (hfit : t + total bs < 2 ^ 31) (hl : l < 2 ^ 31) :
    bs.foldl addStat ((t : Int), (l : Int)) = (((t + total bs : Nat) : Int), ((max l (largest bs) : Nat) : Int)) := by
  induction bs generalizing t l with
  | nil => simp
  | cons b bs ih =>
      rw [total_cons] at hfit
      have hsum : toInt32 ((t : Int) + b.len) = ((t + b.len : Nat) : Int) := by
        rw [← Int.natCast_add, toInt32_of_small (by omega)]
      have hmax : (if (l : Int) ≤ toInt32 b.len then toInt32 b.len else l) = ((max l b.len : Nat) : Int) := by
        rw [toInt32_of_small (by omega)]
        split
        · rename_i hle
          rw [Nat.max_eq_right (Int.ofNat_le.1 hle)]
        · rename_i hgt
          rw [Nat.max_eq_left (by omega)]
      rw [List.foldl_cons, addStat, hsum, hmax, ih (by omega) (by omega), total_cons, largest_cons,
        Nat.add_assoc, Nat.max_assoc]

/-! ## The arrays -/

/-- What the two arrays hold afterwards. -/
theorem writeEntries_words {S P i k : Nat} {m : Mem} {bs : List Alloc}
    (hdisjoint : DisjointRange S (8 * k) P (8 * k)) (hfit : i + bs.length ≤ k)
    (hlt : ∀ b ∈ bs, b.bytes < 2 ^ 64 ∧ b.addr + HEADER < 2 ^ 64) :
    ∀ j (hj : j < bs.length), loadLE (writeEntries S P m i bs) (S + 8 * (i + j)) 8 = bs[j].bytes ∧
      loadLE (writeEntries S P m i bs) (P + 8 * (i + j)) 8 = bs[j].addr + HEADER := by
  induction bs generalizing m i with
  | nil => exact fun j hj => absurd hj (Nat.not_lt_zero j)
  | cons b bs ih =>
      rw [List.length_cons] at hfit
      intro j hj
      rw [writeEntries]
      cases j with
      | zero =>
          obtain ⟨hbytes, haddr⟩ := hlt b (by simp)
          -- the entries that follow do not reach back to index `i`
          have hkept : ∀ m₁ x, InRange (S + 8 * i) 8 x ∨ InRange (P + 8 * i) 8 x →
              writeEntries S P m₁ (i + 1) bs x = m₁ x := by
            intro m₁ x hx
            apply writeEntries_of_not_inRange
            · omega
            · omega
          have hsize : ∀ m₁, loadLE (writeEntries S P m₁ (i + 1) bs) (S + 8 * i) 8 =
              loadLE m₁ (S + 8 * i) 8 := fun m₁ => loadLE_congr fun x hx => hkept m₁ x (Or.inl hx)
          have hptr : ∀ m₁, loadLE (writeEntries S P m₁ (i + 1) bs) (P + 8 * i) 8 =
              loadLE m₁ (P + 8 * i) 8 := fun m₁ => loadLE_congr fun x hx => hkept m₁ x (Or.inr hx)
          constructor
          · rw [Nat.add_zero i, hsize, loadLE_storeLE_disjoint (by omega), loadLE_storeLE_same]
            exact Nat.mod_eq_of_lt hbytes
          · rw [Nat.add_zero i, hptr, loadLE_storeLE_same]
            exact Nat.mod_eq_of_lt haddr
      | succ j =>
          rw [List.length_cons] at hj
          have hfit' : i + 1 + bs.length ≤ k := by omega
          have hindex : i + 1 + j = i + (j + 1) := by omega
          rw [← hindex]
          exact ih hfit' (fun c hc => hlt c (List.mem_cons_of_mem _ hc)) j (by omega)

/-- The listing that `heap_info` leaves in its arrays: pointers with sizes. -/
def HeapInfoStruct.listing (info : HeapInfoStruct) (m : Mem) : List (Nat × Nat) :=
  (words m info.ptrArray info.numAllocs.toNat).zip (words m info.sizeArray info.numAllocs.toNat)

/-- The two arrays have been allocated one after the other, do not overlap, and nothing but their first
`8 * num_allocs` bytes has been written since. -/
structure ArraysOnly (s s₂ s' : Heap) (info : HeapInfoStruct) : Prop where
  allocated : ∃ s₁, malloc s (8 * info.numAllocs.toNat) = some (s₁, info.sizeArray) ∧
    malloc s₁ (8 * info.numAllocs.toNat) = some (s₂, info.ptrArray)
  nonnull : info.sizeArray ≠ NULL ∧ info.ptrArray ≠ NULL
  sizeRoom : HEADER + 8 * info.numAllocs.toNat ≤ field s₂.mem (info.sizeArray - HEADER) .size
  ptrRoom : HEADER + 8 * info.numAllocs.toNat ≤ field s₂.mem (info.ptrArray - HEADER) .size
  disjoint : DisjointRange info.sizeArray (8 * info.numAllocs.toNat) info.ptrArray
    (8 * info.numAllocs.toNat)
  same : s' = { s₂ with mem := s'.mem }
  inside : ∀ x, ¬ InRange info.sizeArray (8 * info.numAllocs.toNat) x →
    ¬ InRange info.ptrArray (8 * info.numAllocs.toNat) x → s'.mem x = s₂.mem x

/-- `heap_info` has led from `s`, with free blocks `bs`, to `s'` and reports the allocations `live`. -/
structure Reported (s s' : Heap) (info : HeapInfoStruct) (bs : List Span) (live : List (Nat × Nat)) :
    Prop where
  count : info.numAllocs = live.length
  none : live = [] → s' = s ∧ info.sizeArray = NULL ∧ info.ptrArray = NULL
  arrays : live ≠ [] → ∃ s₂, ArraysOnly s s₂ s' info
  listed : (info.listing s'.mem).Perm live
  sorted : (words s'.mem info.sizeArray info.numAllocs.toNat).Pairwise fun n k => k ≤ n
  fits : total bs < 2 ^ 31
  freeSpace : info.freeSpace = total bs
  largestFreeChunk : info.largestFreeChunk = largest bs

theorem Reported.congr {s s' : Heap} {info : HeapInfoStruct} {bs : List Span} {live live' : List (Nat × Nat)}
    (h : Reported s s' info bs live) (hperm : live.Perm live') : Reported s s' info bs live' := by
  have hnil : live' = [] → live = [] := fun e => by
    rw [e] at hperm
    exact hperm.eq_nil
  refine ⟨?_, fun e => h.none (hnil e), fun hne => h.arrays fun e => hne ?_, h.listed.trans hperm,
    h.sorted, h.fits, h.freeSpace, h.largestFreeChunk⟩
  · rw [h.count, hperm.length_eq]
  · rw [e] at hperm
    exact hperm.symm.eq_nil

section Report

variable {b0 : Nat} {s : Heap} {a : Layout}

theorem Layout.Inv.total_free_le (hinv : a.Inv b0) : total a.free ≤ a.brk.current := by
  have h := hinv.tiled.total_eq
  rw [Layout.spans, total_append] at h
  omega

/-- `heap_info` reports the blocks of the alloc list. -/
theorem Rep.heapInfo_reported (h : Rep s a) (hinv : a.Inv b0) (hlimit : s.brk.current < MEMSIZE_VIRTUAL)
    {info info' : HeapInfoStruct} {s' : Heap} (hrun : heapInfo s info = some (s', info', 0)) :
    Reported s s' info' a.free (a.alloc.map Alloc.entry) := by
  rw [h.brk] at hlimit
  have htotal := hinv.total_free_le
  have hfits : total a.free < 2 ^ 31 := by
    simp only [MEMSIZE_VIRTUAL] at hlimit
    omega
  have hstats : a.free.foldl addStat (0, 0) = ((total a.free : Int), (largest a.free : Int)) := by
    have hfit : 0 + total a.free < 2 ^ 31 := by omega
    have hfold := foldl_addStat hfit (Nat.two_pow_pos 31)
    rw [Nat.zero_add, Nat.max_eq_right (Nat.zero_le _)] at hfold
    exact hfold
  have hcount : a.alloc.length < 2 ^ 31 := hinv.count_lt (by
    simp only [MEMSIZE_VIRTUAL] at hlimit
    omega)
  have hspace : (reportOf a info).freeSpace = total a.free := by
    rw [reportOf, hstats]
  have hchunk : (reportOf a info).largestFreeChunk = largest a.free := by
    rw [reportOf, hstats]
  cases h.heapInfo_run hinv hcount info with
  | empty hempty hcode =>
      rw [hrun, Option.some.injEq, Prod.mk.injEq, Prod.mk.injEq] at hcode
      obtain ⟨rfl, rfl, -⟩ := hcode
      have hzero : (reportOf a info).numAllocs.toNat = 0 := by
        rw [reportOf, hempty]
        rfl
      refine ⟨?_, fun _ => ⟨rfl, rfl, rfl⟩, fun hne => ?_, ?_, ?_, hfits, hspace, hchunk⟩
      · rw [List.length_map]
        rfl
      · rw [hempty] at hne
        exact absurd rfl hne
      · rw [hempty, HeapInfoStruct.listing, hzero]
        exact List.Perm.refl _
      · rw [hzero]
        exact List.Pairwise.nil
  | firstRefused hsome s₁ hnull hmalloc heffect hcode =>
      rw [hrun, Option.some.injEq, Prod.mk.injEq, Prod.mk.injEq] at hcode
      exact absurd hcode.2.2 (by decide)
  | secondRefused hsome s₁ s₂ a₁ c hfirst heffect hbytes hnull hsecond heffect₂ hcode =>
      rw [hrun, Option.some.injEq, Prod.mk.injEq, Prod.mk.injEq] at hcode
      exact absurd hcode.2.2 (by decide)
  | filled hsome s₁ s₂ a₂ c d hfirst hsecond e hcbytes hdbytes m hm hcode =>
      rw [hrun, Option.some.injEq, Prod.mk.injEq, Prod.mk.injEq] at hcode
      obtain ⟨rfl, rfl, -⟩ := hcode
      have hcm := e.fresh_mem c (by simp)
      have hdm := e.fresh_mem d (by simp)
      have hcfit := (e.inv.fits c hcm).1
      have hdfit := (e.inv.fits d hdm).1
      rw [hcbytes, arrayBytes] at hcfit
      rw [hdbytes, arrayBytes] at hdfit
      -- two blocks, so the payloads are apart
      have hdisjoint : DisjointRange (c.addr + HEADER) (8 * a.alloc.length) (d.addr + HEADER)
          (8 * a.alloc.length) := by
        have hne : c ≠ d := by
          have hnodup : ([d, c] ++ a.alloc).Nodup := e.alloc.nodup_iff.2 e.inv.alloc_nodup
          intro hcd
          rw [hcd] at hnodup
          exact (List.nodup_cons.1 hnodup).1 (by simp)
        have hap := e.inv.alloc_apart hcm hdm hne
        simp only [Span.Apart, Alloc.span] at hap
        simp only [HEADER] at hcfit hdfit ⊢
        omega
      obtain ⟨others, hothers⟩ : ∃ others, others = a₂.alloc.filter fun b =>
          b.addr ≠ c.addr ∧ b.addr ≠ d.addr := ⟨_, rfl⟩
      have hperm : others.Perm a.alloc := by
        rw [hothers]
        exact e.others
      have hlength := hperm.length_eq
      have hlt : ∀ b ∈ others, b.bytes < 2 ^ 64 ∧ b.addr + HEADER < 2 ^ 64 := by
        intro b hb
        rw [hothers] at hb
        have hbm := (List.mem_filter.1 hb).1
        have hbounds := e.inv.bounds (Layout.Inv.mem_alloc hbm)
        have hfit := (e.inv.fits b hbm).1
        simp only [Alloc.span] at hbounds
        omega
      have hwords := writeEntries_words (m := s₂.mem) (i := 0) hdisjoint (by omega) hlt
      rw [← hothers] at hm
      have hsizes : words m (c.addr + HEADER) a.alloc.length = others.map Alloc.bytes := by
        rw [← hlength, ← List.length_map (f := Alloc.bytes)]
        apply words_eq
        intro i hi
        rw [List.length_map] at hi
        rw [hm, List.getElem_map, ← (hwords i hi).1, Nat.zero_add]
      have hpointers : words m (d.addr + HEADER) a.alloc.length =
          others.map fun b => b.addr + HEADER := by
        rw [← hlength, ← List.length_map (f := fun b : Alloc => b.addr + HEADER)]
        apply words_eq
        intro i hi
        rw [List.length_map] at hi
        rw [hm, List.getElem_map, ← (hwords i hi).2, Nat.zero_add]
      refine ⟨?_, fun hnone => ?_, fun _ => ⟨s₂, ?_⟩, ?_, ?_, hfits, hspace, hchunk⟩
      · rw [List.length_map]
        rfl
      · exact absurd (List.map_eq_nil_iff.1 hnone) hsome
      · constructor
        · exact ⟨s₁, hfirst, hsecond⟩
        · exact ⟨Nat.succ_ne_zero _, Nat.succ_ne_zero _⟩
        · show HEADER + 8 * a.alloc.length ≤ field s₂.mem (c.addr + HEADER - HEADER) .size
          rw [Nat.add_sub_cancel, e.rep.allocSize c hcm]
          exact hcfit
        · show HEADER + 8 * a.alloc.length ≤ field s₂.mem (d.addr + HEADER - HEADER) .size
          rw [Nat.add_sub_cancel, e.rep.allocSize d hdm]
          exact hdfit
        · exact hdisjoint
        · rfl
        · intro x hx hx'
          show m x = s₂.mem x
          rw [hm]
          apply writeEntries_of_not_inRange
          · rw [hlength]
            exact hx
          · rw [hlength]
            exact hx'
      · show ((words m (d.addr + HEADER) a.alloc.length).zip
          (words m (c.addr + HEADER) a.alloc.length)).Perm (a.alloc.map Alloc.entry)
        rw [hsizes, hpointers, List.zip_map']
        exact hperm.map Alloc.entry
      · show (words m (c.addr + HEADER) a.alloc.length).Pairwise _
        rw [hsizes, hothers]
        exact List.pairwise_map.2 (e.inv.allocSorted.sublist List.filter_sublist)

end Report

/-- The program holds the pointer of every block on the alloc list. -/
def NoneLeaked (st : Session) : Prop :=
  ∃ as, Chain NULL (field st.heap.mem · .next) st.heap.allocList.head as ∧
    ∀ p ∈ as, ∃ n, (p + HEADER, n) ∈ st.live

section Leaks

variable {b0 : Nat} {st : Session} {a : Layout}

/-- Without leaks the live allocations are the allocated blocks. -/
theorem Session.Inv.live_perm (h : st.Inv b0 a) (hnone : NoneLeaked st) :
    (a.alloc.map Alloc.entry).Perm st.live := by
  obtain ⟨as, hchain, hheld⟩ := hnone
  rw [h.rep.walks.alloc.unique hchain |>.symm] at hheld
  have hnodup : (a.alloc.map Alloc.entry).Nodup := by
    refine List.Nodup.map_on (fun b hb c hc e => ?_) h.inv.alloc_nodup
    have haddr : b.addr + HEADER = c.addr + HEADER := congrArg Prod.fst e
    exact h.inv.eq_of_addr hb hc (Nat.add_right_cancel haddr)
  rw [List.perm_ext_iff_of_nodup hnodup (h.distinct.of_map _)]
  intro e
  constructor
  · intro he
    obtain ⟨b, hb, rfl⟩ := List.mem_map.1 he
    obtain ⟨n, hn⟩ := hheld b.addr (List.mem_map_of_mem hb)
    obtain ⟨c, hc, haddr, rfl⟩ := h.block_of_live hn
    rw [h.inv.eq_of_addr hb hc (Nat.add_right_cancel haddr)] at hn ⊢
    exact hn
  · intro he
    obtain ⟨b, hb, rfl⟩ := h.live e he
    exact List.mem_map_of_mem hb

theorem Session.Inv.noneLeaked (h : st.Inv b0 a) (hlive : (a.alloc.map Alloc.entry).Perm st.live) :
    NoneLeaked st := by
  refine ⟨_, h.rep.walks.alloc, fun p hp => ?_⟩
  obtain ⟨b, hb, rfl⟩ := List.mem_map.1 hp
  exact ⟨b.bytes, hlive.mem_iff.1 (List.mem_map_of_mem hb)⟩

end Leaks

/-- In every reachable state below the kernel's limit, when `heap_info` returns 0, it reports the blocks
of the alloc list exactly; these are the live allocations if and only if nothing has leaked. -/
theorem heap_info_exact_iff {brk : Break} (hbrk : HeapStart brk) {st : Session} (h : Reachable brk st)
    (hlimit : st.heap.brk.current < MEMSIZE_VIRTUAL) {info info' : HeapInfoStruct} {s' : Heap}
    (hrun : heapInfo st.heap info = some (s', info', 0)) :
    ∃ bs es, FreeBlocks st.heap bs ∧ Allocations st.heap es ∧ (∀ e ∈ st.live, e ∈ es) ∧
      Reported st.heap s' info' bs es ∧
      (Reported st.heap s' info' bs st.live ↔ NoneLeaked st) := by
  obtain ⟨a, ha⟩ := h.inv hbrk
  have hreport := ha.rep.heapInfo_reported ha.inv hlimit hrun
  refine ⟨a.free, _, ha.rep.freeBlocks, ha.rep.allocations, fun e he => ?_, hreport, fun hlive => ?_,
    fun hnone => hreport.congr (ha.live_perm hnone)⟩
  · obtain ⟨b, hb, rfl⟩ := ha.live e he
    exact List.mem_map_of_mem hb
  · exact ha.noneLeaked (hreport.listed.symm.trans hlive.listed)

/-- `sbrk` answers the first call only. -/
def grantOnce (b0 : Nat) : Break := ⟨b0, fun i => i = 0, []⟩

theorem heap_info_exact_iff_example :
    ∃ st s' info', ∃ bs es, (Session.start (fun _ => 0) (grantAll 0x103000)).run [.malloc 24] = some st ∧
      heapInfo st.heap blankInfo = some (s', info', 0) ∧ FreeBlocks st.heap bs ∧
      Allocations st.heap es ∧ Reported st.heap s' info' bs es ∧
      (Reported st.heap s' info' bs st.live ↔ NoneLeaked st) := by
  have hbrk : HeapStart (grantAll 0x103000) := ⟨by decide, by decide, by decide⟩
  have hview : ((Session.start (fun _ => 0) (grantAll 0x103000)).run [.malloc 24]).bind (fun st =>
      (heapInfo st.heap blankInfo).map fun r => (st.heap.brk.current, r.2.2)) = some (0x107000, 0) := by
    decide +kernel
  obtain ⟨st, hrun, hreach⟩ := (Reachable.start (fun _ => 0)).run hbrk [.malloc 24]
    ⟨(by decide : 24 < 2 ^ 62), fun _ _ => trivial⟩
  rw [hrun, Option.bind_some, Option.map_eq_some_iff] at hview
  obtain ⟨⟨s', info', r⟩, hcode, hpair⟩ := hview
  rw [Prod.mk.injEq] at hpair
  obtain ⟨hcur, rfl⟩ := hpair
  have hlimit : st.heap.brk.current < MEMSIZE_VIRTUAL := by
    rw [hcur]
    decide
  obtain ⟨bs, es, hfree, halloc, -, hreport, hiff⟩ := heap_info_exact_iff hbrk hreach hlimit hcode
  exact ⟨st, s', info', bs, es, hrun, hcode, hfree, halloc, hreport, hiff⟩

/-- After a `heap_info` that failed at its second array, and with nothing live any more, the next
`heap_info` still reports an allocation. -/
theorem heap_info_reports_leak :
    ¬ ∀ (brk : Break) (st : Session) (info info' : HeapInfoStruct) (s' : Heap), HeapStart brk →
      Reachable brk st → st.heap.brk.current < MEMSIZE_VIRTUAL →
      heapInfo st.heap info = some (s', info', 0) → info'.numAllocs = st.live.length := by
  intro hall
  have hbrk : HeapStart (grantOnce 0x103000) := ⟨by decide, by decide, by decide⟩
  have hlive : ((Session.start (fun _ => 0) (grantOnce 0x103000)).run
      [.malloc 16280, .heapInfo blankInfo]).map (·.live) = some [(0x103020, 16280)] := by
    decide +kernel
  have hview : ((Session.start (fun _ => 0) (grantOnce 0x103000)).run
      [.malloc 16280, .heapInfo blankInfo]).bind (fun st => (st.step (.free 0x103020)).bind fun st =>
        (heapInfo st.heap blankInfo).map fun r =>
          (st.heap.brk.current, st.live.length, r.2.1.numAllocs, r.2.2)) =
      some (0x107000, 0, 1, 0) := by
    decide +kernel
  have hlegal : (Session.start (fun _ => 0) (grantOnce 0x103000)).Legal (.malloc 16280) :=
    (by decide : 16280 < 2 ^ 62)
  have hbreak : ((Session.start (fun _ => 0) (grantOnce 0x103000)).step (.malloc 16280)).map (·.heap.brk.current) =
      some 0x107000 := by
    decide +kernel
  obtain ⟨st, hrun, hreach⟩ := (Reachable.start (fun _ => 0)).run hbrk [.malloc 16280, .heapInfo blankInfo]
    ⟨hlegal, fun st₁ hstep => ⟨((Reachable.start _).step hlegal hstep).countFits hbrk (by
      rw [hstep, Option.map_some, Option.some.injEq] at hbreak
      rw [hbreak]
      decide), fun _ _ => trivial⟩⟩
  rw [hrun, Option.map_some, Option.some.injEq] at hlive
  rw [hrun, Option.bind_some, Option.bind_eq_some_iff] at hview
  obtain ⟨st₁, hstep, hview⟩ := hview
  have hlegal : st.Legal (.free 0x103020) := Or.inr ⟨16280, by rw [hlive]; simp⟩
  have hreach₁ := hreach.step hlegal hstep
  rw [Option.map_eq_some_iff] at hview
  obtain ⟨⟨s', info', r⟩, hcode, hpair⟩ := hview
  simp only [Prod.mk.injEq] at hpair
  obtain ⟨hcur, hlen, hnum, rfl⟩ := hpair
  have hbad := hall _ _ _ _ _ hbrk hreach₁ (by rw [hcur]; decide) hcode
  rw [hnum, hlen] at hbad
  exact absurd hbad (by decide)

/-! ## Failed calls -/

/-- A call has left both lists and all live payloads as they were. -/
structure NoTrace (st : Session) (s' : Heap) : Prop where
  lists : ∃ fs as, SameLists st.heap s' fs as
  payloads : ∀ e ∈ st.live, ∀ x, InRange e.1 e.2 x → s'.mem x = st.heap.mem x

/-- No free block has room for `n` bytes, and `sbrk` refuses to grow the heap for them. -/
def Exhausted (s : Heap) (n : Nat) : Prop :=
  (∃ bs, FreeBlocks s bs ∧ ∀ b ∈ bs, b.len < required n) ∧ (Malloc.sbrk s.brk (chunk n)).2 = minusOne

section Failure

variable {b0 : Nat} {s : Heap} {a : Layout}

/-- A heap in which only the break has been asked for is as good as the old one. -/
theorem Session.Inv.noTrace {st : Session} (h : st.Inv b0 a) (b : Break) :
    NoTrace st { st.heap with brk := b } := by
  refine ⟨⟨_, _, h.rep.walks, ⟨h.rep.walks.free, h.rep.walks.alloc⟩, rfl, rfl, ?_, ?_⟩, ?_⟩
  · exact fun _ _ _ _ => rfl
  · exact fun _ _ _ => rfl
  · exact fun _ _ _ _ => rfl

/-- A `malloc` that returns `NULL` leaves no trace. -/
theorem Session.Inv.malloc_noTrace {st : Session} (h : st.Inv b0 a) {n : Nat} (hn : n < 2 ^ 62)
    {s' : Heap} (hrun : malloc st.heap n = some (s', NULL)) : NoTrace st s' := by
  obtain ⟨s₁, hcode, -⟩ := h.rep.malloc h.inv (a.servable_of_lt hn)
  rw [hrun, Option.some.injEq, Prod.mk.injEq] at hcode
  obtain ⟨b, hcode', -⟩ := h.rep.malloc_null h.inv hcode.2.symm
  rw [hrun, Option.some.injEq, Prod.mk.injEq] at hcode'
  rw [hcode'.1]
  exact h.noTrace b

/-- A `calloc` that returns `NULL` leaves no trace. -/
theorem Session.Inv.calloc_noTrace {st : Session} (h : st.Inv b0 a) {num sz : Nat} (hnum : num ≠ 0)
    (hsz : sz ≠ 0) (hfit : num * sz < 2 ^ 62 ∨ 2 ^ 64 ≤ num * sz) {s' : Heap}
    (hrun : calloc st.heap num sz = some (s', NULL)) : NoTrace st s' := by
  by_cases hover : minusOne / num < sz
  · -- the product does not fit, and nothing is tried
    rw [calloc, if_neg (by simp [hnum, hsz]), if_pos hover, Option.some.injEq, Prod.mk.injEq] at hrun
    rw [← hrun.1]
    exact h.noTrace st.heap.brk
  · have hmul : num * sz ≤ minusOne := by
      have := (Nat.le_div_iff_mul_le (Nat.pos_of_ne_zero hnum)).1 (Nat.le_of_not_lt hover)
      rwa [Nat.mul_comm] at this
    simp only [minusOne] at hmul
    have hmul64 : mul64 num sz = num * sz := by
      rw [mul64, Nat.mod_eq_of_lt (by omega)]
    have hlt : num * sz < 2 ^ 62 := hfit.resolve_right (by omega)
    rw [calloc, if_neg (by simp [hnum, hsz]), if_neg hover, hmul64] at hrun
    obtain ⟨s₁, hcode, -⟩ := h.rep.malloc h.inv (a.servable_of_lt hlt)
    simp only [hcode] at hrun
    -- the bytes are cleared only if there is a block
    split at hrun
    · rename_i hnull
      rw [Option.some.injEq, Prod.mk.injEq] at hrun
      rw [hnull, hrun.1] at hcode
      exact h.malloc_noTrace hlt hcode
    · rename_i hnonnull
      rw [Option.some.injEq, Prod.mk.injEq] at hrun
      exact absurd hrun.2 hnonnull

/-- A `realloc` that returns `NULL` leaves no trace: the old block is freed only after the copy. -/
theorem Session.Inv.realloc_noTrace {st : Session} (h : st.Inv b0 a) {p sz : Nat} (hsz : sz ≠ 0)
    (hlt : sz < 2 ^ 62) {s' : Heap} (hrun : realloc st.heap p sz = some (s', NULL)) : NoTrace st s' := by
  rw [realloc, if_neg hsz] at hrun
  split at hrun
  · exact h.malloc_noTrace hlt hrun
  · obtain ⟨s₁, hcode, -⟩ := h.rep.malloc h.inv (a.servable_of_lt hlt)
    simp only [hcode] at hrun
    split at hrun
    · rename_i hnull
      rw [Option.some.injEq, Prod.mk.injEq] at hrun
      rw [hnull, hrun.1] at hcode
      exact h.malloc_noTrace hlt hcode
    · rename_i hnonnull
      split at hrun
      · cases hrun
      · rw [Option.some.injEq, Prod.mk.injEq] at hrun
        exact absurd hrun.2 hnonnull

/-! A block that joins the alloc list is counted. -/

theorem insertNode_size {m m' : Mem} {l l' : EltList} {node : Nat} {before : Nat → Bool}
    (h : insertNode m l node before = some (m', l')) : l'.size = toInt32 (l.size + 1) := by
  unfold insertNode at h
  simp only at h
  split at h
  · obtain ⟨-, rfl⟩ := Prod.mk.inj (Option.some.inj h)
    rfl
  · split at h
    · obtain ⟨-, rfl⟩ := Prod.mk.inj (Option.some.inj h)
      rfl
    · split at h
      · cases h
      · split at h
        · obtain ⟨-, rfl⟩ := Prod.mk.inj (Option.some.inj h)
          rfl
        · obtain ⟨-, rfl⟩ := Prod.mk.inj (Option.some.inj h)
          rfl

theorem appendListOrdered_free_allocList {s s' : Heap} {node size bytes : Nat}
    (h : appendListOrdered s node size bytes true = some s') : s'.allocList = s.allocList := by
  unfold appendListOrdered at h
  simp only [if_true] at h
  split at h
  · cases h
  · obtain rfl := Option.some.inj h
    rfl

theorem appendListOrdered_alloc_size {s s' : Heap} {node size bytes : Nat}
    (h : appendListOrdered s node size bytes false = some s') :
    s'.allocList.size = toInt32 (s.allocList.size + 1) := by
  unfold appendListOrdered at h
  simp only [Bool.false_eq_true, if_false] at h
  split at h
  · cases h
  · rename_i hinsert
    obtain rfl := Option.some.inj h
    exact insertNode_size hinsert

theorem carve_allocSize {s : Heap} {p r n : Nat} {t : Heap × Nat} (h : carve s p r n = some t) :
    t.1.allocList.size = toInt32 (s.allocList.size + 1) := by
  unfold carve at h
  simp only at h
  split at h
  · split at h
    · cases h
    · rename_i s₁ hfree
      split at h
      · cases h
      · rename_i s₂ halloc
        obtain rfl := Option.some.inj h
        rw [appendListOrdered_alloc_size halloc, appendListOrdered_free_allocList hfree]
        rfl
  · split at h
    · cases h
    · rename_i s₁ halloc
      obtain rfl := Option.some.inj h
      simp only
      rw [appendListOrdered_alloc_size halloc]
      rfl

/-- Whatever is asked for, a `malloc` either adds a block to the alloc list or has only asked for the break. -/
theorem malloc_cases {n : Nat} (hn : n ≠ 0) {r : Heap × Nat} (h : malloc s n = some r) :
    (r = ({ s with brk := (Malloc.sbrk s.brk (chunk n)).1 }, NULL) ∧ searchFree s (required n) = some NULL ∧
      (Malloc.sbrk s.brk (chunk n)).2 = minusOne) ∨
    (r.1.allocList.size = toInt32 (s.allocList.size + 1) ∧
      ¬ (searchFree s (required n) = some NULL ∧ (Malloc.sbrk s.brk (chunk n)).2 = minusOne)) := by
  rw [malloc_eq, if_neg hn] at h
  split at h
  · cases h
  · rename_i p hsearch
    split at h
    · rename_i hp
      split at h
      · rename_i hrefused
        exact Or.inl ⟨(Option.some.inj h).symm, by rw [hsearch, hp], hrefused⟩
      · rename_i hgranted
        refine Or.inr ⟨?_, fun hboth => hgranted hboth.2⟩
        split at h
        · cases h
        · rename_i s₁ happend
          split at h
          · cases h
          · rw [carve_allocSize h, appendListOrdered_free_allocList happend]
    · rename_i hp
      refine Or.inr ⟨carve_allocSize h, fun hboth => hp ?_⟩
      rw [hsearch, Option.some.injEq] at hboth
      exact hboth.1

/-- One or two counts more are never the same `int`. -/
theorem toInt32_ne {x k : Int} (hpos : 0 < k) (hk : k < 2 ^ 32) : toInt32 (x + k) ≠ x := by
  intro h
  have hmod : (x + k) % (2 ^ 32 : Nat) = x % (2 ^ 32 : Nat) := by
    rw [← Int.bmod_emod, ← toInt32, h]
  omega

theorem Rep.exhausted_iff (h : Rep s a) (hinv : a.Inv b0) (n : Nat) :
    Exhausted s n ↔ Malloc.searchFree s (required n) = some NULL ∧ (Malloc.sbrk s.brk (chunk n)).2 = minusOne := by
  rw [h.searchFree_null_iff hinv, Exhausted, Layout.firstFit, List.find?_eq_none]
  refine and_congr_left fun _ => ⟨?_, fun hsmall => ⟨a.free, h.freeBlocks, fun b hb => ?_⟩⟩
  · rintro ⟨bs, ⟨fs, hchain, rfl⟩, hsmall⟩ b hb
    rw [h.walks.free.unique hchain |>.symm, h.blockAt_free] at hsmall
    rw [decide_eq_true_iff]
    exact Nat.not_le_of_lt (hsmall b hb)
  · have hno := hsmall b hb
    rw [decide_eq_true_iff] at hno
    exact Nat.lt_of_not_le hno

theorem arraySize_ne_zero {n : Nat} (h : toInt32 n ≠ 0) : arraySize (toInt32 n) ≠ 0 := by
  have hlow : -(2 ^ 31) ≤ toInt32 n := Int.le_bmod (by decide)
  have hhigh : toInt32 n < 2 ^ 31 := Int.bmod_lt (by decide)
  rw [arraySize]
  omega

/-- A `heap_info` that returns -1 leaves no trace exactly if it is refused its first array. -/
theorem Session.Inv.heapInfo_noTrace_iff {st : Session} (h : st.Inv b0 a) {info info' : HeapInfoStruct}
    {s' : Heap} (hrun : heapInfo st.heap info = some (s', info', -1)) :
    NoTrace st s' ↔ Exhausted st.heap (arraySize st.heap.allocList.size) := by
  rw [h.rep.exhausted_iff h.inv]
  rw [heapInfo] at hrun
  split at hrun
  · cases hrun
  simp only at hrun
  split at hrun
  · obtain ⟨-, -, hzero⟩ := Option.some.inj hrun
  rename_i hsome
  have hpos : arraySize st.heap.allocList.size ≠ 0 := by
    rw [h.rep.allocList.size] at hsome ⊢
    exact arraySize_ne_zero hsome
  split at hrun
  · cases hrun
  rename_i s₁ sizeArray hfirst
  -- after a first array the alloc list is longer by one, and by two if there is a second
  have hcounted : ∀ k : Int, 0 < k → k < 2 ^ 32 →
      s'.allocList.size = toInt32 (st.heap.allocList.size + k) → ¬ NoTrace st s' := by
    rintro k hpos hk hsize ⟨⟨fs, as, hsame⟩, -⟩
    rw [hsame.allocList] at hsize
    exact toInt32_ne hpos hk hsize.symm
  rcases malloc_cases hpos hfirst with ⟨hr, hnull, hrefused⟩ | ⟨hsize, hroom⟩
  · -- the first array is refused
    obtain ⟨rfl, rfl⟩ := Prod.mk.inj hr
    rw [if_pos rfl] at hrun
    obtain ⟨rfl, -, -⟩ := Prod.mk.inj (Option.some.inj hrun)
    exact ⟨fun _ => ⟨hnull, hrefused⟩, fun _ => h.noTrace _⟩
  refine ⟨fun htrace => absurd htrace ?_, fun hboth => absurd hboth hroom⟩
  split at hrun
  · obtain ⟨rfl, -, -⟩ := Prod.mk.inj (Option.some.inj hrun)
    exact hcounted 1 (by decide) (by decide) hsize
  split at hrun
  · cases hrun
  rename_i s₂ ptrArray hsecond
  have hsize₂ : s₂.allocList.size = toInt32 (st.heap.allocList.size + 1) ∨
      s₂.allocList.size = toInt32 (st.heap.allocList.size + 2) := by
    rcases malloc_cases hpos hsecond with ⟨hr, -, -⟩ | ⟨hsize', -⟩
    · obtain ⟨rfl, -⟩ := Prod.mk.inj hr
      exact Or.inl hsize
    · rw [hsize, toInt32_add, Int.add_assoc] at hsize'
      exact Or.inr hsize'
  split at hrun
  · obtain ⟨rfl, -, -⟩ := Prod.mk.inj (Option.some.inj hrun)
    rcases hsize₂ with hsize₂ | hsize₂
    · exact hcounted 1 (by decide) (by decide) hsize₂
    · exact hcounted 2 (by decide) (by decide) hsize₂
  · split at hrun
    · cases hrun
    · obtain ⟨-, -, hzero⟩ := Option.some.inj hrun

end Failure

/-- From every reachable state, an allocation that returns `NULL` leaves no trace; a `heap_info` that
returns -1 leaves none if and only if already its first array is refused. -/
theorem failed_call_traceless_iff {brk : Break} (hbrk : HeapStart brk) {st : Session}
    (h : Reachable brk st) :
    (∀ n s', n ≠ 0 → n < 2 ^ 62 → malloc st.heap n = some (s', NULL) → NoTrace st s') ∧
    (∀ num sz s', num ≠ 0 → sz ≠ 0 → num * sz < 2 ^ 62 ∨ 2 ^ 64 ≤ num * sz →
      calloc st.heap num sz = some (s', NULL) → NoTrace st s') ∧
    (∀ p sz s', (p = NULL ∨ ∃ n, (p, n) ∈ st.live) → sz ≠ 0 → sz < 2 ^ 62 →
      realloc st.heap p sz = some (s', NULL) → NoTrace st s') ∧
    (∀ info s' info', heapInfo st.heap info = some (s', info', -1) →
      (NoTrace st s' ↔ Exhausted st.heap (arraySize st.heap.allocList.size))) := by
  obtain ⟨a, ha⟩ := h.inv hbrk
  refine ⟨?_, ?_, ?_, ?_⟩
  · exact fun n s' _ hn hrun => ha.malloc_noTrace hn hrun
  · exact fun num sz s' hnum hsz hfit hrun => ha.calloc_noTrace hnum hsz hfit hrun
  · exact fun p sz s' _ hsz hlt hrun => ha.realloc_noTrace hsz hlt hrun
  · exact fun info s' info' hrun => ha.heapInfo_noTrace_iff hrun

theorem failed_call_traceless_iff_example :
    ∃ st s' info', (Session.start (fun _ => 0) (grantOnce 0x103000)).run [.malloc 16280] = some st ∧
      heapInfo st.heap blankInfo = some (s', info', -1) ∧
      (NoTrace st s' ↔ Exhausted st.heap (arraySize st.heap.allocList.size)) := by
  have hbrk : HeapStart (grantOnce 0x103000) := ⟨by decide, by decide, by decide⟩
  have hview : ((Session.start (fun _ => 0) (grantOnce 0x103000)).run [.malloc 16280]).bind (fun st =>
      (heapInfo st.heap blankInfo).map fun r => r.2.2) = some (-1) := by
    decide +kernel
  obtain ⟨st, hrun, hreach⟩ := (Reachable.start (fun _ => 0)).run hbrk [.malloc 16280]
    ⟨(by decide : 16280 < 2 ^ 62), fun _ _ => trivial⟩
  rw [hrun, Option.bind_some, Option.map_eq_some_iff] at hview
  obtain ⟨⟨s', info', r⟩, hcode, hr⟩ := hview
  obtain rfl : r = -1 := hr
  exact ⟨st, s', info', hrun, hcode, (failed_call_traceless_iff hbrk hreach).2.2.2 _ _ _ hcode⟩

/-- A `heap_info` that is refused its second array leaves the first one on the alloc list. -/
theorem heap_info_leaves_array :
    ¬ ∀ (brk : Break) (st : Session) (info info' : HeapInfoStruct) (s' : Heap), HeapStart brk →
      Reachable brk st → heapInfo st.heap info = some (s', info', -1) → NoTrace st s' := by
  intro hall
  have hbrk : HeapStart (grantOnce 0x103000) := ⟨by decide, by decide, by decide⟩
  have hview : ((Session.start (fun _ => 0) (grantOnce 0x103000)).run [.malloc 16280]).bind (fun st =>
      (heapInfo st.heap blankInfo).map fun r => (st.heap.allocList.size, r.1.allocList.size, r.2.2)) =
      some (1, 2, -1) := by
    decide +kernel
  obtain ⟨st, hrun, hreach⟩ := (Reachable.start (fun _ => 0)).run hbrk [.malloc 16280]
    ⟨(by decide : 16280 < 2 ^ 62), fun _ _ => trivial⟩
  rw [hrun, Option.bind_some, Option.map_eq_some_iff] at hview
  obtain ⟨⟨s', info', r⟩, hcode, hpair⟩ := hview
  simp only [Prod.mk.injEq] at hpair
  obtain ⟨hold, hnew, rfl⟩ := hpair
  obtain ⟨⟨fs, as, hsame⟩, -⟩ := hall _ _ _ _ _ hbrk hreach hcode
  have hsize := congrArg EltList.size hsame.allocList
  rw [hold, hnew] at hsize
  exact absurd hsize (by decide)

end MemoryManagement.Malloc
