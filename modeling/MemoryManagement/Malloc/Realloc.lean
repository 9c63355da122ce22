import MemoryManagement.Malloc.Correctness
import MemoryManagement.Malloc.Requests

/-!
# Reallocation

`realloc` is an allocation, a copy and a release. For requests below `2 ^ 62` it replaces one live
allocation by another with the same leading bytes, or fails and leaves everything alone
(`realloc_replaces`).

The length of the copy is taken from the `size` field of the old header, which counts the header as
well as the payload. `realloc_reads_iff` says for which sizes the bytes read stay inside the old block.
-/

set_option autoImplicit false

namespace MemoryManagement.Malloc

open MemoryManagement.Library.ByteMemory
open MemoryManagement.Library.DoublyLinked
open MemoryManagement.Library.Tiling

/-! ## The allocation that is replaced -/

/-- The allocations of the allocator: the payload pointer and the size asked for of every block on the
alloc list, in list order. -/
def Allocations (s : Heap) (es : List (Nat × Nat)) : Prop :=
  ∃ as, Chain NULL (field s.mem · .next) s.allocList.head as ∧
    es = as.map fun p => (allocAt s.mem p).entry

theorem Rep.allocations {s : Heap} {a : Layout} (h : Rep s a) :
    Allocations s (a.alloc.map Alloc.entry) := by
  refine ⟨_, h.walks.alloc, ?_⟩
  have hread := congrArg (List.map Alloc.entry) h.allocAt_alloc
  rw [List.map_map, List.map_map] at hread
  rw [← hread, List.map_map]
  rfl

theorem Allocations.unique {s : Heap} {es fs : List (Nat × Nat)} (he : Allocations s es)
    (hf : Allocations s fs) : es = fs := by
  obtain ⟨xs, hx, rfl⟩ := he
  obtain ⟨ys, hy, rfl⟩ := hf
  rw [hx.unique hy]

/-- `realloc(p, sz)` has returned `q`: the allocation `(p, m)` is replaced by `(q, sz)`. -/
structure Replaced (st st' : Session) (p m q sz : Nat) : Prop where
  copied : ∀ i, i < min m sz → st'.heap.mem (q + i) = st.heap.mem (p + i)
  live : st'.live = (q, sz) :: giveBack p st.live
  -- the pointer that is handed out is none of those that stay live
  fresh : ∀ e ∈ st.live, e.1 ≠ p → e.1 ≠ q
  allocations : ∀ es es', Allocations st.heap es → Allocations st'.heap es' →
    (p, m) ∈ es ∧ es'.Perm ((q, sz) :: es.erase (p, m))
  freed : ∃ bs, FreeBlocks st'.heap bs ∧
    ⟨p - HEADER, field st.heap.mem (p - HEADER) .size⟩ ∈ bs
  others : ∀ e ∈ st.live, e.1 ≠ p → Undisturbed st.heap.mem st'.heap.mem e

/-- `realloc` has failed: nothing but the record of the `sbrk` calls is different. -/
structure Unreplaced (st st' : Session) : Prop where
  mem : st'.heap.mem = st.heap.mem
  freeList : st'.heap.freeList = st.heap.freeList
  allocList : st'.heap.allocList = st.heap.allocList
  brk : st'.heap.brk.current = st.heap.brk.current
  live : st'.live = st.live

section Replace

variable {b0 : Nat} {st : Session} {a : Layout}

theorem Session.Inv.realloc_replaced (h : st.Inv b0 a) {b : Alloc} (hb : b ∈ a.alloc)
    {sz : Nat} (hzero : sz ≠ 0) (hsz : a.Servable sz) (hp : (a.malloc sz).2 ≠ NULL) :
    ∃ s' q, realloc st.heap (b.addr + HEADER) sz = some (s', q) ∧ q ≠ NULL ∧
      Replaced st ⟨s', (q, sz) :: giveBack (b.addr + HEADER) st.live⟩ (b.addr + HEADER) b.bytes q sz := by
  obtain ⟨s', c, hcode, -, rfl, hmem, e, hcopy⟩ := h.rep.realloc_success h.inv hb hsz hzero hp
  refine ⟨s', c.addr + HEADER, hcode, Nat.succ_ne_zero _, ?_⟩
  have haddr : b.addr + HEADER - HEADER = b.addr := Nat.add_sub_cancel _ _
  constructor
  · intro i hi
    have hfits := (h.inv.fits b hb).1
    apply hcopy i (by omega)
    omega
  · rfl
  · -- a block at the new address would be the fresh block
    rintro x hx hne hxc
    obtain ⟨d, hd, rfl⟩ := h.live x hx
    have hdb : d ∉ [b] := by
      rintro hd'
      exact hne (by rw [List.mem_singleton.1 hd', Alloc.entry])
    have hcd : c = d := e.inv.eq_of_addr hmem (e.mem_alloc hd hdb) (Nat.add_right_cancel hxc.symm)
    exact e.fresh_ne hd hdb (List.mem_singleton_self c) hcd
  · intro es es' hes hes'
    obtain rfl := hes.unique h.rep.allocations
    obtain rfl := hes'.unique e.rep.allocations
    have hentry : b.entry ∈ a.alloc.map Alloc.entry := List.mem_map_of_mem hb
    refine ⟨hentry, ?_⟩
    -- one block joins the alloc list and `b` leaves it
    have hperm := e.alloc.map Alloc.entry
    simp only [List.map_cons, List.singleton_append] at hperm
    have hold := (List.perm_cons_erase hentry).cons c.entry
    apply (List.perm_cons b.entry).1
    exact hperm.symm.trans (hold.trans (List.Perm.swap _ _ _))
  · refine ⟨_, e.rep.freeBlocks, ?_⟩
    rw [haddr, h.rep.allocSize b hb]
    exact (insertFree_perm _ _).mem_iff.2 (List.mem_cons_self ..)
  · intro x hx hne
    apply h.undisturbed e hx
    intro d hd
    rw [List.mem_singleton.1 hd]
    exact hne

end Replace

/-- `realloc` of a live pointer ends. If it returns a pointer, that allocation replaces the old one and
starts with its bytes; if it returns null, nothing has changed. -/
theorem realloc_replaces {brk : Break} (hbrk : HeapStart brk) {st : Session} (h : Reachable brk st)
    {p m sz : Nat} (hp : (p, m) ∈ st.live) (hpos : 0 < sz) (hsz : sz < 2 ^ 62) :
    ∃ st' q, realloc st.heap p sz = some (st'.heap, q) ∧ st.step (.realloc p sz) = some st' ∧
      (q ≠ NULL → Replaced st st' p m q sz) ∧ (q = NULL → Unreplaced st st') := by
  obtain ⟨a, ha⟩ := h.inv hbrk
  obtain ⟨b, hb, rfl, rfl⟩ := ha.block_of_live hp
  have hzero : sz ≠ 0 := Nat.ne_of_gt hpos
  have hserve := a.servable_of_lt hsz
  by_cases hnull : (a.malloc sz).2 = NULL
  · obtain ⟨new, hcode, hcur⟩ := ha.rep.malloc_null ha.inv hnull
    have hrealloc : realloc st.heap (b.addr + HEADER) sz = some ({ st.heap with brk := new }, NULL) := by
      have hne : b.addr + HEADER ≠ NULL := Nat.succ_ne_zero _
      rw [realloc, if_neg hne, if_neg hzero, hcode]
      simp only [if_true]
    refine ⟨⟨_, st.live⟩, NULL, hrealloc, ?_, fun hne => absurd rfl hne, fun _ => ?_⟩
    · rw [Session.step, hrealloc, Option.map_some, if_pos ⟨hzero, rfl⟩]
    · exact ⟨rfl, rfl, rfl, hcur, rfl⟩
  · obtain ⟨s', q, hcode, hq, hreplaced⟩ := ha.realloc_replaced hb hzero hserve hnull
    refine ⟨_, q, hcode, ?_, fun _ => hreplaced, fun hq' => absurd hq' hq⟩
    rw [Session.step, hcode, Option.map_some, if_neg fun hfail => hq hfail.2, handOut, if_neg hq]

/-- Eight bytes are allocated, and then twenty in their place. -/
theorem realloc_replaces_example :
    ∃ st st' : Session, st.live = [(0x103020, 8)] ∧ st.step (.realloc 0x103020 20) = some st' ∧
      Replaced st st' 0x103020 8 0x103048 20 := by
  have hbrk : HeapStart (grantAll 0x103000) := ⟨by decide, by decide, by decide⟩
  have hview : ((Session.start (fun _ => 0) (grantAll 0x103000)).run [.malloc 8]).map (·.live) =
      some [(0x103020, 8)] := by
    decide +kernel
  have hptr : (((Session.start (fun _ => 0) (grantAll 0x103000)).run [.malloc 8]).bind fun st =>
      realloc st.heap 0x103020 20).map Prod.snd = some 0x103048 := by
    decide +kernel
  obtain ⟨st, hrun, hreach⟩ := (Reachable.start (fun _ => 0)).run hbrk [.malloc 8]
    ⟨(by decide : 8 < 2 ^ 62), fun _ _ => trivial⟩
  rw [hrun, Option.map_some, Option.some.injEq] at hview
  obtain ⟨st', q, hcode, hstep, hreplaced, -⟩ := realloc_replaces hbrk hreach
    (by simp [hview] : (0x103020, 8) ∈ st.live) (by decide : 0 < 20) (by decide)
  rw [hrun, Option.bind_some, hcode, Option.map_some, Option.some.injEq] at hptr
  subst hptr
  exact ⟨st, st', hview, hstep, hreplaced (by decide)⟩

/-! ## The bytes that are read -/

/-- A call `memcpy(dst, src, n)` and the heap it is made in. -/
structure Copy where
  heap : Heap
  dst : Nat
  src : Nat
  length : Nat

/-- The copy that `realloc(ptr, sz)` makes, if it makes one. -/
def reallocCopy (s : Heap) (ptr sz : Nat) : Option Copy :=
  if ptr = NULL ∨ sz = 0 then none
  else
    match malloc s sz with
    | none => none
    | some (s, newPayload) =>
        if newPayload = NULL then none
        else
          let originalSize := field s.mem (sub64 ptr HEADER) .size
          some ⟨s, newPayload, ptr, if originalSize < sz then originalSize else sz⟩

/-- `realloc` makes the copy of `reallocCopy`, frees the old block and returns the destination. -/
theorem realloc_of_copy {s : Heap} {ptr sz : Nat} {c : Copy} (h : reallocCopy s ptr sz = some c) :
    realloc s ptr sz =
      (free { c.heap with mem := memcpy c.heap.mem c.dst c.src c.length } ptr).map (·, c.dst) := by
  by_cases hcall : ptr = NULL ∨ sz = 0
  · rw [reallocCopy, if_pos hcall] at h
    cases h
  obtain ⟨hptr, hsz⟩ := not_or.1 hcall
  rw [reallocCopy, if_neg hcall] at h
  rw [realloc, if_neg hptr, if_neg hsz]
  cases hmalloc : malloc s sz with
  | none =>
      rw [hmalloc] at h
      cases h
  | some r =>
      rw [hmalloc] at h
      simp only at h ⊢
      by_cases hq : r.2 = NULL
      · rw [if_pos hq] at h
        cases h
      · rw [if_neg hq] at h ⊢
        obtain rfl := Option.some.inj h
        generalize free _ ptr = freed
        cases freed with
        | none => rfl
        | some s₂ => rfl

/-- The byte at `x` belongs to the payload of the block that `p` heads, to the heap, and to no other
block of either list. -/
structure InOwnBlock (s : Heap) (p x : Nat) : Prop where
  block : p ≤ x ∧ x < p - HEADER + field s.mem (p - HEADER) .size
  heap : x < s.brk.current
  others : ∀ fs as, Walks s fs as → ∀ h ∈ fs ++ as, h ≠ p - HEADER → ¬ (blockAt s.mem h).Has x

/-- Every byte that `realloc(p, sz)` copies from lies in the old block, as that is when `realloc` is
called and when the copy is made. -/
def ReadsOwnBlock (s : Heap) (p sz : Nat) : Prop :=
  ∀ c, reallocCopy s p sz = some c → ∀ x, InRange c.src c.length x →
    InOwnBlock s p x ∧ InOwnBlock c.heap p x

/-- No free block fits the request and `sbrk` refuses to make one. -/
def NoRoom (s : Heap) (sz : Nat) : Prop :=
  searchFree s (required sz) = some NULL ∧ (sbrk s.brk (chunk sz)).2 = minusOne

section Reads

variable {b0 : Nat} {s : Heap} {a : Layout}

/-- Payload bytes of an allocated block are in no other block. -/
theorem Rep.inOwnBlock (h : Rep s a) (hinv : a.Inv b0) {b : Alloc} (hb : b ∈ a.alloc) {x : Nat}
    (hx : b.Payload x) : InOwnBlock s (b.addr + HEADER) x := by
  have haddr : b.addr + HEADER - HEADER = b.addr := Nat.add_sub_cancel _ _
  have hsize := h.allocSize b hb
  have hbounds := hinv.bounds (Layout.Inv.mem_alloc hb)
  simp only [Alloc.span] at hbounds
  constructor
  · rw [haddr, hsize]
    exact hx
  · rw [h.brk]
    exact Nat.lt_of_lt_of_le hx.2 hbounds.2.1
  · intro fs as hw p hp hne hhas
    rw [haddr] at hne
    obtain rfl := hw.free.unique h.walks.free
    obtain rfl := hw.alloc.unique h.walks.alloc
    have hblock : blockAt s.mem p ∈ a.spans := by
      rw [← h.blockAt_nodes]
      exact List.mem_map_of_mem hp
    -- the heap is tiled, so the byte has one block only
    have hmine : b.span ∈ a.spans := Layout.Inv.mem_alloc hb
    have hne' : blockAt s.mem p ≠ b.span := fun e => hne (congrArg Span.start e)
    have hap := hinv.apart.forall hblock hmine hne'
    exact hap.not_has hhas ⟨Nat.le_of_lt (Nat.lt_of_lt_of_le (by simp [Alloc.span]) hx.1), hx.2⟩

theorem Rep.malloc_null_iff (h : Rep s a) (hinv : a.Inv b0) {sz : Nat} (hzero : sz ≠ 0) :
    (a.malloc sz).2 = NULL ↔ NoRoom s sz := by
  rw [NoRoom, h.searchFree_null_iff hinv, Layout.malloc, if_neg hzero, h.brk]
  cases hfit : a.firstFit sz with
  | some b =>
      constructor
      · intro hnull
        exact absurd hnull (Nat.succ_ne_zero _)
      · rintro ⟨hnone, -⟩
        cases hnone
  | none =>
      simp only [true_and]
      split
      · rename_i hrefused
        exact ⟨fun _ => hrefused, fun _ => rfl⟩
      · rename_i hgranted
        exact ⟨fun hnull => absurd hnull (Nat.succ_ne_zero _), fun hrefused => absurd hrefused hgranted⟩

theorem Rep.reads_iff (h : Rep s a) (hinv : a.Inv b0) {b : Alloc} (hb : b ∈ a.alloc) {sz : Nat}
    (hsz : a.Servable sz) :
    ReadsOwnBlock s (b.addr + HEADER) sz ↔ (HEADER + sz ≤ b.size ∨ NoRoom s sz) := by
  have hblock := hinv.block b.span (Layout.Inv.mem_alloc hb)
  simp only [Alloc.span] at hblock
  by_cases hzero : sz = 0
  · -- the block is freed and nothing is copied
    constructor
    · rintro -
      exact Or.inl (by rw [hzero]; exact hblock.2.2)
    · rintro - c hcopy
      rw [reallocCopy, if_pos (Or.inr hzero)] at hcopy
      cases hcopy
  have hcall : ¬ (b.addr + HEADER = NULL ∨ sz = 0) := not_or.2 ⟨Nat.succ_ne_zero _, hzero⟩
  obtain ⟨s₁, fresh, hcode, hret, e⟩ := h.malloc_effect hinv hsz
  by_cases hnull : (a.malloc sz).2 = NULL
  · constructor
    · rintro -
      exact Or.inr ((h.malloc_null_iff hinv hzero).1 hnull)
    · rintro - c hcopy
      rw [reallocCopy, if_neg hcall, hcode] at hcopy
      simp only [if_pos hnull] at hcopy
      cases hcopy
  have hstay := e.mem_alloc hb List.not_mem_nil
  have hbounds := hinv.bounds (Layout.Inv.mem_alloc hb)
  simp only [Alloc.span] at hbounds
  -- the copy is as long as the shorter of the whole old block and the new request
  have hcopy : reallocCopy s (b.addr + HEADER) sz =
      some ⟨s₁, (a.malloc sz).2, b.addr + HEADER, if b.size < sz then b.size else sz⟩ := by
    rw [reallocCopy, if_neg hcall, hcode]
    simp only [if_neg hnull]
    rw [sub64_of_le (Nat.le_add_left _ _) (by simp only [HEADER]; omega), Nat.add_sub_cancel,
      e.rep.allocSize b hstay]
  constructor
  · intro hreads
    apply Or.inl
    by_contra hlong
    -- the first byte after the block is copied
    have hin : InRange (b.addr + HEADER) (if b.size < sz then b.size else sz) (b.addr + b.size) := by
      constructor
      · simp only [HEADER]
        omega
      · simp only [HEADER] at hlong ⊢
        split <;> omega
    have hown := (hreads _ hcopy _ hin).1.block.2
    rw [Nat.add_sub_cancel, h.allocSize b hb] at hown
    exact Nat.lt_irrefl _ hown
  · rintro (hshort | hroom) c hc x hx
    · obtain rfl := Option.some.inj (hcopy.symm.trans hc)
      have hpay : b.Payload x := by
        refine ⟨hx.1, ?_⟩
        have hend := hx.2
        simp only at hend
        split at hend <;> omega
      exact ⟨h.inOwnBlock hinv hb hpay, e.rep.inOwnBlock e.inv hstay hpay⟩
    · exact absurd ((h.malloc_null_iff hinv hzero).2 hroom) hnull

end Reads

/-- `realloc` of a live pointer ends, and it reads only the old block exactly when the new size fits
into the old payload or nothing is copied because the request fails. -/
theorem realloc_reads_iff {brk : Break} (hbrk : HeapStart brk) {st : Session} (h : Reachable brk st)
    {p m sz : Nat} (hp : (p, m) ∈ st.live) (hsz : sz < 2 ^ 62) :
    (∃ r, realloc st.heap p sz = some r) ∧
      (ReadsOwnBlock st.heap p sz ↔
        (HEADER + sz ≤ field st.heap.mem (p - HEADER) .size ∨ NoRoom st.heap sz)) := by
  obtain ⟨a, ha⟩ := h.inv hbrk
  obtain ⟨b, hb, rfl, rfl⟩ := ha.block_of_live hp
  have hserve := a.servable_of_lt hsz
  constructor
  · obtain ⟨s', a', q, fresh, hcode, -⟩ := ha.rep.realloc_effect ha.inv hb hserve
    exact ⟨_, hcode⟩
  · rw [Nat.add_sub_cancel, ha.rep.allocSize b hb]
    exact ha.rep.reads_iff ha.inv hb hserve

/-- Shrinking sixteen bytes to eight reads eight bytes of the old payload. -/
theorem realloc_reads_iff_example :
    ∃ st : Session, st.live = [(0x103020, 16)] ∧ ReadsOwnBlock st.heap 0x103020 8 := by
  have hbrk : HeapStart (grantAll 0x103000) := ⟨by decide, by decide, by decide⟩
  have hview : ((Session.start (fun _ => 0) (grantAll 0x103000)).run [.malloc 16]).map
      (fun st => (st.live, field st.heap.mem 0x103000 .size)) = some ([(0x103020, 16)], 48) := by
    decide +kernel
  obtain ⟨st, hrun, hreach⟩ := (Reachable.start (fun _ => 0)).run hbrk [.malloc 16]
    ⟨(by decide : 16 < 2 ^ 62), fun _ _ => trivial⟩
  rw [hrun, Option.map_some, Option.some.injEq, Prod.mk.injEq] at hview
  refine ⟨st, hview.1, (realloc_reads_iff hbrk hreach (by simp [hview.1] : (0x103020, 16) ∈ st.live)
    (by decide : 8 < 2 ^ 62)).2.2 (Or.inl ?_)⟩
  rw [show 0x103020 - HEADER = 0x103000 from rfl, hview.2]
  decide

/-- Growing sixteen bytes to a hundred copies the whole length of the old block, header included, from
the start of its payload: the last 32 bytes are the header of the next block. -/
theorem realloc_reads_neighbour :
    ∃ st : Session, Reachable (grantAll 0x103000) st ∧ (0x103020, 16) ∈ st.live ∧
      ¬ ReadsOwnBlock st.heap 0x103020 100 := by
  have hbrk : HeapStart (grantAll 0x103000) := ⟨by decide, by decide, by decide⟩
  have hview : ((Session.start (fun _ => 0) (grantAll 0x103000)).run [.malloc 16]).map
      (fun st => (st.live, field st.heap.mem 0x103000 .size)) = some ([(0x103020, 16)], 48) := by
    decide +kernel
  have hread : (((Session.start (fun _ => 0) (grantAll 0x103000)).run [.malloc 16]).bind fun st =>
      reallocCopy st.heap 0x103020 100).map (fun c => (c.src, c.length)) = some (0x103020, 48) := by
    decide +kernel
  obtain ⟨st, hrun, hreach⟩ := (Reachable.start (fun _ => 0)).run hbrk [.malloc 16]
    ⟨(by decide : 16 < 2 ^ 62), fun _ _ => trivial⟩
  rw [hrun, Option.map_some, Option.some.injEq, Prod.mk.injEq] at hview
  rw [hrun, Option.bind_some] at hread
  refine ⟨st, hreach, by simp [hview.1], fun hreads => ?_⟩
  obtain ⟨c, hc, hspan⟩ := Option.map_eq_some_iff.1 hread
  obtain ⟨hsrc, hlen⟩ := Prod.mk.inj hspan
  have hown := (hreads c hc 0x103030 (by rw [hsrc, hlen]; decide)).1.block.2
  rw [show 0x103020 - HEADER = 0x103000 from rfl, hview.2] at hown
  exact absurd hown (by decide)

end MemoryManagement.Malloc
