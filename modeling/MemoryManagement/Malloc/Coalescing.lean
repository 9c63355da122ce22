import MemoryManagement.Malloc.Correctness

/-!
# `defrag` and the order of frees

Two results about the free list as a whole. `defrag` joins every run of adjacent free blocks, loses no
byte, and finds nothing to do when it is called again (`defrag_complete`). Freeing a set of live
pointers leaves the same two lists in whatever order the pointers are freed (`frees_commute`): the free
list is sorted, so the blocks that are on it determine it.
-/

set_option autoImplicit false

namespace MemoryManagement.Malloc

open MemoryManagement.Library.ByteMemory
open MemoryManagement.Library.DoublyLinked
open MemoryManagement.Library.Tiling

section Same

variable {s s' : Heap} {a a' : Layout}

/-- The globals and the headers of the free list are determined by the free blocks. The requested size
of a free block is left over from its last owner. -/
theorem Rep.same_free (h : Rep s a) (h' : Rep s' a') (e : a'.free = a.free) :
    s'.freeList = s.freeList ∧
      ∀ p ∈ a.free.map Span.start, ∀ f, f ≠ .allocBytes → field s'.mem p f = field s.mem p f := by
  have hlist' := h'.freeList
  rw [e] at hlist'
  obtain ⟨hglobals, hlinks⟩ := h.freeList.unique hlist'
  refine ⟨hglobals, fun p hp f hf => ?_⟩
  cases f with
  | size =>
      obtain ⟨b, hb, rfl⟩ := List.mem_map.1 hp
      rw [h.freeSize b hb, h'.freeSize b (by rw [e]; exact hb)]
  | allocBytes => exact absurd rfl hf
  | prev => exact (hlinks p hp).1
  | next => exact (hlinks p hp).2

/-- The globals and the headers of the alloc list are determined by the allocated blocks. -/
theorem Rep.same_alloc (h : Rep s a) (h' : Rep s' a') (e : a'.alloc = a.alloc) :
    s'.allocList = s.allocList ∧
      ∀ p ∈ a.alloc.map Alloc.addr, ∀ f, field s'.mem p f = field s.mem p f := by
  have hlist' := h'.allocList
  rw [e] at hlist'
  obtain ⟨hglobals, hlinks⟩ := h.allocList.unique hlist'
  refine ⟨hglobals, fun p hp f => ?_⟩
  cases f with
  | size =>
      obtain ⟨b, hb, rfl⟩ := List.mem_map.1 hp
      rw [h.allocSize b hb, h'.allocSize b (by rw [e]; exact hb)]
  | allocBytes =>
      obtain ⟨b, hb, rfl⟩ := List.mem_map.1 hp
      rw [h.allocBytes b hb, h'.allocBytes b (by rw [e]; exact hb)]
  | prev => exact (hlinks p hp).1
  | next => exact (hlinks p hp).2

end Same

/-! ## Defragmentation -/

section Defrag

variable {b0 : Nat} {s : Heap} {a : Layout}

/-- The loop of `defrag` writes nothing where there are gaps between the free blocks. -/
theorem defragLoop_separated {fuel : Nat} (pre : List Span) {bs : List Span} {b : Span} (h : Rep s a)
    (hfree : a.free = pre ++ b :: bs) (hsep : Separated (b :: bs))
    (hlt : ∀ c ∈ b :: bs, c.start + c.len < 2 ^ 64) (hfuel : bs.length < fuel) :
    defragLoop fuel s b.start ((bs.map Span.start).headD NULL) = some s := by
  induction bs generalizing b pre fuel with
  | nil =>
      obtain ⟨k, rfl⟩ : ∃ k, fuel = k + 1 := ⟨fuel - 1, by simp at hfuel; omega⟩
      rfl
  | cons c cs ih =>
      obtain ⟨k, rfl⟩ : ∃ k, fuel = k + 1 := ⟨fuel - 1, by simp at hfuel; omega⟩
      have hgap := (List.pairwise_cons.1 hsep.sorted).1 c (by simp)
      have hclt := hlt c (by simp)
      have hbm : b ∈ a.free := by simp [hfree]
      have hc0 : c.start ≠ NULL := by
        intro e
        apply h.freeList.nonnull
        rw [← e]
        exact List.mem_map_of_mem (by simp [hfree])
      have hsub : sub64 c.start b.start = c.start - b.start := sub64_of_le (by omega) (by omega)
      have hapart : ¬ c.start - b.start = b.len := by omega
      have hfree' : a.free = (pre ++ [b]) ++ c :: cs := by simp [hfree]
      have hk : cs.length < k := by
        simp only [List.length_cons] at hfuel
        omega
      rw [List.map_cons, List.headD_cons, defragLoop, if_neg hc0, hsub, h.freeSize b hbm, if_neg hapart,
        h.next_free (pre ++ [b]) hfree']
      exact ih (pre ++ [b]) hfree' hsep.tail (fun d hd => hlt d (List.mem_cons_of_mem _ hd)) hk

/-- `defrag` changes nothing when no two free blocks are adjacent. -/
theorem Rep.defrag_separated (h : Rep s a) (hinv : a.Inv b0) (hsep : Separated a.free) :
    Malloc.defrag s = some s := by
  rw [Malloc.defrag]
  cases hfree : a.free with
  | nil =>
      have hhead : s.freeList.head = NULL := by
        rw [h.freeList.head, hfree]
        rfl
      rw [if_pos hhead]
  | cons b bs =>
      have hhead : s.freeList.head = b.start := by
        rw [h.freeList.head, hfree]
        rfl
      have hmem : ∀ c ∈ b :: bs, c ∈ a.spans := by
        intro c hc
        rw [← hfree] at hc
        exact Layout.Inv.mem_free hc
      have hb0 : b.start ≠ NULL := Nat.ne_of_gt (hinv.bounds (hmem b (by simp))).1
      have hlen := Layout.free_length_lt hinv
      rw [hfree, List.length_cons] at hlen
      rw [hfree] at hsep
      rw [hhead, if_neg hb0, h.next_free [] hfree]
      exact defragLoop_separated [] h hfree hsep (fun c hc => (hinv.bounds (hmem c hc)).2.2) (by omega)

end Defrag

/-- `defrag` has led from `s`, with free list `fs`, to `s'`, with free list `fs'`. -/
structure Defragmented (s s' : Heap) (fs fs' as : List Nat) : Prop where
  walks : Walks s fs as
  walks' : Walks s' fs' as
  -- nothing is lost
  covered : ∀ x, Covered (fs'.map (blockAt s'.mem)) x ↔ Covered (fs.map (blockAt s.mem)) x
  total : total (fs'.map (blockAt s'.mem)) = total (fs.map (blockAt s.mem))
  allocList : s'.allocList = s.allocList
  allocHeaders : ∀ p ∈ as, ∀ f, field s'.mem p f = field s.mem p f
  brk : s'.brk = s.brk
  -- everything adjacent is joined
  gap : ∀ b ∈ fs'.map (blockAt s'.mem), ∀ c ∈ fs'.map (blockAt s'.mem), b.stop ≠ c.start
  run : ∀ b ∈ fs'.map (blockAt s'.mem), ∃ run, run <:+: fs.map (blockAt s.mem) ∧ Tiles b.start run b.stop
  largest : largest (fs.map (blockAt s.mem)) ≤ largest (fs'.map (blockAt s'.mem))
  size : s'.freeList.size = toInt32 fs'.length
  tail : s'.freeList.tail = fs'.getLastD NULL
  again : Malloc.defrag s' = some s'

/-- In every reachable state `defrag` ends; it joins every run of adjacent free blocks, keeps the free
bytes, the alloc list and the break, and leaves nothing to join. -/
theorem defrag_complete {brk : Break} (hbrk : HeapStart brk) {st : Session} (h : Reachable brk st) :
    ∃ s' fs fs' as, Malloc.defrag st.heap = some s' ∧ Defragmented st.heap s' fs fs' as := by
  obtain ⟨a, ha⟩ := h.inv hbrk
  obtain ⟨s', hcode, e⟩ := ha.rep.defrag_effect ha.inv
  have hsep : Separated a.defrag.free := separated_coalesce ha.inv.ascending
  obtain ⟨hlist, hheaders⟩ := ha.rep.same_alloc e.rep rfl
  have hold := ha.rep.blockAt_free
  have hnew : (a.defrag.free.map Span.start).map (blockAt s'.mem) = coalesce a.free := e.rep.blockAt_free
  refine ⟨s', _, _, a.alloc.map Alloc.addr, hcode, ha.rep.walks, e.rep.walks, ?_, ?_, hlist, hheaders, ?_,
    ?_, ?_, ?_, e.rep.freeList.size, e.rep.freeList.tail, e.rep.defrag_separated e.inv hsep⟩
  · intro x
    rw [hold, hnew]
    exact covered_coalesce a.free x
  · rw [hold, hnew]
    exact total_coalesce a.free
  · exact e.rep.brk.trans ha.rep.brk.symm
  · rw [hnew]
    intro b hb c hc
    exact hsep.stop_ne hb hc
  · rw [hold, hnew]
    intro b hb
    exact tiles_of_mem_coalesce hb
  · rw [hold, hnew]
    exact largest_coalesce a.free

theorem defrag_complete_example :
    ∃ st s' fs fs' as, (Session.start (fun _ => 0) (grantAll 0x103000)).run
        [.malloc 24, .malloc 20000, .realloc NULL 8] = some st ∧
      Malloc.defrag st.heap = some s' ∧ Defragmented st.heap s' fs fs' as := by
  have hbrk : HeapStart (grantAll 0x103000) := ⟨by decide, by decide, by decide⟩
  obtain ⟨st, hrun, hreach⟩ := (Reachable.start (fun _ => 0)).run hbrk
    [.malloc 24, .malloc 20000, .realloc NULL 8] ⟨(by decide : 24 < 2 ^ 62), fun _ _ =>
      ⟨(by decide : 20000 < 2 ^ 62), fun _ _ => ⟨⟨by decide, Or.inl rfl⟩, fun _ _ => trivial⟩⟩⟩
  obtain ⟨s', fs, fs', as, hcode, hdone⟩ := defrag_complete hbrk hreach
  exact ⟨st, s', fs, fs', as, hrun, hcode, hdone⟩

/-- `2 ^ 31` requests leave as many free blocks, no two of them adjacent; `defrag` keeps them all, and
`free_list_size` has wrapped around. -/
theorem defrag_size_wraps :
    ¬ ∀ (brk : Break) (st : Session), HeapStart brk → Reachable brk st →
      ∃ s' fs', Malloc.defrag st.heap = some s' ∧
        Chain NULL (field s'.mem · .next) s'.freeList.head fs' ∧ s'.freeList.size = fs'.length := by
  intro hall
  have hbrk : HeapStart (grantAll 0x103000) := ⟨by decide, by decide, by decide⟩
  obtain ⟨st, a, h, hreach⟩ := exists_chunked hbrk (fun _ => 0) (2 ^ 31) (fun _ _ => rfl) (by decide)
  obtain ⟨s', fs', hcode, hchain, hbad⟩ := hall _ st hbrk hreach
  have hsep : Separated a.free := by
    rw [h.free]
    exact separated_rests _ _
  rw [h.inv.rep.defrag_separated h.inv.inv hsep, Option.some.injEq] at hcode
  rw [← hcode] at hchain hbad
  rw [hchain.unique h.inv.rep.walks.free, h.inv.rep.freeList.size, List.length_map, h.free, rests, List.length_map,
    List.length_range] at hbad
  exact absurd hbad (by decide)

/-! ## Freeing several blocks -/

/-- The blocks leave the alloc list, and only they. -/
theorem Layout.foldl_release_alloc (a : Layout) (bs : List Alloc) :
    (bs.foldl Layout.release a).alloc = a.alloc.diff bs := by
  induction bs generalizing a with
  | nil => rfl
  | cons b bs ih =>
      rw [List.foldl_cons, ih, List.diff_cons]
      rfl

/-- The blocks join the free blocks. -/
theorem Layout.foldl_release_free (a : Layout) (bs : List Alloc) :
    (bs.foldl Layout.release a).free.Perm (bs.map Alloc.span ++ a.free) := by
  induction bs generalizing a with
  | nil => exact List.Perm.refl _
  | cons b bs ih =>
      rw [List.foldl_cons, List.map_cons]
      have hstep : (a.release b).free.Perm (b.span :: a.free) := insertFree_perm _ _
      exact (ih _).trans ((hstep.append_left _).trans List.perm_middle)

/-- Free blocks in address order are determined by their set. -/
theorem Layout.Inv.free_unique {b0 : Nat} {a a' : Layout} (h : a.Inv b0) (h' : a'.Inv b0)
    (hperm : a.free.Perm a'.free) : a.free = a'.free := by
  refine hperm.eq_of_pairwise (fun b c _ _ hbc hcb => ?_) h.freeSorted h'.freeSorted
  exact absurd hbc (Nat.lt_asymm hcb)

/-- Allocated blocks are freed one after the other. -/
theorem Session.run_frees {b0 : Nat} {st : Session} {a : Layout} (h : Rep st.heap a) (hinv : a.Inv b0)
    {bs : List Alloc} (hnodup : bs.Nodup) (hmem : ∀ b ∈ bs, b ∈ a.alloc) :
    ∃ st', st.run (bs.map fun b => .free (b.addr + HEADER)) = some st' ∧
      Rep st'.heap (bs.foldl Layout.release a) ∧ (bs.foldl Layout.release a).Inv b0 := by
  induction bs generalizing st a with
  | nil => exact ⟨st, rfl, h, hinv⟩
  | cons b bs ih =>
      obtain ⟨hb, hnodup'⟩ := List.nodup_cons.1 hnodup
      obtain ⟨s₁, hcode, e⟩ := h.free_effect hinv (hmem b (by simp))
      have hstay : ∀ c ∈ bs, c ∈ (a.release b).alloc := by
        intro c hc
        have hne : c ≠ b := fun e => hb (e ▸ hc)
        exact (List.mem_erase_of_ne hne).2 (hmem c (List.mem_cons_of_mem _ hc))
      obtain ⟨st₁, hst₁⟩ : ∃ st₁ : Session, st₁ = ⟨s₁, giveBack (b.addr + HEADER) st.live⟩ := ⟨_, rfl⟩
      have hrep₁ : Rep st₁.heap (a.release b) := by
        rw [hst₁]
        exact e.rep
      obtain ⟨st', hrun, hrep, hinv'⟩ := ih hrep₁ e.inv hnodup' hstay
      refine ⟨st', ?_, hrep, hinv'⟩
      rw [List.map_cons, Session.run, Session.step, hcode, ← hrun, hst₁]
      rfl

/-- Two heaps have the same free list and the same alloc list: the same globals, the same nodes, and the
same header in each node. -/
structure SameLists (s s' : Heap) (fs as : List Nat) : Prop where
  walks : Walks s fs as
  walks' : Walks s' fs as
  freeList : s'.freeList = s.freeList
  allocList : s'.allocList = s.allocList
  freeHeaders : ∀ p ∈ fs, ∀ f, f ≠ .allocBytes → field s'.mem p f = field s.mem p f
  allocHeaders : ∀ p ∈ as, ∀ f, field s'.mem p f = field s.mem p f

theorem Rep.sameLists {s s' : Heap} {a a' : Layout} (h : Rep s a) (h' : Rep s' a')
    (hfree : a'.free = a.free) (halloc : a'.alloc = a.alloc) :
    SameLists s s' (a.free.map Span.start) (a.alloc.map Alloc.addr) := by
  obtain ⟨hfreeList, hfreeHeaders⟩ := h.same_free h' hfree
  obtain ⟨hallocList, hallocHeaders⟩ := h.same_alloc h' halloc
  have hwalks' := h'.walks
  rw [hfree, halloc] at hwalks'
  exact ⟨h.walks, hwalks', hfreeList, hallocList, hfreeHeaders, hallocHeaders⟩

/-- From every reachable state, freeing different live pointers ends in the same free list and the same
alloc list in any two orders. -/
theorem frees_commute {brk : Break} (hbrk : HeapStart brk) {st : Session} (h : Reachable brk st)
    {ps qs : List Nat} (hlive : ∀ p ∈ ps, ∃ n, (p, n) ∈ st.live) (hdistinct : ps.Nodup)
    (hperm : ps.Perm qs) :
    ∃ st₁ st₂ fs as, st.run (ps.map Call.free) = some st₁ ∧ st.run (qs.map Call.free) = some st₂ ∧
      SameLists st₁.heap st₂.heap fs as := by
  obtain ⟨a, ha⟩ := h.inv hbrk
  obtain ⟨blocks, hblocks⟩ : ∃ blocks : List Nat → List Alloc, blocks = fun ps =>
      ps.map fun p => allocAt st.heap.mem (p - HEADER) := ⟨_, rfl⟩
  -- a live pointer is the payload of the block whose header is in front of it
  have hblock : ∀ p ∈ ps, allocAt st.heap.mem (p - HEADER) ∈ a.alloc ∧ p - HEADER + HEADER = p := by
    intro p hp
    obtain ⟨n, hn⟩ := hlive p hp
    obtain ⟨b, hb, rfl, rfl⟩ := ha.block_of_live hn
    rw [Nat.add_sub_cancel, allocAt, ha.rep.allocSize b hb, ha.rep.allocBytes b hb]
    exact ⟨hb, rfl⟩
  have hruns : ∀ rs : List Nat, rs.Perm ps → ∃ st', st.run (rs.map Call.free) = some st' ∧
      Rep st'.heap ((blocks rs).foldl Layout.release a) ∧
      ((blocks rs).foldl Layout.release a).Inv brk.current := by
    intro rs hrs
    have hmem : ∀ b ∈ blocks rs, b ∈ a.alloc := by
      intro b hb
      rw [hblocks] at hb
      obtain ⟨p, hp, rfl⟩ := List.mem_map.1 hb
      exact (hblock p (hrs.mem_iff.1 hp)).1
    have hnodup : (blocks rs).Nodup := by
      rw [hblocks]
      refine List.Nodup.map_on (fun p hp q hq e => ?_) (hrs.nodup_iff.2 hdistinct)
      have haddr := congrArg Alloc.addr e
      simp only [allocAt] at haddr
      rw [← (hblock p (hrs.mem_iff.1 hp)).2, ← (hblock q (hrs.mem_iff.1 hq)).2, haddr]
    obtain ⟨st', hrun, hrest⟩ := Session.run_frees ha.rep ha.inv hnodup hmem
    refine ⟨st', ?_, hrest⟩
    rw [← hrun, hblocks, List.map_map]
    congr 1
    refine List.map_congr_left fun p hp => ?_
    show Call.free p = Call.free (p - HEADER + HEADER)
    rw [(hblock p (hrs.mem_iff.1 hp)).2]
  obtain ⟨st₁, hrun₁, hrep₁, hinv₁⟩ := hruns ps (List.Perm.refl _)
  obtain ⟨st₂, hrun₂, hrep₂, hinv₂⟩ := hruns qs hperm.symm
  have hsame : (blocks ps).Perm (blocks qs) := by
    rw [hblocks]
    exact hperm.map _
  have hfree := (Layout.foldl_release_free a (blocks qs)).trans
    (((hsame.symm.map Alloc.span).append_right a.free).trans
      (Layout.foldl_release_free a (blocks ps)).symm)
  refine ⟨st₁, st₂, _, _, hrun₁, hrun₂, hrep₁.sameLists hrep₂ (hinv₂.free_unique hinv₁ hfree) ?_⟩
  rw [Layout.foldl_release_alloc, Layout.foldl_release_alloc]
  exact hsame.symm.diff_left a.alloc

theorem frees_commute_example :
    ∃ st st₁ st₂ : Session, ∃ fs as, st.live = [(0x103048, 20), (0x103020, 8)] ∧
      st.run [.free 0x103048, .free 0x103020] = some st₁ ∧
      st.run [.free 0x103020, .free 0x103048] = some st₂ ∧ SameLists st₁.heap st₂.heap fs as := by
  have hbrk : HeapStart (grantAll 0x103000) := ⟨by decide, by decide, by decide⟩
  have hview : ((Session.start (fun _ => 0) (grantAll 0x103000)).run
      [.malloc 8, .malloc 20]).map (·.live) = some [(0x103048, 20), (0x103020, 8)] := by
    decide +kernel
  obtain ⟨st, hrun, hreach⟩ := (Reachable.start (fun _ => 0)).run hbrk [.malloc 8, .malloc 20]
    ⟨(by decide : 8 < 2 ^ 62), fun _ _ => ⟨(by decide : 20 < 2 ^ 62), fun _ _ => trivial⟩⟩
  rw [hrun, Option.map_some, Option.some.injEq] at hview
  have hlive : ∀ p ∈ [0x103048, 0x103020], ∃ n, (p, n) ∈ st.live := by
    intro p hp
    rw [hview]
    rcases List.mem_cons.1 hp with rfl | hp
    · exact ⟨20, by simp⟩
    · obtain rfl := List.mem_singleton.1 hp
      exact ⟨8, by simp⟩
  obtain ⟨st₁, st₂, fs, as, hrun₁, hrun₂, hsame⟩ := frees_commute hbrk hreach hlive (by decide)
    (List.Perm.swap 0x103020 0x103048 [])
  exact ⟨st, st₁, st₂, fs, as, hview, hrun₁, hrun₂, hsame⟩

end MemoryManagement.Malloc
