import MemoryManagement.Malloc.ManyBlocks

/-!
# What holds in every state of the allocator

The results about whole sessions. All of them speak of the memory itself: the nodes of a list are
those met by following `next` from its head, and sizes are read from the headers.

* The blocks of the two lists partition the heap.
* Both lists are well-formed doubly linked lists in their order, and `append_list_ordered` and
  `remove_list` are sorted insertion and erasure on them.
* No call disturbs a live allocation other than the one it is given.
* `defrag` leaves a free list that depends only on the bounds of the heap and the allocated blocks.
-/

set_option autoImplicit false

namespace MemoryManagement.Malloc

open MemoryManagement.Library.ByteMemory
open MemoryManagement.Library.DoublyLinked
open MemoryManagement.Library.Tiling

/-! ## Reading the lists -/

/-- The nodes of the free list and of the alloc list. -/
structure Walks (s : Heap) (fs as : List Nat) : Prop where
  free : Chain NULL (field s.mem · .next) s.freeList.head fs
  alloc : Chain NULL (field s.mem · .next) s.allocList.head as

/-- The block with its header at `p`. -/
def blockAt (m : Mem) (p : Nat) : Span := ⟨p, field m p .size⟩

/-- The allocated block with its header at `p`. -/
def allocAt (m : Mem) (p : Nat) : Alloc := ⟨p, field m p .size, field m p .allocBytes⟩

section Reading

variable {s : Heap} {a : Layout}

theorem Rep.walks (h : Rep s a) : Walks s (a.free.map Span.start) (a.alloc.map Alloc.addr) := by
  constructor
  · rw [h.freeList.head]
    exact h.freeList.segment.chain_next h.freeList.nonnull
  · rw [h.allocList.head]
    exact h.allocList.segment.chain_next h.allocList.nonnull

theorem Rep.blockAt_free (h : Rep s a) : (a.free.map Span.start).map (blockAt s.mem) = a.free := by
  rw [List.map_map]
  refine (List.map_congr_left fun b hb => ?_).trans (List.map_id _)
  show Span.mk b.start (field s.mem b.start .size) = b
  rw [h.freeSize b hb]

theorem Rep.allocAt_alloc (h : Rep s a) :
    (a.alloc.map Alloc.addr).map (allocAt s.mem) = a.alloc := by
  rw [List.map_map]
  refine (List.map_congr_left fun b hb => ?_).trans (List.map_id _)
  show Alloc.mk b.addr (field s.mem b.addr .size) (field s.mem b.addr .allocBytes) = b
  rw [h.allocSize b hb, h.allocBytes b hb]

theorem Rep.blockAt_alloc (h : Rep s a) :
    (a.alloc.map Alloc.addr).map (blockAt s.mem) = a.alloc.map Alloc.span := by
  rw [← h.allocAt_alloc]
  simp only [List.map_map]
  rfl

theorem Rep.blockAt_nodes (h : Rep s a) :
    (a.free.map Span.start ++ a.alloc.map Alloc.addr).map (blockAt s.mem) = a.spans := by
  rw [List.map_append, h.blockAt_free, h.blockAt_alloc]
  rfl

end Reading

/-! ## The heap partition -/

/-- The blocks with headers `fs` and `as` partition the heap `[b0, break)`, and the live allocations
are payloads of such blocks. -/
structure Partition (b0 : Nat) (st : Session) (fs as : List Nat) : Prop where
  inside : ∀ b ∈ (fs ++ as).map (blockAt st.heap.mem),
    b0 ≤ b.start ∧ b.start + b.len ≤ st.heap.brk.current
  apart : ((fs ++ as).map (blockAt st.heap.mem)).Pairwise Span.Apart
  exactlyOne : ∀ x, b0 ≤ x → x < st.heap.brk.current →
    ((fs ++ as).map (blockAt st.heap.mem)).countP (fun b => b.Has x) = 1
  block : ∀ b ∈ (fs ++ as).map (blockAt st.heap.mem),
    b.start % 8 = 0 ∧ b.len % 8 = 0 ∧ HEADER ≤ b.len
  fits : ∀ p ∈ as, HEADER + field st.heap.mem p .allocBytes ≤ field st.heap.mem p .size ∧
    field st.heap.mem p .size < roundUp (HEADER + field st.heap.mem p .allocBytes) 8 + HEADER
  pointer : ∀ e ∈ st.live, e.1 % 8 = 0 ∧ HEADER ≤ e.1 ∧ e.1 - HEADER ∈ as ∧
    field st.heap.mem (e.1 - HEADER) .allocBytes = e.2
  payload : st.live.Pairwise fun e f => DisjointRange e.1 e.2 f.1 f.2

/-- Spans that share no address and cover `x` cover it once. -/
theorem countP_has_eq_one {bs : List Span} {x : Nat} (hap : bs.Pairwise Span.Apart)
    (hcov : ∃ b ∈ bs, b.Has x) : bs.countP (fun b => b.Has x) = 1 := by
  induction bs with
  | nil =>
      obtain ⟨b, hb, -⟩ := hcov
      cases hb
  | cons c bs ih =>
      obtain ⟨hc, hbs⟩ := List.pairwise_cons.1 hap
      rw [List.countP_cons]
      by_cases hx : c.Has x
      · have hnone : bs.countP (fun b => b.Has x) = 0 := by
          rw [List.countP_eq_zero]
          intro b hb
          simpa using (hc b hb).not_has hx
        rw [hnone, if_pos (decide_eq_true hx)]
      · have hrest : ∃ b ∈ bs, b.Has x := by
          obtain ⟨b, hb, hbx⟩ := hcov
          rcases List.mem_cons.1 hb with rfl | hb'
          · exact absurd hbx hx
          · exact ⟨b, hb', hbx⟩
        rw [ih hbs hrest, if_neg (by simpa using hx)]

theorem Session.Inv.partition {b0 : Nat} {st : Session} {a : Layout} (h : st.Inv b0 a) :
    Partition b0 st (a.free.map Span.start) (a.alloc.map Alloc.addr) := by
  have hbrk : st.heap.brk.current = a.brk.current := by rw [h.rep.brk]
  constructor
  · intro b hb
    rw [h.rep.blockAt_nodes] at hb
    rw [hbrk]
    exact h.inv.tiled.bounds hb
  · rw [h.rep.blockAt_nodes]
    exact h.inv.apart
  · -- pieces that lie apart and cover the heap cover each byte exactly once
    intro x hlo hhi
    rw [h.rep.blockAt_nodes]
    rw [hbrk] at hhi
    exact countP_has_eq_one h.inv.apart (h.inv.tiled.covers hlo hhi)
  · intro b hb
    rw [h.rep.blockAt_nodes] at hb
    exact h.inv.block b hb
  · -- the size field of an allocated block is what its payload needs, or one header more
    intro p hp
    obtain ⟨b, hb, rfl⟩ := List.mem_map.1 hp
    rw [h.rep.allocSize b hb, h.rep.allocBytes b hb]
    have hfits := h.inv.fits b hb
    have hlt := (h.inv.bounds (Layout.Inv.mem_alloc hb)).2.2
    have hadd : add64 HEADER b.bytes = HEADER + b.bytes := by
      apply add64_of_lt
      simp only [Alloc.span] at hlt
      omega
    rw [required, hadd] at hfits
    exact hfits
  · intro e he
    obtain ⟨b, hb, rfl⟩ := h.live e he
    have haddr : b.entry.1 - HEADER = b.addr := Nat.add_sub_cancel _ _
    refine ⟨?_, Nat.le_add_left _ _, ?_, ?_⟩
    · have halign := (h.inv.block b.span (Layout.Inv.mem_alloc hb)).1
      simp only [Alloc.span, Alloc.entry, HEADER] at halign ⊢
      omega
    · rw [haddr]
      exact List.mem_map_of_mem hb
    · rw [haddr]
      exact h.rep.allocBytes b hb
  · -- different live pointers belong to different blocks, and blocks are apart
    refine (List.pairwise_map.1 h.distinct).imp_of_mem fun {e f} he hf hne => ?_
    obtain ⟨b, hb, rfl⟩ := h.live e he
    obtain ⟨c, hc, rfl⟩ := h.live f hf
    have hap := h.inv.alloc_apart hb hc fun e => hne (by rw [e])
    have hbf := (h.inv.fits b hb).1
    have hcf := (h.inv.fits c hc).1
    simp only [Span.Apart, Alloc.span, Alloc.entry] at hap ⊢
    omega

/-- After every sequence of legal calls the blocks of the two lists partition the heap. -/
theorem heap_partition {brk : Break} (hbrk : HeapStart brk) (m : Mem) (cs : List Call)
    (hlegal : (Session.start m brk).LegalRun cs) :
    ∃ st fs as, (Session.start m brk).run cs = some st ∧ Walks st.heap fs as ∧
      Partition brk.current st fs as := by
  obtain ⟨st, hrun, hreach⟩ := (Reachable.start m).run hbrk cs hlegal
  obtain ⟨a, ha⟩ := hreach.inv hbrk
  exact ⟨st, _, _, hrun, ha.rep.walks, ha.partition⟩

/-- A heap of four pages' worth of chunks where every `sbrk` is granted. -/
def grantAll (b0 : Nat) : Break := ⟨b0, fun _ => true, []⟩

/-- Some struct to fill in. -/
def blankInfo : HeapInfoStruct := ⟨0, NULL, NULL, 0, 0⟩

theorem heap_partition_example :
    ∃ st fs as, (Session.start (fun _ => 0) (grantAll 0x103000)).run
        [.malloc 24, .calloc 3 8, .defrag, .malloc 20000] = some st ∧
      Walks st.heap fs as ∧ Partition 0x103000 st fs as := by
  apply heap_partition ⟨by decide, by decide, by decide⟩
  exact ⟨(by decide : 24 < 2 ^ 62), fun _ _ => ⟨Or.inl (by decide), fun _ _ => ⟨trivial, fun _ _ =>
    ⟨(by decide : 20000 < 2 ^ 62), fun _ _ => trivial⟩⟩⟩⟩

/-- The null pointer ends both lists, so a heap that starts at address 0 loses its first block. -/
theorem heap_partition_null_break :
    ¬ ∀ (brk : Break) (m : Mem) (cs : List Call), brk.current % 8 = 0 → brk.current < 2 ^ 64 →
      (Session.start m brk).LegalRun cs →
      ∃ st fs as, (Session.start m brk).run cs = some st ∧ Walks st.heap fs as ∧
        Partition brk.current st fs as := by
  intro hall
  obtain ⟨st, fs, as, hrun, hwalks, hpart⟩ := hall (grantAll 0) (fun _ => 0) [.malloc 1] (by decide)
    (by decide) ⟨(by decide : 1 < 2 ^ 62), fun _ _ => trivial⟩
  have hview : ((Session.start (fun _ => 0) (grantAll 0)).run [.malloc 1]).map (fun st =>
      (st.heap.freeList.head, field st.heap.mem 40 .next, st.heap.allocList.head,
        st.heap.brk.current)) = some (40, 0, 0, 16384) := by
    decide +kernel
  rw [hrun, Option.map_some, Option.some.injEq, Prod.mk.injEq, Prod.mk.injEq, Prod.mk.injEq] at hview
  obtain ⟨hfree, hnext, halloc, hcur⟩ := hview
  -- the alloc list reads as empty, the free list as the one block at 40
  have has : as = [] := by
    have hchain := hwalks.alloc
    rw [halloc] at hchain
    exact hchain.unique rfl
  have hfs : fs = [40] := by
    have hchain := hwalks.free
    rw [hfree] at hchain
    refine hchain.unique ⟨rfl, by decide, ?_⟩
    exact hnext
  have hzero := hpart.exactlyOne 0 (Nat.le_refl 0) (by rw [hcur]; decide)
  rw [has, hfs] at hzero
  simp [blockAt, Span.Has] at hzero

/-- Nor do the blocks partition the heap after a `heap_info` over `2 ^ 31` allocations: a free block lies in one of
them. -/
theorem heap_partition_fails :
    (¬ ∀ (brk : Break) (m : Mem) (cs : List Call), brk.current % 8 = 0 → brk.current < 2 ^ 64 →
      (Session.start m brk).LegalRun cs →
      ∃ st fs as, (Session.start m brk).run cs = some st ∧ Walks st.heap fs as ∧
        Partition brk.current st fs as) ∧
    ¬ ∀ (brk : Break) (st : Session) (info : HeapInfoStruct), HeapStart brk → Reachable brk st →
      ∃ s' info' r fs as, heapInfo st.heap info = some (s', info', r) ∧ Walks s' fs as ∧
        Partition brk.current ⟨s', st.live⟩ fs as := by
  refine ⟨heap_partition_null_break, fun hall => ?_⟩
  obtain ⟨brk, st, a, i, hbrk, hreach, -, hblock, -, hcode⟩ := exists_negative 1
  obtain ⟨s₁, info₁, b, hcode₁, hrep⟩ := hcode blankInfo
  obtain ⟨s', info', r, fs, as, hcode', hwalks, hpart⟩ := hall _ _ blankInfo hbrk hreach
  obtain ⟨rfl, -⟩ : s₁ = s' ∧ _ := Prod.mk.inj (Option.some.inj (hcode₁.symm.trans hcode'))
  obtain rfl := hwalks.free.unique hrep.walks.free
  obtain rfl := hwalks.alloc.unique hrep.walks.alloc
  have hapart := hpart.apart
  rw [hrep.blockAt_nodes] at hapart
  have hfree : (⟨i + HEADER, 16352⟩ : Span) ∈ Malloc.insertFree ⟨i + HEADER, 16352⟩ a.free :=
    (insertFree_perm _ _).mem_iff.2 List.mem_cons_self
  have halloc : (⟨i, 16344⟩ : Span) ∈
      (Malloc.insertAlloc ⟨a.brk.current, negativeSize + 32, negativeSize⟩ a.alloc).map Alloc.span :=
    List.mem_map.2 ⟨_, (insertAlloc_perm _ _).mem_iff.2 (List.mem_cons_of_mem _ hblock), rfl⟩
  have hbad := (List.pairwise_append.1 hapart).2.2 _ hfree _ halloc
  simp only [Span.Apart, HEADER] at hbad
  omega

/-! ## Well-formed lists -/

/-- A doubly linked list with the nodes `xs`: forwards from the head, backwards from the tail. Its size is
an `int`, the number of nodes as long as that is below `2 ^ 31`. -/
structure Linked (m : Mem) (l : EltList) (xs : List Nat) : Prop where
  forward : Chain NULL (field m · .next) l.head xs
  backward : Chain NULL (field m · .prev) l.tail xs.reverse
  distinct : xs.Nodup
  endsAtTail : l.tail = xs.getLastD NULL
  headPrev : l.head ≠ NULL → field m l.head .prev = NULL
  tailNext : l.tail ≠ NULL → field m l.tail .next = NULL
  null_iff : l.head = NULL ↔ l.tail = NULL
  size : l.size = toInt32 xs.length

/-- The two lists of the allocator with nodes `fs` and `as`. The headers do not overlap, so no node is
on both lists; the free list ascends in address, the alloc list descends in requested size. -/
structure Lists (s : Heap) (fs as : List Nat) : Prop where
  free : Linked s.mem s.freeList fs
  alloc : Linked s.mem s.allocList as
  headers : Separate (fs ++ as)
  freeSorted : fs.Pairwise (· < ·)
  allocSorted : as.Pairwise fun p q => field s.mem q .allocBytes ≤ field s.mem p .allocBytes

theorem ListRep.linked {m : Mem} {l : EltList} {xs : List Nat} (h : ListRep m l xs) :
    Linked m l xs := by
  -- the same nodes, read from either end
  have hforward : Chain NULL (field m · .next) l.head xs := by
    rw [h.head]
    exact h.segment.chain_next h.nonnull
  have hbackward : Chain NULL (field m · .prev) l.tail xs.reverse := by
    rw [h.tail]
    exact h.segment.chain_prev h.nonnull
  refine ⟨hforward, hbackward, h.nodup, h.tail, ?_, ?_, ?_, h.size⟩
  · -- the `prev` of the first node ends the chain that is read backwards
    intro hne
    cases hxs : xs with
    | nil =>
        rw [hxs] at hforward
        exact absurd hforward hne
    | cons x r =>
        rw [hxs] at hforward hbackward
        rw [hforward.1]
        rw [List.reverse_cons] at hbackward
        exact hbackward.next_eq
  · intro hne
    cases hxs : xs.reverse with
    | nil =>
        rw [hxs] at hbackward
        exact absurd hbackward hne
    | cons x r =>
        have hsplit : xs = r.reverse ++ [x] := by
          rw [← List.reverse_reverse xs, hxs, List.reverse_cons]
        rw [hxs] at hbackward
        rw [hsplit] at hforward
        rw [hbackward.1]
        exact hforward.next_eq
  · cases xs with
    | nil => exact ⟨fun _ => hbackward, fun _ => hforward⟩
    | cons x r =>
        have hhead : l.head ≠ NULL := by
          rw [hforward.1]
          exact hforward.2.1
        have htail : l.tail ≠ NULL := by
          intro e
          apply h.nonnull
          rw [← e, h.tail, List.getLastD_eq_getLast?]
          exact List.mem_of_getLast? (by simp [List.getLast?_cons])
        exact ⟨fun e => absurd e hhead, fun e => absurd e htail⟩

theorem Linked.listRep {m : Mem} {l : EltList} {xs : List Nat} (h : Linked m l xs) :
    ListRep m l xs :=
  ⟨h.forward.segment h.backward, h.forward.start_eq, h.endsAtTail, h.size, h.forward.not_mem,
    h.distinct⟩

/-- The layout that the two lists spell out. -/
def layoutAt (s : Heap) (fs as : List Nat) : Layout :=
  ⟨fs.map (blockAt s.mem), as.map (allocAt s.mem), s.brk⟩

section Sequences

variable {s : Heap} {fs as : List Nat}

theorem map_start_blockAt (m : Mem) (xs : List Nat) : (xs.map (blockAt m)).map Span.start = xs := by
  rw [List.map_map]
  exact List.map_id xs

theorem map_addr_allocAt (m : Mem) (xs : List Nat) : (xs.map (allocAt m)).map Alloc.addr = xs := by
  rw [List.map_map]
  exact List.map_id xs

theorem Lists.rep (h : Lists s fs as) : Rep s (layoutAt s fs as) := by
  constructor
  · rw [layoutAt, map_start_blockAt]
    exact h.free.listRep
  · rw [layoutAt, map_addr_allocAt]
    exact h.alloc.listRep
  · intro b hb
    obtain ⟨p, -, rfl⟩ := List.mem_map.1 hb
    rfl
  · intro b hb
    obtain ⟨p, -, rfl⟩ := List.mem_map.1 hb
    rfl
  · intro b hb
    obtain ⟨p, -, rfl⟩ := List.mem_map.1 hb
    rfl
  · rfl

theorem layoutAt_nodes (s : Heap) (fs as : List Nat) : (layoutAt s fs as).nodes = fs ++ as := by
  rw [Layout.nodes_eq, layoutAt, map_start_blockAt, map_addr_allocAt]

/-- A layout in order, with separate headers, gives the two lists. -/
theorem Rep.lists {a : Layout} (h : Rep s a) (hsep : Separate a.nodes)
    (hfree : (a.free.map Span.start).Pairwise (· < ·))
    (halloc : a.alloc.Pairwise fun b c => c.bytes ≤ b.bytes) :
    Lists s (a.free.map Span.start) (a.alloc.map Alloc.addr) := by
  refine ⟨h.freeList.linked, h.allocList.linked, ?_, hfree, ?_⟩
  · rw [← Layout.nodes_eq]
    exact hsep
  · refine List.pairwise_map.2 (halloc.imp_of_mem fun hb hc hbc => ?_)
    rw [h.allocBytes _ hb, h.allocBytes _ hc]
    exact hbc

theorem Lists.allocSorted_layoutAt (h : Lists s fs as) :
    (layoutAt s fs as).alloc.Pairwise fun b c => c.bytes ≤ b.bytes :=
  List.pairwise_map.2 h.allocSorted

theorem Lists.freeSorted_layoutAt (h : Lists s fs as) :
    (layoutAt s fs as).free.Pairwise fun b c => b.start < c.start :=
  List.pairwise_map.2 h.freeSorted

/-- `append_list_ordered` on the free list is sorted insertion by address. -/
theorem Lists.append_free (h : Lists s fs as) {node size : Nat} (bytes : Nat)
    (hsep : Separate (node :: (fs ++ as))) (hsize : size < 2 ^ 64) :
    ∃ s', appendListOrdered s node size bytes true = some s' ∧
      Lists s' (fs.orderedInsert (· < ·) node) as ∧ field s'.mem node .size = size := by
  have hsep' := hsep
  rw [← layoutAt_nodes s] at hsep'
  obtain ⟨s', hcode, hrep, -⟩ := h.rep.insertFree node size hsep' hsize
  have hnodes := (Layout.perm_insertFree ⟨node, size⟩ (layoutAt s fs as).free
    ((layoutAt s fs as).alloc.map Alloc.span)).map Span.start
  have hmap : (insertFree ⟨node, size⟩ (layoutAt s fs as).free).map Span.start =
      fs.orderedInsert (· < ·) node := by
    refine (List.map_orderedInsert _ (· < ·) Span.start _ _ (fun _ _ => Iff.rfl)
      fun _ _ => Iff.rfl).trans ?_
    rw [layoutAt, map_start_blockAt]
  have hlists := hrep.lists (hsep'.perm hnodes.symm) (by
    refine List.pairwise_map.2 (insertFree_sorted h.freeSorted_layoutAt fun c hc e => ?_)
    apply hsep'.not_mem
    rw [← show c.start = node from e]
    exact Layout.mem_nodes_free (List.mem_map_of_mem hc)) h.allocSorted_layoutAt
  refine ⟨s', hcode, ?_, hrep.freeSize ⟨node, size⟩ ((insertFree_perm _ _).mem_iff.2 (by simp))⟩
  rw [hmap, layoutAt, map_addr_allocAt] at hlists
  exact hlists

/-- `append_list_ordered` on the alloc list is sorted insertion by descending requested size. -/
theorem Lists.append_alloc (h : Lists s fs as) {node size bytes : Nat}
    (hsep : Separate (node :: (fs ++ as))) (hsize : size < 2 ^ 64) (hbytes : bytes < 2 ^ 64) :
    ∃ s', appendListOrdered s node size bytes false = some s' ∧
      Lists s' fs (as.orderedInsert
        (fun p q => field s'.mem q .allocBytes < field s'.mem p .allocBytes) node) ∧
      field s'.mem node .size = size ∧ field s'.mem node .allocBytes = bytes := by
  have hsep' := hsep
  rw [← layoutAt_nodes s] at hsep'
  obtain ⟨s', hcode, hrep, -⟩ := h.rep.insertAlloc node size bytes hsep' hsize hbytes
  have hnodes := (Layout.perm_insertAlloc ⟨node, size, bytes⟩ (layoutAt s fs as).alloc
    (layoutAt s fs as).free).map Span.start
  have hnew : ∀ b ∈ (⟨node, size, bytes⟩ : Alloc) :: (layoutAt s fs as).alloc,
      field s'.mem b.addr .allocBytes = b.bytes := fun b hb =>
    hrep.allocBytes b ((insertAlloc_perm _ _).mem_iff.2 hb)
  have hmap : (insertAlloc ⟨node, size, bytes⟩ (layoutAt s fs as).alloc).map Alloc.addr =
      as.orderedInsert (fun p q => field s'.mem q .allocBytes < field s'.mem p .allocBytes) node := by
    have hnode := hnew ⟨node, size, bytes⟩ (by simp)
    simp only at hnode
    refine (List.map_orderedInsert _
      (fun p q => field s'.mem q .allocBytes < field s'.mem p .allocBytes) Alloc.addr _ _
      (fun b hb => ?_) fun b hb => ?_).trans ?_
    · simp only
      rw [hnew b (List.mem_cons_of_mem _ hb), hnode]
    · simp only
      rw [hnew b (List.mem_cons_of_mem _ hb), hnode]
    · rw [layoutAt, map_addr_allocAt]
  have hlists := hrep.lists (hsep'.perm hnodes.symm) (List.pairwise_map.2 h.freeSorted_layoutAt)
    (insertAlloc_sorted h.allocSorted_layoutAt)
  refine ⟨s', hcode, ?_, ?_, ?_⟩
  · rw [hmap, layoutAt, map_start_blockAt] at hlists
    exact hlists
  · exact hrep.allocSize ⟨node, size, bytes⟩ ((insertAlloc_perm _ _).mem_iff.2 (by simp))
  · exact hnew ⟨node, size, bytes⟩ (by simp)

/-- `remove_list` on the free list is erasure. -/
theorem Lists.remove_free (h : Lists s fs as) {node : Nat} (hnode : node ∈ fs) :
    Lists (removeList s node true) (fs.erase node) as := by
  have hsep := h.headers
  rw [← layoutAt_nodes s] at hsep
  have hb : blockAt s.mem node ∈ (layoutAt s fs as).free := List.mem_map_of_mem hnode
  obtain ⟨hrep, -⟩ := h.rep.removeFree hsep hb
  have hsub : ((layoutAt s fs as).free.erase (blockAt s.mem node)).Sublist (layoutAt s fs as).free :=
    List.erase_sublist
  have hinj : Function.Injective (blockAt s.mem) := fun p q e => congrArg Span.start e
  have hmap : ((layoutAt s fs as).free.erase (blockAt s.mem node)).map Span.start =
      fs.erase node := by
    rw [layoutAt, ← List.map_erase hinj, map_start_blockAt]
  have hlists := hrep.lists (hsep.sublist ((hsub.append_right _).map _))
    (List.pairwise_map.2 (h.freeSorted_layoutAt.sublist hsub)) h.allocSorted_layoutAt
  rw [hmap, layoutAt, map_addr_allocAt] at hlists
  exact hlists

/-- `remove_list` on the alloc list is erasure. -/
theorem Lists.remove_alloc (h : Lists s fs as) {node : Nat} (hnode : node ∈ as) :
    Lists (removeList s node false) fs (as.erase node) := by
  have hsep := h.headers
  rw [← layoutAt_nodes s] at hsep
  have hb : allocAt s.mem node ∈ (layoutAt s fs as).alloc := List.mem_map_of_mem hnode
  obtain ⟨hrep, -⟩ := h.rep.removeAlloc hsep hb
  have hsub : ((layoutAt s fs as).alloc.erase (allocAt s.mem node)).Sublist
      (layoutAt s fs as).alloc := List.erase_sublist
  have hinj : Function.Injective (allocAt s.mem) := fun p q e => congrArg Alloc.addr e
  have hmap : ((layoutAt s fs as).alloc.erase (allocAt s.mem node)).map Alloc.addr =
      as.erase node := by
    rw [layoutAt, ← List.map_erase hinj, map_addr_allocAt]
  have hlists := hrep.lists (hsep.sublist (((hsub.map _).append_left _).map _))
    (List.pairwise_map.2 h.freeSorted_layoutAt) (h.allocSorted_layoutAt.sublist hsub)
  rw [hmap, layoutAt, map_start_blockAt] at hlists
  exact hlists

end Sequences

/-- In every reachable state the two lists are well formed, and on well-formed lists
`append_list_ordered` and `remove_list` are sorted insertion and erasure. -/
theorem lists_wellFormed :
    (∀ brk st, HeapStart brk → Reachable brk st → ∃ fs as, Lists st.heap fs as) ∧
    ∀ s fs as, Lists s fs as →
      (∀ node size bytes, Separate (node :: (fs ++ as)) → size < 2 ^ 64 →
        ∃ s', appendListOrdered s node size bytes true = some s' ∧
          Lists s' (fs.orderedInsert (· < ·) node) as ∧ field s'.mem node .size = size) ∧
      (∀ node size bytes, Separate (node :: (fs ++ as)) → size < 2 ^ 64 → bytes < 2 ^ 64 →
        ∃ s', appendListOrdered s node size bytes false = some s' ∧
          Lists s' fs (as.orderedInsert
            (fun p q => field s'.mem q .allocBytes < field s'.mem p .allocBytes) node) ∧
          field s'.mem node .size = size ∧ field s'.mem node .allocBytes = bytes) ∧
      (∀ node ∈ fs, Lists (removeList s node true) (fs.erase node) as) ∧
      (∀ node ∈ as, Lists (removeList s node false) fs (as.erase node)) := by
  constructor
  · intro brk st hbrk hreach
    obtain ⟨a, ha⟩ := hreach.inv hbrk
    exact ⟨_, _, ha.rep.lists ha.inv.separate (List.pairwise_map.2 ha.inv.freeSorted)
      ha.inv.allocSorted⟩
  · intro s fs as h
    refine ⟨?_, ?_, ?_, ?_⟩
    · intro node size bytes hsep hsize
      exact h.append_free bytes hsep hsize
    · intro node size bytes hsep hsize hbytes
      exact h.append_alloc hsep hsize hbytes
    · intro node hnode
      exact h.remove_free hnode
    · intro node hnode
      exact h.remove_alloc hnode

/-- Two requests; the second, larger one comes first on the alloc list. Taking the first one off erases it. -/
theorem lists_wellFormed_example :
    ∃ st fs, (Session.start (fun _ => 0) (grantAll 0x103000)).run [.malloc 8, .malloc 20] = some st ∧
      Lists st.heap fs [0x103028, 0x103000] ∧ Lists (removeList st.heap 0x103000 false) fs [0x103028] := by
  have hbrk : HeapStart (grantAll 0x103000) := ⟨by decide, by decide, by decide⟩
  have hview : ((Session.start (fun _ => 0) (grantAll 0x103000)).run [.malloc 8, .malloc 20]).map (fun st =>
      (st.heap.allocList.head, field st.heap.mem 0x103028 .next, field st.heap.mem 0x103000 .next)) =
      some (0x103028, 0x103000, 0) := by
    decide +kernel
  obtain ⟨st, hrun, hreach⟩ := (Reachable.start (fun _ => 0)).run hbrk [.malloc 8, .malloc 20]
    ⟨(by decide : 8 < 2 ^ 62), fun _ _ => ⟨(by decide : 20 < 2 ^ 62), fun _ _ => trivial⟩⟩
  rw [hrun, Option.map_some, Option.some.injEq, Prod.mk.injEq, Prod.mk.injEq] at hview
  obtain ⟨hhead, hnext, hend⟩ := hview
  obtain ⟨fs, as, hlists⟩ := lists_wellFormed.1 _ st hbrk hreach
  obtain rfl : as = [0x103028, 0x103000] := by
    have hchain := hlists.alloc.forward
    rw [hhead] at hchain
    exact hchain.unique ⟨rfl, by decide, hnext, by decide, hend⟩
  exact ⟨st, fs, hrun, hlists, (lists_wellFormed.2 _ _ _ hlists).2.2.2 0x103000 (by simp)⟩

/-- After `2 ^ 31` requests `alloc_list_size` has wrapped around. -/
theorem list_size_wraps :
    ¬ ∀ (brk : Break) (st : Session) (as : List Nat), HeapStart brk → Reachable brk st →
      Chain NULL (field st.heap.mem · .next) st.heap.allocList.head as → st.heap.allocList.size = as.length := by
  intro hall
  have hbrk : HeapStart (grantAll 0x103000) := ⟨by decide, by decide, by decide⟩
  obtain ⟨st, a, h, hreach⟩ := exists_chunked hbrk (fun _ => 0) (2 ^ 31) (fun _ _ => rfl) (by decide)
  have hbad := hall _ st _ hbrk hreach h.inv.rep.walks.alloc
  rw [h.inv.rep.allocList.size, List.length_map, h.count] at hbad
  exact absurd hbad (by decide)

/-! ## Live payloads -/

/-- From every reachable state a legal call ends and leaves every live allocation it spares live, with
the same bytes and the same sizes in its header; and `calloc` returns zeroed memory. -/
theorem live_undisturbed {brk : Break} (hbrk : HeapStart brk) {st : Session}
    (h : Reachable brk st) :
    (∀ c, st.Legal c → ∃ st', st.step c = some st' ∧
      ∀ e ∈ st.live, c.Spares e → e ∈ st'.live ∧ Undisturbed st.heap.mem st'.heap.mem e) ∧
    ∀ num sz, st.Legal (.calloc num sz) → ∃ s' p, calloc st.heap num sz = some (s', p) ∧
      (p ≠ NULL → ∀ x, InRange p (num * sz) x → s'.mem x = 0) := by
  obtain ⟨a, ha⟩ := h.inv hbrk
  constructor
  · intro c hlegal
    obtain ⟨st', hstep, hafter⟩ := ha.step hlegal
    exact ⟨st', hstep, hafter.kept⟩
  · intro num sz hlegal
    obtain ⟨s', a', p, fresh, hcode, -, -, hzero⟩ := ha.rep.calloc_effect ha.inv
      (Or.imp_left a.servable_of_lt hlegal)
    exact ⟨s', p, hcode, hzero⟩

/-- Two allocations, of which the second is freed. -/
theorem live_undisturbed_example :
    ∃ st st' : Session, st.live = [(0x103048, 20), (0x103020, 8)] ∧ st.step (.free 0x103048) = some st' ∧
      (0x103020, 8) ∈ st'.live ∧ Undisturbed st.heap.mem st'.heap.mem (0x103020, 8) := by
  have hbrk : HeapStart (grantAll 0x103000) := ⟨by decide, by decide, by decide⟩
  have hview : ((Session.start (fun _ => 0) (grantAll 0x103000)).run
      [.malloc 8, .malloc 20]).map (·.live) = some [(0x103048, 20), (0x103020, 8)] := by
    decide +kernel
  obtain ⟨st, hrun, hreach⟩ := (Reachable.start (fun _ => 0)).run hbrk [.malloc 8, .malloc 20]
    ⟨(by decide : 8 < 2 ^ 62), fun _ _ =>
      ⟨(by decide : 20 < 2 ^ 62), fun _ _ => trivial⟩⟩
  rw [hrun, Option.map_some, Option.some.injEq] at hview
  obtain ⟨st', hstep, hkept⟩ := (live_undisturbed hbrk hreach).1 (.free 0x103048)
    (Or.inr ⟨20, by simp [hview]⟩)
  obtain ⟨hlive, hsame⟩ := hkept (0x103020, 8) (by simp [hview]) (by decide : 0x103048 ≠ 0x103020)
  exact ⟨st, st', hview, hstep, hlive, hsame⟩

/-- `2 ^ 31` allocations, a byte written to one of them, and a `heap_info` whose first array is granted and whose
second one is refused. Its count is negative, and it writes a header over the byte. -/
theorem heap_info_disturbs :
    ¬ ∀ (brk : Break) (st : Session) (info : HeapInfoStruct), HeapStart brk → Reachable brk st →
      ∃ s' info' r, heapInfo st.heap info = some (s', info', r) ∧
        ∀ e ∈ st.live, Undisturbed st.heap.mem s'.mem e := by
  intro hall
  obtain ⟨brk, st, a, i, hbrk, hreach, hlive, -, hone, hcode⟩ := exists_negative 1
  obtain ⟨s₁, info₁, b, hcode₁, hrep⟩ := hcode blankInfo
  obtain ⟨s', info', r, hcode', hsame⟩ := hall _ _ blankInfo hbrk hreach
  obtain ⟨rfl, -⟩ : s₁ = s' ∧ _ := Prod.mk.inj (Option.some.inj (hcode₁.symm.trans hcode'))
  have hkept := (hsame _ hlive).bytes (i + HEADER) ⟨Nat.le_refl _, Nat.lt_add_of_pos_right (Nat.succ_pos 16311)⟩
  rw [hone] at hkept
  -- the low byte of the size is there instead
  have hsize : field s₁.mem (i + HEADER) .size = 16352 :=
    hrep.freeSize ⟨i + HEADER, 16352⟩ ((insertFree_perm _ _).mem_iff.2 List.mem_cons_self)
  rw [field, loadLE, Field.offset, Nat.add_zero, hkept] at hsize
  have hbyte : (1 : UInt8).toNat = 1 := rfl
  omega

/-! ## The canonical free list -/

/-- The free blocks, in list order. -/
def FreeBlocks (s : Heap) (bs : List Span) : Prop :=
  ∃ fs, Chain NULL (field s.mem · .next) s.freeList.head fs ∧ bs = fs.map (blockAt s.mem)

/-- The allocated blocks, in list order. -/
def AllocBlocks (s : Heap) (bs : List Span) : Prop :=
  ∃ as, Chain NULL (field s.mem · .next) s.allocList.head as ∧ bs = as.map (blockAt s.mem)

theorem Rep.freeBlocks {s : Heap} {a : Layout} (h : Rep s a) : FreeBlocks s a.free :=
  ⟨_, h.walks.free, h.blockAt_free.symm⟩

theorem Rep.allocBlocks {s : Heap} {a : Layout} (h : Rep s a) :
    AllocBlocks s (a.alloc.map Alloc.span) :=
  ⟨_, h.walks.alloc, h.blockAt_alloc.symm⟩

theorem AllocBlocks.unique {s : Heap} {bs cs : List Span} (hb : AllocBlocks s bs)
    (hc : AllocBlocks s cs) : bs = cs := by
  obtain ⟨xs, hx, rfl⟩ := hb
  obtain ⟨ys, hy, rfl⟩ := hc
  rw [hx.unique hy]

/-- Free space is the heap without the allocated blocks. -/
theorem Layout.Inv.covered_free {b0 : Nat} {a : Layout} (h : a.Inv b0) (x : Nat) :
    Covered a.free x ↔
      (b0 ≤ x ∧ x < a.brk.current) ∧ ∀ b ∈ a.alloc.map Alloc.span, ¬ b.Has x := by
  constructor
  · rintro ⟨b, hb, hx⟩
    refine ⟨?_, fun c hc hcx => ?_⟩
    · have hbounds := h.tiled.bounds (Layout.Inv.mem_free hb)
      have h1 := hx.1
      have h2 := hx.2
      omega
    · exact ((List.pairwise_append.1 h.apart).2.2 b hb c hc).not_has hx hcx
  · rintro ⟨⟨hlo, hhi⟩, hnot⟩
    obtain ⟨b, hb, hx⟩ := h.tiled.covers hlo hhi
    rcases List.mem_append.1 hb with hb | hb
    · exact ⟨b, hb, hx⟩
    · exact absurd hx (hnot b hb)

/-- The bounds of the heap and the allocated blocks determine the coalesced free blocks. -/
theorem Layout.Inv.coalesce_unique {b0 : Nat} {a a' : Layout} (h : a.Inv b0) (h' : a'.Inv b0)
    (hcur : a.brk.current = a'.brk.current)
    (halloc : ∀ b, b ∈ a.alloc.map Alloc.span ↔ b ∈ a'.alloc.map Alloc.span) :
    coalesce a.free = coalesce a'.free := by
  apply (separated_coalesce h.ascending).unique (separated_coalesce h'.ascending)
  intro x
  rw [covered_coalesce, covered_coalesce, h.covered_free, h'.covered_free, hcur]
  simp only [halloc]

/-- What `defrag` leaves on the free list of a state with layout `a`. -/
theorem Session.Inv.defrag_blocks {b0 : Nat} {s : Heap} {a : Layout} (hrep : Rep s a)
    (hinv : a.Inv b0) : ∃ s', defrag s = some s' ∧ FreeBlocks s' (coalesce a.free) := by
  obtain ⟨s', hcode, e⟩ := hrep.defrag_effect hinv
  exact ⟨s', hcode, e.rep.freeBlocks⟩

/-- `defrag` gives the same free blocks in any two reachable states with the same heap start, the same
break and the same allocated blocks; in particular freeing what `malloc` has just carved out of the
heap is undone by it. -/
theorem defrag_canonical :
    (∀ brk₁ brk₂ st₁ st₂ bs₁ bs₂, HeapStart brk₁ → HeapStart brk₂ →
      brk₁.current = brk₂.current → Reachable brk₁ st₁ → Reachable brk₂ st₂ →
      st₁.heap.brk.current = st₂.heap.brk.current →
      AllocBlocks st₁.heap bs₁ → AllocBlocks st₂.heap bs₂ → (∀ b, b ∈ bs₁ ↔ b ∈ bs₂) →
      ∃ s₁ s₂ bs, defrag st₁.heap = some s₁ ∧ defrag st₂.heap = some s₂ ∧
        FreeBlocks s₁ bs ∧ FreeBlocks s₂ bs) ∧
    ∀ brk st n, HeapStart brk → Reachable brk st → 0 < n → n < 2 ^ 62 →
      ∃ s p, malloc st.heap n = some (s, p) ∧
        (p ≠ NULL → s.brk.current = st.heap.brk.current →
          ∃ s' s₁ s₂ bs, free s p = some s' ∧ defrag s' = some s₁ ∧ defrag st.heap = some s₂ ∧
            FreeBlocks s₁ bs ∧ FreeBlocks s₂ bs) := by
  constructor
  · intro brk₁ brk₂ st₁ st₂ bs₁ bs₂ hbrk₁ hbrk₂ hstart h₁ h₂ hcur hb₁ hb₂ hsame
    obtain ⟨a₁, ha₁⟩ := h₁.inv hbrk₁
    obtain ⟨a₂, ha₂⟩ := h₂.inv hbrk₂
    rw [hb₁.unique ha₁.rep.allocBlocks, hb₂.unique ha₂.rep.allocBlocks] at hsame
    rw [ha₁.rep.brk, ha₂.rep.brk] at hcur
    rw [hstart] at ha₁
    obtain ⟨s₁, hcode₁, hfree₁⟩ := Session.Inv.defrag_blocks ha₁.rep ha₁.inv
    obtain ⟨s₂, hcode₂, hfree₂⟩ := Session.Inv.defrag_blocks ha₂.rep ha₂.inv
    rw [ha₁.inv.coalesce_unique ha₂.inv hcur hsame] at hfree₁
    exact ⟨s₁, s₂, _, hcode₁, hcode₂, hfree₁, hfree₂⟩
  · intro brk st n hbrk h hpos hn
    obtain ⟨a, ha⟩ := h.inv hbrk
    obtain ⟨s, fresh, hcode, hret, e⟩ := ha.rep.malloc_effect ha.inv (a.servable_of_lt hn)
    refine ⟨s, _, hcode, fun hp hgrow => ?_⟩
    obtain ⟨hnull, -⟩ | ⟨c, rfl, hpc, -⟩ := hret
    · exact absurd hnull hp
    obtain ⟨s', hcode', e'⟩ := e.rep.free_effect e.inv (e.fresh_mem c (by simp))
    obtain ⟨s₁, hdefrag₁, hfree₁⟩ := Session.Inv.defrag_blocks e'.rep e'.inv
    obtain ⟨s₂, hdefrag₂, hfree₂⟩ := Session.Inv.defrag_blocks ha.rep ha.inv
    -- the block has gone to the alloc list and back
    have hperm : a.alloc.Perm ((a.malloc n).1.release c).alloc := by
      have h1 := (e.trans e').alloc
      exact (List.perm_cons c).1 h1
    have hcur : a.brk.current = ((a.malloc n).1.release c).brk.current := by
      rw [← ha.rep.brk, ← hgrow, e.rep.brk]
      rfl
    rw [← ha.inv.coalesce_unique e'.inv hcur fun b => (hperm.map Alloc.span).mem_iff] at hfree₁
    rw [hpc]
    exact ⟨s', s₁, s₂, _, hcode', hdefrag₁, hdefrag₂, hfree₁, hfree₂⟩

/-- One block, allocated alone or followed by another one that has been freed: the free lists differ until `defrag`. -/
theorem defrag_canonical_example :
    ∃ st₁ st₂ s₁ s₂ bs, (Session.start (fun _ => 0) (grantAll 0x103000)).run [.malloc 24] = some st₁ ∧
      (Session.start (fun _ => 0) (grantAll 0x103000)).run [.malloc 24, .malloc 8, .free 0x103058] = some st₂ ∧
      st₁.heap.freeList.size = 1 ∧ st₂.heap.freeList.size = 2 ∧
      defrag st₁.heap = some s₁ ∧ defrag st₂.heap = some s₂ ∧ FreeBlocks s₁ bs ∧ FreeBlocks s₂ bs := by
  have hbrk : HeapStart (grantAll 0x103000) := ⟨by decide, by decide, by decide⟩
  obtain ⟨look, hlook⟩ : ∃ look : Session → Nat × Nat × Nat × Nat × Int, look = fun st =>
      (st.heap.brk.current, st.heap.allocList.head, field st.heap.mem 0x103000 .next,
        field st.heap.mem 0x103000 .size, st.heap.freeList.size) := ⟨_, rfl⟩
  have hview₁ : ((Session.start (fun _ => 0) (grantAll 0x103000)).run [.malloc 24]).map look =
      some (0x107000, 0x103000, 0, 56, 1) := by
    rw [hlook]
    decide +kernel
  have hview₂ : ((Session.start (fun _ => 0) (grantAll 0x103000)).run [.malloc 24, .malloc 8, .free 0x103058]).map
      look = some (0x107000, 0x103000, 0, 56, 2) := by
    rw [hlook]
    decide +kernel
  have hlive : ∀ st : Session, (Session.start (fun _ => 0) (grantAll 0x103000)).run [.malloc 24, .malloc 8] = some st →
      (0x103058, 8) ∈ st.live := by
    have hview : ((Session.start (fun _ => 0) (grantAll 0x103000)).run [.malloc 24, .malloc 8]).map (·.live) =
        some [(0x103058, 8), (0x103020, 24)] := by
      decide +kernel
    intro st hrun
    rw [hrun, Option.map_some, Option.some.injEq] at hview
    simp [hview]
  have hlegal₁ : (Session.start (fun _ => 0) (grantAll 0x103000)).Legal (.malloc 24) := (by decide : 24 < 2 ^ 62)
  obtain ⟨st₁, hrun₁, hreach₁⟩ := (Reachable.start (fun _ => 0)).run hbrk [.malloc 24] ⟨hlegal₁, fun _ _ => trivial⟩
  obtain ⟨st₂, hrun₂, hreach₂⟩ := (Reachable.start (fun _ => 0)).run hbrk [.malloc 24, .malloc 8, .free 0x103058]
    ⟨hlegal₁, fun st hstep => ⟨(by decide : 8 < 2 ^ 62), fun st' hstep' => ⟨Or.inr ⟨8, hlive st' (by
      simp only [Session.run, hstep, hstep'])⟩, fun _ _ => trivial⟩⟩⟩
  rw [hrun₁, Option.map_some, Option.some.injEq, hlook] at hview₁
  rw [hrun₂, Option.map_some, Option.some.injEq, hlook] at hview₂
  simp only [Prod.mk.injEq] at hview₁ hview₂
  obtain ⟨hcur₁, hhead₁, hnext₁, hsize₁, hfree₁⟩ := hview₁
  obtain ⟨hcur₂, hhead₂, hnext₂, hsize₂, hfree₂⟩ := hview₂
  have hblocks : ∀ st : Session, st.heap.allocList.head = 0x103000 → field st.heap.mem 0x103000 .next = 0 →
      field st.heap.mem 0x103000 .size = 56 → AllocBlocks st.heap [⟨0x103000, 56⟩] := by
    intro st hhead hnext hsize
    refine ⟨[0x103000], ⟨hhead, by decide, hnext⟩, ?_⟩
    rw [List.map_singleton, blockAt, hsize]
  obtain ⟨s₁, s₂, bs, hcode₁, hcode₂, hsame₁, hsame₂⟩ := defrag_canonical.1 _ _ st₁ st₂ _ _ hbrk hbrk rfl hreach₁ hreach₂
    (hcur₁.trans hcur₂.symm) (hblocks st₁ hhead₁ hnext₁ hsize₁) (hblocks st₂ hhead₂ hnext₂ hsize₂) fun _ => Iff.rfl
  exact ⟨st₁, st₂, s₁, s₂, bs, hrun₁, hrun₂, hfree₁, hfree₂, hcode₁, hcode₂, hsame₁, hsame₂⟩

end MemoryManagement.Malloc
