import MemoryManagement.Malloc.Operations

/-!
# `defrag` and `heap_info`

The two calls that walk the lists. `defrag` joins the free blocks as `coalesce` does. `heap_info`
allocates two arrays and fills them while it walks the alloc list; its writes stay inside the two
payloads, so the walk sees the headers as they were.
-/

set_option autoImplicit false

namespace MemoryManagement.Malloc

open MemoryManagement.Library.ByteMemory
open MemoryManagement.Library.DoublyLinked
open MemoryManagement.Library.Tiling

section Walks

variable {b0 : Nat} {s : Heap} {a : Layout}

/-! ## `defrag` -/

/-- Writing the size of a free block. -/
theorem Rep.setFreeSize (h : Rep s a) (hsep : Separate a.nodes) {pre bs : List Span} {b : Span}
    (hfree : a.free = pre ++ b :: bs) {v : Nat} (hv : v < 2 ^ 64) :
    Rep { s with mem := setField s.mem b.start .size v }
      { a with free := pre ++ ⟨b.start, v⟩ :: bs } := by
  have hbn : b.start ∈ a.nodes := by
    rw [Layout.nodes_eq, hfree]
    simp
  have hset : ∀ p ∈ a.nodes, ∀ f, field (setField s.mem b.start .size v) p f =
      if b.start = p ∧ .size = f then v else field s.mem p f := fun p hp f =>
    field_setField (hsep.apart_mem _ hbn p hp) hv
  have hmap : (pre ++ ⟨b.start, v⟩ :: bs).map Span.start = a.free.map Span.start := by
    rw [hfree]
    simp
  -- the links are other fields of the header
  have hlinks : ∀ p ∈ a.nodes, ∀ f, f ≠ .size →
      field (setField s.mem b.start .size v) p f = field s.mem p f := fun p hp f hf => by
    rw [hset p hp, if_neg fun h => hf h.2.symm]
  have hlist : ∀ (l : EltList) (xs : List Nat), (∀ p ∈ xs, p ∈ a.nodes) → ListRep s.mem l xs →
      ListRep (setField s.mem b.start .size v) l xs := fun l xs hxs hl =>
    { hl with
      segment := hl.segment.congr (fun x hx => hlinks x (hxs x hx) _ (by decide))
        fun x hx => hlinks x (hxs x hx) _ (by decide) }
  have hsepn := hsep
  rw [Layout.nodes_eq] at hsepn
  refine ⟨?_, hlist _ _ (fun p hp => Layout.mem_nodes_alloc hp) h.allocList, ?_, ?_, ?_, h.brk⟩
  · rw [hmap]
    exact hlist _ _ (fun p hp => Layout.mem_nodes_free hp) h.freeList
  · intro c hc
    have hcn : c.start ∈ a.nodes := Layout.mem_nodes_free (hmap ▸ List.mem_map_of_mem hc)
    show field (setField s.mem b.start .size v) c.start .size = c.len
    rw [hset _ hcn]
    by_cases hcb : c = ⟨b.start, v⟩
    · simp [hcb]
    · have hc' : c ∈ a.free ∧ b.start ≠ c.start := by
        have hnd := h.freeList.nodup
        rw [hfree, List.map_append, List.map_cons, List.nodup_middle, List.nodup_cons] at hnd
        have hmem : c ∈ pre ++ bs := by
          rcases List.mem_append.1 hc with h1 | h1
          · exact List.mem_append_left _ h1
          · rcases List.mem_cons.1 h1 with h2 | h2
            · exact absurd h2 hcb
            · exact List.mem_append_right _ h2
        refine ⟨?_, fun e => hnd.1 ?_⟩
        · rw [hfree]
          exact List.perm_middle.mem_iff.2 (List.mem_cons_of_mem _ hmem)
        · rw [e, ← List.map_append]
          exact List.mem_map_of_mem hmem
      rw [if_neg fun e => hc'.2 e.1]
      exact h.freeSize c hc'.1
  · intro c hc
    have hcn : c.addr ∈ a.nodes := Layout.mem_nodes_alloc (List.mem_map_of_mem hc)
    show field (setField s.mem b.start .size v) c.addr .size = c.size
    rw [hset _ hcn, if_neg fun e => ?_]
    · exact h.allocSize c hc
    · have hbf : b.start ∈ a.free.map Span.start := by
        rw [hfree]
        simp
      exact hsepn.disjoint hbf (e.1 ▸ List.mem_map_of_mem hc)
  · intro c hc
    rw [hlinks c.addr (Layout.mem_nodes_alloc (List.mem_map_of_mem hc)) _ (by decide)]
    exact h.allocBytes c hc

/-- The block after `b` on the free list. -/
theorem Rep.next_free (h : Rep s a) (pre : List Span) {bs : List Span} {b : Span}
    (hfree : a.free = pre ++ b :: bs) :
    field s.mem b.start .next = (bs.map Span.start).headD NULL := by
  have hseg := h.freeList.segment
  rw [hfree, List.map_append, List.map_cons] at hseg
  exact hseg.links.2

/-- The loop of `defrag`, from the free block `b` on. -/
theorem defragLoop_spec {fuel : Nat} (pre : List Span) {bs : List Span} {b : Span} (h : Rep s a)
    (hsep : Separate a.nodes) (hfree : a.free = pre ++ b :: bs) (hasc : Ascending (b :: bs))
    (hlt : ∀ c ∈ b :: bs, c.start + c.len < 2 ^ 64) (hfuel : bs.length < fuel) :
    ∃ s', defragLoop fuel s b.start ((bs.map Span.start).headD NULL) = some s' ∧
      Rep s' { a with free := pre ++ coalesceFrom b bs } ∧ HeadersOnly s.mem s'.mem a.nodes := by
  induction bs generalizing s a b pre fuel with
  | nil =>
      obtain ⟨k, rfl⟩ : ∃ k, fuel = k + 1 := ⟨fuel - 1, by simp at hfuel; omega⟩
      refine ⟨s, rfl, ?_, fun _ _ => rfl⟩
      rw [coalesceFrom, ← hfree]
      exact h
  | cons c cs ih =>
      obtain ⟨k, rfl⟩ : ∃ k, fuel = k + 1 := ⟨fuel - 1, by simp at hfuel; omega⟩
      have hk : cs.length < k := by
        simp only [List.length_cons] at hfuel
        omega
      have hbm : b ∈ a.free := by simp [hfree]
      have hcm : c ∈ a.free := by simp [hfree]
      have hc0 : c.start ≠ NULL := fun e =>
        h.freeList.nonnull (e ▸ List.mem_map_of_mem hcm)
      have hbc := (List.pairwise_cons.1 hasc.sorted).1 c (by simp)
      have hclt := hlt c (by simp)
      have hsub : sub64 c.start b.start = c.start - b.start := sub64_of_le (by omega) (by omega)
      rw [List.map_cons, List.headD_cons, defragLoop, if_neg hc0, hsub, h.freeSize b hbm]
      by_cases hjoin : b.start + b.len = c.start
      · have hjoin' : c.start - b.start = b.len := by omega
        have hadd : add64 b.len (field s.mem c.start .size) = b.len + c.len := by
          rw [h.freeSize c hcm]
          exact add64_of_lt (by omega)
        rw [if_pos hjoin', hadd]
        have hset := h.setFreeSize hsep hfree (v := b.len + c.len) (by omega)
        -- the two layouts have the same headers
        have hnodes : Layout.nodes { a with free := pre ++ ⟨b.start, b.len + c.len⟩ :: c :: cs } =
            a.nodes := by
          rw [Layout.nodes_eq, Layout.nodes_eq, hfree]
          simp
        have hcm' : c ∈ pre ++ (⟨b.start, b.len + c.len⟩ : Span) :: c :: cs := by simp
        obtain ⟨hrem, hlinks⟩ := hset.removeFree (by rw [hnodes]; exact hsep) hcm'
        have herase : (pre ++ (⟨b.start, b.len + c.len⟩ : Span) :: c :: cs).erase c =
            pre ++ ⟨b.start, b.len + c.len⟩ :: cs := by
          have hnd := h.freeList.nodup
          rw [hfree, List.map_append, List.map_cons, List.map_cons] at hnd
          have hpre : c ∉ pre := fun hc => by
            refine (List.nodup_append.1 hnd).2.2 c.start (List.mem_map_of_mem hc) c.start ?_ rfl
            simp
          have hne : (⟨b.start, b.len + c.len⟩ : Span) ≠ c := fun e => by
            have := congrArg Span.start e
            have hpos := hasc.pos b (by simp)
            simp only at this
            omega
          rw [List.erase_append_right _ hpre, List.erase_cons_tail (by simpa using hne),
            List.erase_cons_head]
        simp only [herase] at hrem
        have hsublist : (Layout.nodes { a with free := pre ++ ⟨b.start, b.len + c.len⟩ :: cs }).Sublist
            a.nodes := by
          rw [← hnodes, ← herase]
          exact ((List.erase_sublist).append_right _).map _
        have hnext := hrem.next_free pre rfl
        have hrest := ih pre hrem (hsep.sublist hsublist) rfl (hasc.join hjoin) (fun d hd => by
          rcases List.mem_cons.1 hd with rfl | hd'
          · simp only
            omega
          · exact hlt d (by simp [hd'])) hk
        obtain ⟨s', hcode, hrep, hm⟩ := hrest
        refine ⟨s', ?_, ?_, ?_⟩
        · simp only [hnext]
          exact hcode
        · rw [coalesceFrom, if_pos hjoin]
          exact hrep
        · have h1 : HeadersOnly s.mem (setField s.mem b.start .size (b.len + c.len)) a.nodes :=
            headersOnly_setField (Layout.mem_nodes_free (List.mem_map_of_mem hbm))
          refine (h1.trans (hlinks.headersOnly.mono fun p hp => ?_)).trans
            (hm.mono fun p hp => hsublist.subset hp)
          rw [← hnodes]
          exact Layout.mem_nodes_free hp
      · have hjoin' : ¬ c.start - b.start = b.len := by omega
        have hfree' : a.free = (pre ++ [b]) ++ c :: cs := by simp [hfree]
        rw [if_neg hjoin', h.next_free (pre ++ [b]) hfree']
        obtain ⟨s', hcode, hrep, hm⟩ := ih (pre ++ [b]) h hsep hfree' hasc.tail (fun d hd => hlt d (by
          simp only [List.mem_cons] at hd ⊢
          exact Or.inr hd)) hk
        refine ⟨s', hcode, ?_, hm⟩
        rw [coalesceFrom, if_neg hjoin]
        simpa using hrep

/-- `defrag()` joins neighbouring free blocks and leaves the alloc list and all payloads alone. -/
theorem Rep.defrag_effect (h : Rep s a) (hinv : a.Inv b0) :
    ∃ s', Malloc.defrag s = some s' ∧ Effect b0 s a s' a.defrag [] [] := by
  have hframe : ∀ {s' : Heap}, Rep s' a.defrag → HeadersOnly s.mem s'.mem a.nodes →
      Effect b0 s a s' a.defrag [] [] := fun hrep hm =>
    ⟨hrep, hinv.defrag, List.Perm.refl _, fun b hb _ x hx =>
      hm x (hinv.payload_outside (Layout.Inv.mem_alloc hb) hx.1 hx.2)⟩
  have hasc := hinv.ascending
  rw [Malloc.defrag]
  cases hfree : a.free with
  | nil =>
      have hhead : s.freeList.head = NULL := by rw [h.freeList.head, hfree]; rfl
      rw [if_pos hhead]
      refine ⟨s, rfl, hframe ?_ fun _ _ => rfl⟩
      have : a.defrag = a := by
        rw [Layout.defrag, hfree, coalesce, ← hfree]
      rw [this]
      exact h
  | cons b bs =>
      have hhead : s.freeList.head = b.start := by rw [h.freeList.head, hfree]; rfl
      have hmem : ∀ c ∈ b :: bs, c ∈ a.spans := fun c hc =>
        Layout.Inv.mem_free (by rw [hfree]; exact hc)
      have hb0 : b.start ≠ NULL := Nat.ne_of_gt (hinv.bounds (hmem b (by simp))).1
      have hlen : bs.length < loopBound := by
        have := Layout.free_length_lt hinv
        rw [hfree, List.length_cons] at this
        omega
      rw [hfree] at hasc
      obtain ⟨s', hcode, hrep, hm⟩ := defragLoop_spec [] h hinv.separate hfree hasc
        (fun c hc => (hinv.bounds (hmem c hc)).2.2) hlen
      rw [hhead, if_neg hb0, h.next_free [] hfree]
      refine ⟨s', hcode, hframe ?_ hm⟩
      rw [Layout.defrag, hfree]
      exact hrep

/-! ## `heap_info` -/

/-- One round of the first loop of `heap_info`. -/
def addStat (stats : Int × Int) (b : Span) : Int × Int :=
  (toInt32 (stats.1 + b.len), if stats.2 ≤ toInt32 b.len then toInt32 b.len else stats.2)

theorem freeStats_spec {m : Mem} {p fuel : Nat} {bs : List Span} (total largest : Int)
    (hseg : Segment (field m · .prev) (field m · .next) p (bs.map Span.start) NULL)
    (hnull : NULL ∉ bs.map Span.start) (hsize : ∀ b ∈ bs, field m b.start .size = b.len)
    (hfuel : bs.length < fuel) :
    freeStats m fuel ((bs.map Span.start).headD NULL) total largest =
      some (bs.foldl addStat (total, largest)) := by
  induction bs generalizing p fuel total largest with
  | nil =>
      obtain ⟨k, rfl⟩ : ∃ k, fuel = k + 1 := ⟨fuel - 1, by simp at hfuel; omega⟩
      rfl
  | cons b bs ih =>
      obtain ⟨k, rfl⟩ : ∃ k, fuel = k + 1 := ⟨fuel - 1, by simp at hfuel; omega⟩
      obtain ⟨-, hnext, hseg'⟩ := hseg
      have hb : b.start ≠ NULL := fun e => hnull (by simp [e])
      have hk : bs.length < k := by
        simp at hfuel
        omega
      rw [List.map_cons, List.headD_cons, freeStats, if_neg hb, hsize b (by simp), List.foldl_cons]
      simp only [hnext]
      exact ih _ _ hseg' (fun e => hnull (List.mem_cons_of_mem _ e))
        (fun c hc => hsize c (by simp [hc])) hk

/-- The entries of the blocks `bs` written to the two arrays, from index `i` on. -/
def writeEntries (sizeArray ptrArray : Nat) : Mem → Nat → List Alloc → Mem
  | m, _, [] => m
  | m, i, b :: bs =>
      writeEntries sizeArray ptrArray
        (storeLE (storeLE m (sizeArray + 8 * i) 8 b.bytes) (ptrArray + 8 * i) 8 (b.addr + HEADER))
        (i + 1) bs

/-- Only the words of the entries are written. -/
theorem writeEntries_of_not_inRange {sizeArray ptrArray i y : Nat} {m : Mem} {bs : List Alloc}
    (hsize : ¬ InRange (sizeArray + 8 * i) (8 * bs.length) y)
    (hptr : ¬ InRange (ptrArray + 8 * i) (8 * bs.length) y) :
    writeEntries sizeArray ptrArray m i bs y = m y := by
  induction bs generalizing m i with
  | nil => rfl
  | cons b bs ih =>
      rw [List.length_cons] at hsize hptr
      have hsize' : ¬ InRange (sizeArray + 8 * (i + 1)) (8 * bs.length) y := by omega
      have hptr' : ¬ InRange (ptrArray + 8 * (i + 1)) (8 * bs.length) y := by omega
      rw [writeEntries, ih hsize' hptr', storeLE_of_not_inRange (by omega),
        storeLE_of_not_inRange (by omega)]

theorem elementAt_of_lt {array i : Nat} (h : array + 8 * i < 2 ^ 64) : elementAt array i = array + 8 * i := by
  rw [elementAt]
  omega

/-- The loop of `heap_info` writes one entry for every block that is not one of the arrays. It walks the
headers while it writes, so no entry may lie in a header, and the index must not wrap around. -/
theorem fillArrays_spec {sizeArray ptrArray k p fuel i : Nat} {m : Mem} {bs : List Alloc}
    (hk : k < 2 ^ 31) (hroom : sizeArray + 8 * k ≤ 2 ^ 64 ∧ ptrArray + 8 * k ≤ 2 ^ 64)
    (hseg : Segment (field m · .prev) (field m · .next) p (bs.map Alloc.addr) NULL)
    (hnull : NULL ∉ bs.map Alloc.addr)
    (hblock : ∀ b ∈ bs, field m b.addr .allocBytes = b.bytes ∧ add64 b.addr HEADER = b.addr + HEADER)
    (hout : ∀ b ∈ bs, ∀ y, InRange b.addr 32 y →
      ¬ InRange sizeArray (8 * k) y ∧ ¬ InRange ptrArray (8 * k) y)
    (hcount : i + (bs.filter fun b => b.addr ≠ sub64 sizeArray HEADER ∧
      b.addr ≠ sub64 ptrArray HEADER).length ≤ k)
    (hfuel : bs.length < fuel) :
    fillArrays sizeArray ptrArray fuel m ((bs.map Alloc.addr).headD NULL) i =
      some (writeEntries sizeArray ptrArray m i (bs.filter fun b =>
        b.addr ≠ sub64 sizeArray HEADER ∧ b.addr ≠ sub64 ptrArray HEADER)) := by
  induction bs generalizing p fuel i m with
  | nil =>
      obtain ⟨j, rfl⟩ : ∃ j, fuel = j + 1 := ⟨fuel - 1, by simp at hfuel; omega⟩
      rfl
  | cons b bs ih =>
      obtain ⟨j, rfl⟩ : ∃ j, fuel = j + 1 := ⟨fuel - 1, by simp at hfuel; omega⟩
      have hj : bs.length < j := by
        simp at hfuel
        omega
      have hb : b.addr ≠ NULL := fun e => hnull (by simp [e])
      have hnull' : NULL ∉ bs.map Alloc.addr := fun e => hnull (List.mem_cons_of_mem _ e)
      have hout' : ∀ c ∈ bs, ∀ y, InRange c.addr 32 y →
          ¬ InRange sizeArray (8 * k) y ∧ ¬ InRange ptrArray (8 * k) y := fun c hc =>
        hout c (List.mem_cons_of_mem _ hc)
      obtain ⟨hbytes, hpay⟩ := hblock b (by simp)
      rw [List.map_cons, List.headD_cons, fillArrays, if_neg hb]
      by_cases hother : b.addr ≠ sub64 sizeArray HEADER ∧ b.addr ≠ sub64 ptrArray HEADER
      · rw [List.filter_cons_of_pos (by simpa using hother)] at hcount ⊢
        rw [List.length_cons] at hcount
        obtain ⟨hsizeRoom, hptrRoom⟩ := hroom
        have hsizeAt : elementAt sizeArray i = sizeArray + 8 * i := elementAt_of_lt (by omega)
        have hptrAt : elementAt ptrArray i = ptrArray + 8 * i := elementAt_of_lt (by omega)
        have hindex : i + 1 < 2 ^ 31 := by omega
        rw [if_pos hother, hbytes, hpay, writeEntries, hsizeAt, hptrAt, toInt32_succ hindex]
        -- entry `i` lies inside the two arrays, so no header changes
        have hfield : ∀ c ∈ b :: bs, ∀ f, field (storeLE (storeLE m (sizeArray + 8 * i) 8 b.bytes)
            (ptrArray + 8 * i) 8 (b.addr + HEADER)) c.addr f = field m c.addr f := by
          intro c hc f
          apply field_congr
          intro y hy
          obtain ⟨h1, h2⟩ := hout c hc y hy
          rw [storeLE_of_not_inRange (by omega), storeLE_of_not_inRange (by omega)]
        have hlink : ∀ x ∈ (b :: bs).map Alloc.addr, ∀ f,
            field (storeLE (storeLE m (sizeArray + 8 * i) 8 b.bytes)
              (ptrArray + 8 * i) 8 (b.addr + HEADER)) x f = field m x f := by
          intro x hx f
          obtain ⟨c, hc, rfl⟩ := List.mem_map.1 hx
          exact hfield c hc f
        obtain ⟨-, hnext, hseg'⟩ := hseg.congr (fun x hx => hlink x hx .prev) fun x hx => hlink x hx .next
        simp only [hnext]
        apply ih hseg' hnull' _ hout' (by omega) hj
        intro c hc
        rw [hfield c (List.mem_cons_of_mem _ hc)]
        exact hblock c (List.mem_cons_of_mem _ hc)
      · rw [List.filter_cons_of_neg (by simpa using hother)] at hcount ⊢
        rw [if_neg hother]
        obtain ⟨-, hnext, hseg'⟩ := hseg
        simp only [hnext]
        exact ih hseg' hnull' (fun c hc => hblock c (List.mem_cons_of_mem _ hc)) hout' hcount hj

/-- The struct as `heap_info` leaves it over the layout `a`, apart from the two pointers. -/
def reportOf (a : Layout) (info : HeapInfoStruct) : HeapInfoStruct :=
  { info with
    numAllocs := a.alloc.length
    freeSpace := (a.free.foldl addStat (0, 0)).1
    largestFreeChunk := (a.free.foldl addStat (0, 0)).2 }

/-- Bytes that each of the two arrays has room for. -/
def arrayBytes (a : Layout) : Nat := 8 * a.alloc.length

/-- The runs of `heap_info`: nothing is allocated, the first array is refused, the second one is, or both
are there and are filled. -/
inductive HeapInfoRun (b0 : Nat) (s : Heap) (a : Layout) (info : HeapInfoStruct) : Prop where
  | empty (hempty : a.alloc = [])
      (hcode : heapInfo s info = some (s, { reportOf a info with sizeArray := NULL, ptrArray := NULL }, 0))
  | firstRefused (hsome : a.alloc ≠ []) (s₁ : Heap) (hnull : (a.malloc (arrayBytes a)).2 = NULL)
      (hmalloc : malloc s (arrayBytes a) = some (s₁, NULL))
      (heffect : Effect b0 s a s₁ (a.malloc (arrayBytes a)).1 [] [])
      (hcode : heapInfo s info = some (s₁, reportOf a info, -1))
  | secondRefused (hsome : a.alloc ≠ []) (s₁ s₂ : Heap) (a₁ : Layout) (c : Alloc)
      (hfirst : malloc s (arrayBytes a) = some (s₁, c.addr + HEADER))
      (heffect : Effect b0 s a s₁ a₁ [] [c]) (hbytes : c.bytes = arrayBytes a)
      (hnull : (a₁.malloc (arrayBytes a)).2 = NULL)
      (hsecond : malloc s₁ (arrayBytes a) = some (s₂, NULL))
      (heffect₂ : Effect b0 s₁ a₁ s₂ (a₁.malloc (arrayBytes a)).1 [] [])
      (hcode : heapInfo s info = some (s₂, reportOf a info, -1))
  | filled (hsome : a.alloc ≠ []) (s₁ s₂ : Heap) (a₂ : Layout) (c d : Alloc)
      (hfirst : malloc s (arrayBytes a) = some (s₁, c.addr + HEADER))
      (hsecond : malloc s₁ (arrayBytes a) = some (s₂, d.addr + HEADER))
      (heffect : Effect b0 s a s₂ a₂ [] [d, c]) (hcbytes : c.bytes = arrayBytes a)
      (hdbytes : d.bytes = arrayBytes a)
      (m : Mem) (hm : m = writeEntries (c.addr + HEADER) (d.addr + HEADER) s₂.mem 0
        (a₂.alloc.filter fun b => b.addr ≠ c.addr ∧ b.addr ≠ d.addr))
      (hcode : heapInfo s info = some ({ s₂ with mem := m },
        { reportOf a info with sizeArray := c.addr + HEADER, ptrArray := d.addr + HEADER }, 0))

/-- A header address comes back from the payload pointer. -/
theorem Layout.Inv.entire (hinv : a.Inv b0) {b : Alloc} (hb : b ∈ a.alloc) :
    sub64 (b.addr + HEADER) HEADER = b.addr ∧ add64 b.addr HEADER = b.addr + HEADER := by
  have h1 := hinv.bounds (Layout.Inv.mem_alloc hb)
  have h2 := hinv.block b.span (Layout.Inv.mem_alloc hb)
  simp only [Alloc.span] at h1 h2
  constructor
  · rw [sub64_of_le (by omega) (by simp only [HEADER]; omega), Nat.add_sub_cancel]
  · apply add64_of_lt
    simp only [HEADER]
    omega

/-- A payload ends in the address space. -/
theorem Layout.Inv.payload_end (hinv : a.Inv b0) {b : Alloc} {n : Nat} (hb : b ∈ a.alloc) (hbytes : b.bytes = n) :
    b.addr + HEADER + n ≤ 2 ^ 64 := by
  have hsize := (hinv.fits b hb).1
  have hend := (hinv.bounds (Layout.Inv.mem_alloc hb)).2.2
  rw [hbytes] at hsize
  simp only [Alloc.span] at hend
  omega

/-- The two arrays are the only blocks that are skipped. -/
theorem Effect.others {s' : Heap} {a' : Layout} {c d : Alloc} (e : Effect b0 s a s' a' [] [d, c]) :
    (a'.alloc.filter fun b => b.addr ≠ c.addr ∧ b.addr ≠ d.addr).Perm a.alloc := by
  have hperm : (d :: c :: a.alloc).Perm a'.alloc := e.alloc
  obtain ⟨hd, hrest⟩ := List.nodup_cons.1 (hperm.nodup_iff.2 e.inv.alloc_nodup)
  obtain ⟨hc, -⟩ := List.nodup_cons.1 hrest
  have hcm := e.fresh_mem c (by simp)
  have hdm := e.fresh_mem d (by simp)
  refine (hperm.symm.filter _).trans ?_
  rw [List.filter_cons_of_neg (by simp), List.filter_cons_of_neg (by simp), List.filter_eq_self.2]
  intro b hb
  have hbm : b ∈ a'.alloc := hperm.mem_iff.1 (List.mem_cons_of_mem d (List.mem_cons_of_mem c hb))
  rw [decide_eq_true_iff]
  constructor
  · intro haddr
    rw [e.inv.eq_of_addr hbm hcm haddr] at hb
    exact hc hb
  · intro haddr
    rw [e.inv.eq_of_addr hbm hdm haddr] at hb
    exact hd (List.mem_cons_of_mem c hb)

/-- The last loop of `heap_info` fills the two arrays: they are no headers, and have an entry for every other
block. -/
theorem Effect.fillArrays_eq {s' : Heap} {a' : Layout} {c d : Alloc} (e : Effect b0 s a s' a' [] [d, c])
    (hcount : a.alloc.length < 2 ^ 31) (hcbytes : c.bytes = arrayBytes a) (hdbytes : d.bytes = arrayBytes a) :
    fillArrays (c.addr + HEADER) (d.addr + HEADER) loopBound s'.mem s'.allocList.head 0 =
      some (writeEntries (c.addr + HEADER) (d.addr + HEADER) s'.mem 0
        (a'.alloc.filter fun b => b.addr ≠ c.addr ∧ b.addr ≠ d.addr)) := by
  have hcm := e.fresh_mem c (by simp)
  have hdm := e.fresh_mem d (by simp)
  have hpay : ∀ x ∈ [d, c], ∀ b ∈ a'.alloc, ∀ y,
      InRange b.addr 32 y → ¬ InRange (x.addr + HEADER) (8 * a.alloc.length) y := by
    intro x hx b hb y hy hin
    have hxm := e.fresh_mem x hx
    have hfit := (e.inv.fits x hxm).1
    have hxbytes : x.bytes = 8 * a.alloc.length := by
      rcases List.mem_cons.1 hx with rfl | hx
      · exact hdbytes
      · rw [List.mem_singleton.1 hx]
        exact hcbytes
    refine e.inv.payload_outside (Layout.Inv.mem_alloc hxm) hin.1 ?_ b.addr
      (Layout.mem_nodes_alloc (List.mem_map_of_mem hb)) hy
    simp only [Alloc.span]
    omega
  have hout := fun b hb y hy => And.intro (hpay c (by simp) b hb y hy) (hpay d (by simp) b hb y hy)
  have hothers := e.others
  have hfit : 0 + (a'.alloc.filter fun b =>
      b.addr ≠ sub64 (c.addr + HEADER) HEADER ∧ b.addr ≠ sub64 (d.addr + HEADER) HEADER).length ≤
        a.alloc.length := by
    rw [(e.inv.entire hcm).1, (e.inv.entire hdm).1, hothers.length_eq, Nat.zero_add]
  have hfill := fillArrays_spec hcount ⟨e.inv.payload_end hcm hcbytes, e.inv.payload_end hdm hdbytes⟩ e.rep.allocList.segment
    e.rep.allocList.nonnull (fun b hb => ⟨e.rep.allocBytes b hb, (e.inv.entire hb).2⟩) hout hfit
    (Layout.alloc_length_lt e.inv)
  rw [(e.inv.entire hcm).1, (e.inv.entire hdm).1, ← e.rep.allocList.head] at hfill
  exact hfill

/-- The arrays of `heap_info` are far smaller than the address space. -/
theorem Layout.Inv.arrayBytes_lt (hinv : a.Inv b0) : arrayBytes a < 2 ^ 62 := by
  have h1 := hinv.tiled.length_mul_le fun b hb => (hinv.block b hb).2.2
  have h2 := hinv.brk_lt
  rw [Layout.spans, List.length_append, List.length_map] at h1
  rw [arrayBytes]
  omega

/-- The `int` that counts the allocated blocks is exact below `2 ^ 31`. -/
theorem Rep.numAllocs (h : Rep s a) (hcount : a.alloc.length < 2 ^ 31) : s.allocList.size = a.alloc.length := by
  rw [h.allocList.size, List.length_map, toInt32_of_small hcount]

theorem arraySize_length (hcount : a.alloc.length < 2 ^ 31) : arraySize a.alloc.length = arrayBytes a := by
  rw [arraySize, arrayBytes]
  omega

/-- `heap_info` once the free list has been walked. -/
theorem Rep.heapInfo_eq (h : Rep s a) (hinv : a.Inv b0) (hcount : a.alloc.length < 2 ^ 31)
    (info : HeapInfoStruct) :
    heapInfo s info =
      if a.alloc = [] then some (s, { reportOf a info with sizeArray := NULL, ptrArray := NULL }, 0)
      else match Malloc.malloc s (arrayBytes a) with
        | none => none
        | some (s, sizeArray) =>
            if sizeArray = NULL then some (s, reportOf a info, -1)
            else
              match Malloc.malloc s (arrayBytes a) with
              | none => none
              | some (s, ptrArray) =>
                  if ptrArray = NULL then some (s, reportOf a info, -1)
                  else
                    match fillArrays sizeArray ptrArray loopBound s.mem s.allocList.head 0 with
                    | none => none
                    | some m => some ({ s with mem := m },
                        { reportOf a info with sizeArray := sizeArray, ptrArray := ptrArray }, 0) := by
  have hstats := freeStats_spec 0 0 h.freeList.segment h.freeList.nonnull h.freeSize
    (Layout.free_length_lt hinv)
  rw [← h.freeList.head] at hstats
  have hsome : (a.alloc.length : Int) = 0 ↔ a.alloc = [] := by
    rw [Int.natCast_eq_zero, List.length_eq_zero_iff]
  rw [heapInfo]
  simp only [hstats, h.numAllocs hcount, arraySize_length hcount, hsome]
  rfl

/-- `heap_info` ends in one of its runs. -/
theorem Rep.heapInfo_run (h : Rep s a) (hinv : a.Inv b0) (hcount : a.alloc.length < 2 ^ 31)
    (info : HeapInfoStruct) : HeapInfoRun b0 s a info := by
  have hcode := h.heapInfo_eq hinv hcount info
  have hlt := hinv.arrayBytes_lt
  by_cases hempty : a.alloc = []
  · rw [if_pos hempty] at hcode
    exact HeapInfoRun.empty hempty hcode
  rw [if_neg hempty] at hcode
  obtain ⟨s₁, fresh₁, hcode₁, hret₁, e₁⟩ := h.malloc_effect hinv (a.servable_of_lt hlt)
  rw [hcode₁] at hcode
  obtain ⟨hp₁, rfl⟩ | ⟨c, rfl, hc, hcbytes⟩ := hret₁
  · rw [hp₁] at hcode₁ hcode
    exact HeapInfoRun.firstRefused hempty s₁ hp₁ hcode₁ e₁ hcode
  have hp₁ : c.addr + HEADER ≠ NULL := Nat.succ_ne_zero _
  obtain ⟨s₂, fresh₂, hcode₂, hret₂, e₂⟩ := e₁.rep.malloc_effect e₁.inv (Layout.servable_of_lt _ hlt)
  rw [hc] at hcode₁ hcode
  simp only [if_neg hp₁, hcode₂] at hcode
  obtain ⟨hp₂, rfl⟩ | ⟨d, rfl, hd, hdbytes⟩ := hret₂
  · rw [if_pos hp₂] at hcode
    rw [hp₂] at hcode₂
    exact HeapInfoRun.secondRefused hempty s₁ s₂ _ c hcode₁ e₁ hcbytes hp₂ hcode₂ e₂ hcode
  have hp₂ : d.addr + HEADER ≠ NULL := Nat.succ_ne_zero _
  have e : Effect b0 s a s₂ _ [] [d, c] := e₁.trans e₂
  rw [hd] at hcode₂ hcode
  simp only [if_neg hp₂, e.fillArrays_eq hcount hcbytes hdbytes] at hcode
  exact HeapInfoRun.filled hempty s₁ s₂ _ c d hcode₁ hcode₂ e hcbytes hdbytes _ rfl hcode

/-- What `heap_info` hands out: nothing, or the payloads of two fresh arrays. A call that fails may
leave one array behind. -/
def InfoReturned (info : HeapInfoStruct) (r : Int) (fresh : List Alloc) : Prop :=
  (r = 0 ∧ info.numAllocs = 0 ∧ fresh = []) ∨ (r = -1 ∧ fresh.length ≤ 1) ∨
    ∃ c d : Alloc, r = 0 ∧ 0 < info.numAllocs ∧ fresh = [d, c] ∧
      info.sizeArray = c.addr + HEADER ∧ info.ptrArray = d.addr + HEADER ∧
      c.bytes = 8 * info.numAllocs.toNat ∧ d.bytes = 8 * info.numAllocs.toNat

/-- `heap_info` ends, and writes only into the arrays it has allocated. -/
theorem Rep.heapInfo_effect (h : Rep s a) (hinv : a.Inv b0) (hcount : a.alloc.length < 2 ^ 31)
    (info : HeapInfoStruct) :
    ∃ s' a' info' r fresh, heapInfo s info = some (s', info', r) ∧ InfoReturned info' r fresh ∧
      Effect b0 s a s' a' [] fresh := by
  cases h.heapInfo_run hinv hcount info with
  | empty hempty hcode =>
      refine ⟨_, a, _, _, [], hcode, Or.inl ⟨rfl, ?_, rfl⟩, Effect.refl h hinv⟩
      show (a.alloc.length : Int) = 0
      rw [hempty]
      rfl
  | firstRefused hsome s₁ hnull hmalloc heffect hcode =>
      exact ⟨s₁, _, _, _, [], hcode, Or.inr (Or.inl ⟨rfl, Nat.zero_le _⟩), heffect⟩
  | secondRefused hsome s₁ s₂ a₁ c hfirst heffect hbytes hnull hsecond heffect₂ hcode =>
      exact ⟨s₂, _, _, _, [c], hcode, Or.inr (Or.inl ⟨rfl, Nat.le_refl _⟩), heffect.trans heffect₂⟩
  | filled hsome s₁ s₂ a₂ c d hfirst hsecond heffect hcbytes hdbytes m hm hcode =>
      have hpos : (0 : Int) < a.alloc.length :=
        Int.natCast_pos.2 (List.length_pos_iff.2 hsome)
      refine ⟨_, a₂, _, _, [d, c], hcode, Or.inr (Or.inr ⟨c, d, rfl, hpos, rfl, rfl, rfl, hcbytes,
        hdbytes⟩), heffect.write heffect.fresh_mem fun x hx => ?_⟩
      have hothers := heffect.others
      have hcfit := (heffect.inv.fits c (heffect.fresh_mem c (by simp))).1
      have hdfit := (heffect.inv.fits d (heffect.fresh_mem d (by simp))).1
      rw [hcbytes, arrayBytes] at hcfit
      rw [hdbytes, arrayBytes] at hdfit
      rw [hm]
      apply writeEntries_of_not_inRange
      · rw [hothers.length_eq]
        intro hin
        exact hx c (by simp) ⟨hin.1, by omega⟩
      · rw [hothers.length_eq]
        intro hin
        exact hx d (by simp) ⟨hin.1, by omega⟩

end Walks

end MemoryManagement.Malloc
