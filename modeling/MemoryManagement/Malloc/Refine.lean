import MemoryManagement.Malloc.Lists
import MemoryManagement.Malloc.Layout

/-!
# The list operations refine the layout

`Rep s a` relates the memory-level state `s` to the layout `a`: the two linked lists run through the
headers of the blocks of `a` in order, and the headers hold the sizes. The operations of `malloc.c`
are built from removal, ordered insertion and first-fit search; each is matched with the same
operation on the layout, as long as the headers involved do not overlap (`Separate`).

Allocator writes stay inside headers (`HeadersOnly`). Payload bytes are outside every header of an
invariant layout (`Layout.Inv.payload_outside`), which gives the frame of every operation.
-/

set_option autoImplicit false

namespace MemoryManagement.Malloc

open MemoryManagement.Library.ByteMemory
open MemoryManagement.Library.DoublyLinked
open MemoryManagement.Library.Tiling

/-! ## Separate headers -/

/-- Valid header addresses whose 32-byte headers do not overlap. -/
structure Separate (xs : List Nat) : Prop where
  apart : xs.Pairwise fun p q => p + 32 ≤ q ∨ q + 32 ≤ p
  pos : ∀ x ∈ xs, 0 < x
  lt : ∀ x ∈ xs, x < 2 ^ 64
  length_lt : xs.length < loopBound

theorem Separate.perm {xs ys : List Nat} (h : Separate xs) (hp : xs.Perm ys) : Separate ys where
  apart := (hp.pairwise_iff fun h => Or.symm h).1 h.apart
  pos := fun x hx => h.pos x (hp.mem_iff.2 hx)
  lt := fun x hx => h.lt x (hp.mem_iff.2 hx)
  length_lt := hp.length_eq ▸ h.length_lt

theorem Separate.sublist {xs ys : List Nat} (h : Separate ys) (hs : xs.Sublist ys) :
    Separate xs where
  apart := h.apart.sublist hs
  pos := fun x hx => h.pos x (hs.subset hx)
  lt := fun x hx => h.lt x (hs.subset hx)
  length_lt := Nat.lt_of_le_of_lt hs.length_le h.length_lt

theorem Separate.apart_mem {xs : List Nat} (h : Separate xs) :
    ∀ x ∈ xs, ∀ y ∈ xs, Apart x y := by
  intro x hx y hy
  by_cases hxy : x = y
  · exact Or.inl hxy
  · have : Std.Symm fun p q : Nat => p + 32 ≤ q ∨ q + 32 ≤ p := ⟨fun _ _ h => Or.symm h⟩
    exact Or.inr (h.apart.forall hx hy hxy)

theorem Separate.not_mem {x : Nat} {xs : List Nat} (h : Separate (x :: xs)) : x ∉ xs := by
  intro hx
  have := (List.pairwise_cons.1 h.apart).1 x hx
  omega

/-- The headers of a layout. -/
def Layout.nodes (a : Layout) : List Nat := a.spans.map Span.start

theorem Layout.nodes_eq (a : Layout) :
    a.nodes = a.free.map Span.start ++ a.alloc.map Alloc.addr := by
  simp only [Layout.nodes, Layout.spans, List.map_append, List.map_map]
  rfl

/-- The headers of an invariant layout do not overlap. -/
theorem Layout.Inv.separate {b0 : Nat} {a : Layout} (h : a.Inv b0) : Separate a.nodes where
  apart := by
    refine List.pairwise_map.2 (h.apart.imp_of_mem fun hb hc hbc => ?_)
    have h1 := h.block _ hb
    have h2 := h.block _ hc
    simp only [Span.Apart] at hbc
    omega
  pos := by
    intro x hx
    obtain ⟨b, hb, rfl⟩ := List.mem_map.1 hx
    exact (h.bounds hb).1
  lt := by
    intro x hx
    obtain ⟨b, hb, rfl⟩ := List.mem_map.1 hx
    have := h.bounds hb
    omega
  length_lt := by
    have h1 := h.tiled.length_mul_le (d := 32) fun b hb => (h.block b hb).2.2
    have h2 := h.brk_lt
    rw [Layout.nodes, List.length_map, loopBound]
    omega

/-- The payload part of a block lies outside every header. -/
theorem Layout.Inv.payload_outside {b0 : Nat} {a : Layout} (h : a.Inv b0) {b : Span}
    (hb : b ∈ a.spans) {x : Nat} (hlo : b.start + 32 ≤ x) (hhi : x < b.start + b.len) :
    ∀ y ∈ a.nodes, ¬ InRange y 32 x := by
  intro y hy hyx
  obtain ⟨c, hc, rfl⟩ := List.mem_map.1 hy
  by_cases hbc : b = c
  · subst hbc
    omega
  · have hap := h.apart.forall hb hc hbc
    simp only [Span.Apart] at hap
    omega

/-! ## Writes inside headers -/

/-- The memories differ at most inside the headers `xs`. -/
def HeadersOnly (m m' : Mem) (xs : List Nat) : Prop :=
  ∀ x, (∀ y ∈ xs, ¬ InRange y 32 x) → m' x = m x

theorem LinksOnly.headersOnly {m m' : Mem} {xs : List Nat} (h : LinksOnly m m' xs) :
    HeadersOnly m m' xs :=
  fun x hx => h x fun y hy hyx => hx y hy ⟨by omega, by omega⟩

theorem HeadersOnly.trans {m m' m'' : Mem} {xs : List Nat} (h : HeadersOnly m m' xs)
    (h' : HeadersOnly m' m'' xs) : HeadersOnly m m'' xs :=
  fun x hx => (h' x hx).trans (h x hx)

theorem HeadersOnly.mono {m m' : Mem} {xs ys : List Nat} (h : HeadersOnly m m' xs)
    (hsub : ∀ y ∈ xs, y ∈ ys) : HeadersOnly m m' ys :=
  fun x hx => h x fun y hy => hx y (hsub y hy)

theorem headersOnly_setField {m : Mem} {p v : Nat} {f : Field} {xs : List Nat} (hp : p ∈ xs) :
    HeadersOnly m (setField m p f v) xs := by
  intro x hx
  have := hx p hp
  refine setField_of_not_inRange fun h => this ?_
  cases f <;> simp only [Field.offset] at h <;> omega

/-! ## Representation of a layout -/

/-- The memory-level state `s` holds the layout `a`. -/
structure Rep (s : Heap) (a : Layout) : Prop where
  freeList : ListRep s.mem s.freeList (a.free.map Span.start)
  allocList : ListRep s.mem s.allocList (a.alloc.map Alloc.addr)
  freeSize : ∀ b ∈ a.free, field s.mem b.start .size = b.len
  allocSize : ∀ b ∈ a.alloc, field s.mem b.addr .size = b.size
  allocBytes : ∀ b ∈ a.alloc, field s.mem b.addr .allocBytes = b.bytes
  brk : s.brk = a.brk

/-- A representation depends only on the header bytes. -/
theorem Rep.congr {s : Heap} {a : Layout} (h : Rep s a) {m : Mem}
    (hm : ∀ p ∈ a.nodes, ∀ x, InRange p 32 x → m x = s.mem x) : Rep { s with mem := m } a := by
  have hfree : ∀ p ∈ a.free.map Span.start, ∀ f, field m p f = field s.mem p f := fun p hp f =>
    field_congr f (hm p (by rw [Layout.nodes_eq]; exact List.mem_append_left _ hp))
  have halloc : ∀ p ∈ a.alloc.map Alloc.addr, ∀ f, field m p f = field s.mem p f := fun p hp f =>
    field_congr f (hm p (by rw [Layout.nodes_eq]; exact List.mem_append_right _ hp))
  refine ⟨h.freeList.congr hfree, h.allocList.congr halloc, fun b hb => ?_, fun b hb => ?_,
    fun b hb => ?_, h.brk⟩
  · exact (hfree _ (List.mem_map_of_mem hb) .size).trans (h.freeSize b hb)
  · exact (halloc _ (List.mem_map_of_mem hb) .size).trans (h.allocSize b hb)
  · exact (halloc _ (List.mem_map_of_mem hb) .allocBytes).trans (h.allocBytes b hb)

/-! ## Removal and insertion -/

/-- Headers of the two halves of a separate list differ. -/
theorem Separate.disjoint {xs ys : List Nat} (h : Separate (xs ++ ys)) {p : Nat} (hx : p ∈ xs)
    (hy : p ∈ ys) : False := by
  have := (List.pairwise_append.1 h.apart).2.2 p hx p hy
  omega

theorem Layout.mem_nodes_free {a : Layout} {p : Nat} (hp : p ∈ a.free.map Span.start) :
    p ∈ a.nodes := by
  rw [Layout.nodes_eq]
  exact List.mem_append_left _ hp

theorem Layout.mem_nodes_alloc {a : Layout} {p : Nat} (hp : p ∈ a.alloc.map Alloc.addr) :
    p ∈ a.nodes := by
  rw [Layout.nodes_eq]
  exact List.mem_append_right _ hp

section Steps

variable {s : Heap} {a : Layout}

/-- `remove_list(b, 1)` takes the block off the free blocks. -/
theorem Rep.removeFree (h : Rep s a) (hsep : Separate a.nodes) {b : Span} (hb : b ∈ a.free) :
    Rep (removeList s b.start true) { a with free := a.free.erase b } ∧
      LinksOnly s.mem (removeList s b.start true).mem (a.free.map Span.start) := by
  obtain ⟨l, r, -, hsplit, herase⟩ := List.exists_erase_eq hb
  have hnodes : a.free.map Span.start = l.map Span.start ++ b.start :: r.map Span.start := by
    rw [hsplit]
    simp
  have hlist := h.freeList
  rw [hnodes] at hlist
  have hmem : ∀ p ∈ l.map Span.start ++ b.start :: r.map Span.start, p ∈ a.nodes := fun p hp =>
    Layout.mem_nodes_free (hnodes ▸ hp)
  have hspec := removeNode_spec hlist (fun p hp => hsep.lt p (hmem p hp))
    fun p hp q hq => hsep.apart_mem p (hmem p hp) q (hmem q hq)
  have hmap : (a.free.erase b).map Span.start = l.map Span.start ++ r.map Span.start := by
    rw [herase, List.map_append]
  have hlinks : LinksOnly s.mem (removeList s b.start true).mem (a.free.map Span.start) :=
    hspec.2.mono fun p hp => by
      rw [hnodes]
      exact List.perm_middle.mem_iff.2 (List.mem_cons_of_mem _ hp)
  have hfree : ∀ p ∈ a.free.map Span.start, p ∈ a.nodes := fun p hp => Layout.mem_nodes_free hp
  -- only links of free nodes are written, and no header overlaps them
  have hapart : ∀ p ∈ a.nodes, ∀ q ∈ a.free.map Span.start, Apart q p := fun p hp q hq =>
    hsep.apart_mem q (hfree q hq) p hp
  refine ⟨⟨?_, ?_, ?_, ?_, ?_, h.brk⟩, hlinks⟩
  · rw [hmap]
    exact hspec.1
  · refine h.allocList.congr fun p hp f => ?_
    have hne : p ∉ a.free.map Span.start := fun hp' => by
      rw [Layout.nodes_eq] at hsep
      exact hsep.disjoint hp' hp
    exact hlinks.field_eq (hapart p (Layout.mem_nodes_alloc hp)) hne f
  · intro c hc
    have hc' := List.mem_of_mem_erase hc
    rw [hlinks.size_eq (hapart _ (hfree _ (List.mem_map_of_mem hc')))]
    exact h.freeSize c hc'
  · intro c hc
    rw [hlinks.size_eq (hapart _ (Layout.mem_nodes_alloc (List.mem_map_of_mem hc)))]
    exact h.allocSize c hc
  · intro c hc
    rw [hlinks.allocBytes_eq (hapart _ (Layout.mem_nodes_alloc (List.mem_map_of_mem hc)))]
    exact h.allocBytes c hc

/-- `remove_list(b, 0)` takes the block off the allocated blocks. -/
theorem Rep.removeAlloc (h : Rep s a) (hsep : Separate a.nodes) {b : Alloc} (hb : b ∈ a.alloc) :
    Rep (removeList s b.addr false) { a with alloc := a.alloc.erase b } ∧
      LinksOnly s.mem (removeList s b.addr false).mem (a.alloc.map Alloc.addr) := by
  obtain ⟨l, r, -, hsplit, herase⟩ := List.exists_erase_eq hb
  have hnodes : a.alloc.map Alloc.addr = l.map Alloc.addr ++ b.addr :: r.map Alloc.addr := by
    rw [hsplit]
    simp
  have hlist := h.allocList
  rw [hnodes] at hlist
  have hmem : ∀ p ∈ l.map Alloc.addr ++ b.addr :: r.map Alloc.addr, p ∈ a.nodes := fun p hp =>
    Layout.mem_nodes_alloc (hnodes ▸ hp)
  have hspec := removeNode_spec hlist (fun p hp => hsep.lt p (hmem p hp))
    fun p hp q hq => hsep.apart_mem p (hmem p hp) q (hmem q hq)
  have hmap : (a.alloc.erase b).map Alloc.addr = l.map Alloc.addr ++ r.map Alloc.addr := by
    rw [herase, List.map_append]
  have hlinks : LinksOnly s.mem (removeList s b.addr false).mem (a.alloc.map Alloc.addr) :=
    hspec.2.mono fun p hp => by
      rw [hnodes]
      exact List.perm_middle.mem_iff.2 (List.mem_cons_of_mem _ hp)
  have halloc : ∀ p ∈ a.alloc.map Alloc.addr, p ∈ a.nodes := fun p hp => Layout.mem_nodes_alloc hp
  -- only links of allocated nodes are written, and no header overlaps them
  have hapart : ∀ p ∈ a.nodes, ∀ q ∈ a.alloc.map Alloc.addr, Apart q p := fun p hp q hq =>
    hsep.apart_mem q (halloc q hq) p hp
  refine ⟨⟨?_, ?_, ?_, ?_, ?_, h.brk⟩, hlinks⟩
  · refine h.freeList.congr fun p hp f => ?_
    have hne : p ∉ a.alloc.map Alloc.addr := fun hp' => by
      rw [Layout.nodes_eq] at hsep
      exact hsep.disjoint hp hp'
    exact hlinks.field_eq (hapart p (Layout.mem_nodes_free hp)) hne f
  · rw [hmap]
    exact hspec.1
  · intro c hc
    rw [hlinks.size_eq (hapart _ (Layout.mem_nodes_free (List.mem_map_of_mem hc)))]
    exact h.freeSize c hc
  · intro c hc
    have hc' := List.mem_of_mem_erase hc
    rw [hlinks.size_eq (hapart _ (halloc _ (List.mem_map_of_mem hc')))]
    exact h.allocSize c hc'
  · intro c hc
    have hc' := List.mem_of_mem_erase hc
    rw [hlinks.allocBytes_eq (hapart _ (halloc _ (List.mem_map_of_mem hc')))]
    exact h.allocBytes c hc'

/-- Ordered insertion seen through the node addresses. -/
theorem map_orderedInsert {α : Type} (r : α → α → Prop) [DecidableRel r] (f : α → Nat)
    (before : Nat → Bool) (c : α) (l : List α) (h : ∀ b ∈ l, before (f b) = decide (r c b)) :
    (l.orderedInsert r c).map f =
      (l.map f).takeWhile (!before ·) ++ f c :: (l.map f).dropWhile (!before ·) := by
  induction l with
  | nil => rfl
  | cons b l ih =>
      have hb := h b (by simp)
      have hl := ih fun b hb => h b (by simp [hb])
      by_cases hr : r c b
      · simp [hr, hb]
      · simp [hr, hb, hl]

/-- `append_list_ordered(node, size, 0, 1)` inserts a block into the free blocks. -/
theorem Rep.insertFree (h : Rep s a) (node size : Nat) (hsep : Separate (node :: a.nodes))
    (hsize : size < 2 ^ 64) :
    ∃ s', appendListOrdered s node size 0 true = some s' ∧
      Rep s' { a with free := insertFree ⟨node, size⟩ a.free } ∧
      HeadersOnly s.mem s'.mem (node :: a.nodes) := by
  have hn : node ∈ node :: a.nodes := by simp
  have hfree : ∀ p ∈ a.free.map Span.start, p ∈ node :: a.nodes := fun p hp =>
    List.mem_cons_of_mem _ (Layout.mem_nodes_free hp)
  have halloc : ∀ p ∈ a.alloc.map Alloc.addr, p ∈ node :: a.nodes := fun p hp =>
    List.mem_cons_of_mem _ (Layout.mem_nodes_alloc hp)
  have hne : ∀ p ∈ a.nodes, node ≠ p := fun p hp e => hsep.not_mem (e ▸ hp)
  have hap := hsep.apart_mem
  -- writing the size of the new node changes no other header
  have hset : ∀ p ∈ a.nodes, ∀ f, field (setField s.mem node .size size) p f = field s.mem p f :=
    fun p hp f => by
      rw [field_setField (hap _ hn _ (List.mem_cons_of_mem _ hp)) hsize]
      simp [hne p hp]
  have hlist := h.freeList.congr fun p hp f => hset p (Layout.mem_nodes_free hp) f
  have hsub : ∀ x ∈ node :: a.free.map Span.start, x ∈ node :: a.nodes := by
    intro x hx
    rcases List.mem_cons.1 hx with rfl | hx'
    · exact hn
    · exact hfree x hx'
  have hnodes : (node :: a.free.map Span.start).Sublist (node :: a.nodes) := by
    rw [Layout.nodes_eq]
    exact (List.sublist_append_left _ _).cons_cons node
  obtain ⟨m', l', hcode, hrep, hlinks⟩ := insertNode_spec (fun q => decide (node < q)) hlist
    (fun hmem => hsep.not_mem (Layout.mem_nodes_free hmem)) (Nat.ne_of_gt (hsep.pos node hn))
    (fun x hx => hsep.lt x (hsub x hx)) (fun x hx y hy => hap x (hsub x hx) y (hsub y hy))
    (Nat.lt_of_succ_lt (hsep.sublist hnodes).length_lt)
  have hapart : ∀ p ∈ node :: a.nodes, ∀ q ∈ node :: a.free.map Span.start, Apart q p :=
    fun p hp q hq => hap q (hsub q hq) p hp
  refine ⟨{ s with mem := m', freeList := l' }, ?_, ⟨?_, ?_, ?_, ?_, ?_, h.brk⟩, ?_⟩
  · simp only [appendListOrdered, if_true, hcode]
  · have hmap := map_orderedInsert (fun b c : Span => b.start < c.start) Span.start
      (fun q => decide (node < q)) ⟨node, size⟩ a.free fun b _ => rfl
    show ListRep m' l' (List.map Span.start (List.orderedInsert _ _ _))
    rw [hmap]
    exact hrep
  · refine h.allocList.congr fun p hp f => ?_
    have hnot : p ∉ node :: a.free.map Span.start := fun hp' => by
      rcases List.mem_cons.1 hp' with rfl | hp''
      · exact hsep.not_mem (Layout.mem_nodes_alloc hp)
      · have hsep' := hsep.sublist (List.sublist_cons_self _ _)
        rw [Layout.nodes_eq] at hsep'
        exact hsep'.disjoint hp'' hp
    exact (hlinks.field_eq (hapart p (halloc p hp)) hnot f).trans
      (hset p (Layout.mem_nodes_alloc hp) f)
  · intro c hc
    rcases List.mem_cons.1 ((insertFree_perm _ _).mem_iff.1 hc) with rfl | hc'
    · rw [hlinks.size_eq (hapart node hn), field_setField (hap _ hn _ hn) hsize]
      simp
    · have hmem : c.start ∈ a.nodes := Layout.mem_nodes_free (List.mem_map_of_mem hc')
      rw [hlinks.size_eq (hapart _ (List.mem_cons_of_mem _ hmem)), hset _ hmem]
      exact h.freeSize c hc'
  · intro c hc
    have hmem : c.addr ∈ a.nodes := Layout.mem_nodes_alloc (List.mem_map_of_mem hc)
    rw [hlinks.size_eq (hapart _ (List.mem_cons_of_mem _ hmem)), hset _ hmem]
    exact h.allocSize c hc
  · intro c hc
    have hmem : c.addr ∈ a.nodes := Layout.mem_nodes_alloc (List.mem_map_of_mem hc)
    rw [hlinks.allocBytes_eq (hapart _ (List.mem_cons_of_mem _ hmem)), hset _ hmem]
    exact h.allocBytes c hc
  · exact (headersOnly_setField hn).trans (hlinks.headersOnly.mono hsub)

/-- `append_list_ordered(node, size, bytes, 0)` inserts a block into the allocated blocks. -/
theorem Rep.insertAlloc (h : Rep s a) (node size bytes : Nat)
    (hsep : Separate (node :: a.nodes)) (hsize : size < 2 ^ 64) (hbytes : bytes < 2 ^ 64) :
    ∃ s', appendListOrdered s node size bytes false = some s' ∧
      Rep s' { a with alloc := insertAlloc ⟨node, size, bytes⟩ a.alloc } ∧
      HeadersOnly s.mem s'.mem (node :: a.nodes) := by
  have hn : node ∈ node :: a.nodes := by simp
  have hfree : ∀ p ∈ a.free.map Span.start, p ∈ node :: a.nodes := fun p hp =>
    List.mem_cons_of_mem _ (Layout.mem_nodes_free hp)
  have halloc : ∀ p ∈ a.alloc.map Alloc.addr, p ∈ node :: a.nodes := fun p hp =>
    List.mem_cons_of_mem _ (Layout.mem_nodes_alloc hp)
  have hne : ∀ p ∈ a.nodes, node ≠ p := fun p hp e => hsep.not_mem (e ▸ hp)
  have hap := hsep.apart_mem
  let m₁ := setField (setField s.mem node .size size) node .allocBytes bytes
  -- writing the two sizes of the new node changes no other header
  have hset : ∀ p ∈ a.nodes, ∀ f, field m₁ p f = field s.mem p f := fun p hp f => by
    have hp' := List.mem_cons_of_mem node hp
    rw [field_setField (hap _ hn _ hp') hbytes, field_setField (hap _ hn _ hp') hsize]
    simp [hne p hp]
  have hlist := h.allocList.congr fun p hp f => hset p (Layout.mem_nodes_alloc hp) f
  have hsub : ∀ x ∈ node :: a.alloc.map Alloc.addr, x ∈ node :: a.nodes := by
    intro x hx
    rcases List.mem_cons.1 hx with rfl | hx'
    · exact hn
    · exact halloc x hx'
  have hnodes : (node :: a.alloc.map Alloc.addr).Sublist (node :: a.nodes) := by
    rw [Layout.nodes_eq]
    exact (List.sublist_append_right _ _).cons_cons node
  obtain ⟨m', l', hcode, hrep, hlinks⟩ :=
    insertNode_spec (fun q => decide (field m₁ q .allocBytes < bytes)) hlist
      (fun hmem => hsep.not_mem (Layout.mem_nodes_alloc hmem)) (Nat.ne_of_gt (hsep.pos node hn))
      (fun x hx => hsep.lt x (hsub x hx)) (fun x hx y hy => hap x (hsub x hx) y (hsub y hy))
      (Nat.lt_of_succ_lt (hsep.sublist hnodes).length_lt)
  have hapart : ∀ p ∈ node :: a.nodes, ∀ q ∈ node :: a.alloc.map Alloc.addr, Apart q p :=
    fun p hp q hq => hap q (hsub q hq) p hp
  refine ⟨{ s with mem := m', allocList := l' }, ?_, ⟨?_, ?_, ?_, ?_, ?_, h.brk⟩, ?_⟩
  · simp only [appendListOrdered, Bool.false_eq_true, if_false]
    rw [hcode]
  · refine h.freeList.congr fun p hp f => ?_
    have hnot : p ∉ node :: a.alloc.map Alloc.addr := fun hp' => by
      rcases List.mem_cons.1 hp' with rfl | hp''
      · exact hsep.not_mem (Layout.mem_nodes_free hp)
      · have hsep' := hsep.sublist (List.sublist_cons_self _ _)
        rw [Layout.nodes_eq] at hsep'
        exact hsep'.disjoint hp hp''
    exact (hlinks.field_eq (hapart p (hfree p hp)) hnot f).trans
      (hset p (Layout.mem_nodes_free hp) f)
  · have hmap := map_orderedInsert (fun b c : Alloc => c.bytes < b.bytes) Alloc.addr
      (fun q => decide (field m₁ q .allocBytes < bytes)) ⟨node, size, bytes⟩ a.alloc fun b hb => by
        rw [hset _ (Layout.mem_nodes_alloc (List.mem_map_of_mem hb)), h.allocBytes b hb]
    show ListRep m' l' (List.map Alloc.addr (List.orderedInsert _ _ _))
    rw [hmap]
    exact hrep
  · intro c hc
    have hmem : c.start ∈ a.nodes := Layout.mem_nodes_free (List.mem_map_of_mem hc)
    rw [hlinks.size_eq (hapart _ (List.mem_cons_of_mem _ hmem)), hset _ hmem]
    exact h.freeSize c hc
  · intro c hc
    rcases List.mem_cons.1 ((insertAlloc_perm _ _).mem_iff.1 hc) with rfl | hc'
    · rw [hlinks.size_eq (hapart node hn), field_setField (hap _ hn _ hn) hbytes,
        field_setField (hap _ hn _ hn) hsize]
      simp
    · have hmem : c.addr ∈ a.nodes := Layout.mem_nodes_alloc (List.mem_map_of_mem hc')
      rw [hlinks.size_eq (hapart _ (List.mem_cons_of_mem _ hmem)), hset _ hmem]
      exact h.allocSize c hc'
  · intro c hc
    rcases List.mem_cons.1 ((insertAlloc_perm _ _).mem_iff.1 hc) with rfl | hc'
    · rw [hlinks.allocBytes_eq (hapart node hn), field_setField (hap _ hn _ hn) hbytes]
      simp
    · have hmem : c.addr ∈ a.nodes := Layout.mem_nodes_alloc (List.mem_map_of_mem hc')
      rw [hlinks.allocBytes_eq (hapart _ (List.mem_cons_of_mem _ hmem)), hset _ hmem]
      exact h.allocBytes c hc'
  · exact ((headersOnly_setField hn).trans (headersOnly_setField hn)).trans
      (hlinks.headersOnly.mono hsub)

end Steps

end MemoryManagement.Malloc
