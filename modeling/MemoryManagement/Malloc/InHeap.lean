import MemoryManagement.Malloc.Code
import MemoryManagement.Malloc.Session

/-!
# The allocator stays inside its heap

Every load and every store that the allocator makes between the start of its heap and the program break, as the
break is at that moment. The list loops stay inside because links lead from nodes to nodes (`Closed`), the edits
because every header of an invariant layout lies in the heap (`header_in`).

`realloc` copies up to 32 bytes more than the old payload has, so it stays inside when what it copies ends before
the break (`stays_realloc`).
-/

set_option autoImplicit false

namespace MemoryManagement.Malloc.Code

open MemoryManagement.Library.ByteMemory
open MemoryManagement.Library.Accesses
open MemoryManagement.Library.DoublyLinked
open MemoryManagement.Library.Tiling

/-! ## Accesses to headers -/

/-- The addresses between the start of the heap and the break. -/
def InHeap (lo : Nat) (b : Break) (x : Nat) : Prop := lo ≤ x ∧ x < b.current

/-- Increments that are positive to `sbrk`. -/
def Growth (n : Nat) : Prop := n < 2 ^ 63

/-- Every access of the program is to the heap, and it never asks for a smaller one. -/
abbrev Stays (lo : Nat) {α : Type} (p : Program α) (m : Mem) (b : Break) : Prop :=
  Within sbrk (InHeap lo) Growth p m b

/-- A header that lies in the heap. -/
def HeaderIn (lo : Nat) (b : Break) (p : Nat) : Prop := lo ≤ p ∧ p + HEADER ≤ b.current

/-- Every header of an invariant layout lies in the heap. -/
theorem header_in {lo : Nat} {a : Layout} (hinv : a.Inv lo) {q : Nat} (hq : q ∈ a.nodes) :
    HeaderIn lo a.brk q := by
  obtain ⟨b, hb, rfl⟩ := List.mem_map.1 hq
  have hbounds := hinv.tiled.bounds hb
  have hblock := (hinv.block b hb).2.2
  exact ⟨hbounds.1, by simp only [HEADER]; omega⟩

section Headers

variable {lo : Nat} {m : Mem} {b : Break}

theorem stays_get {p : Nat} (h : HeaderIn lo b p) (f : Field) : Stays lo (get p f) m b := by
  refine within_loadWord fun x hx => ?_
  obtain ⟨h1, h2⟩ := h
  cases f <;> simp only [Field.offset, HEADER] at hx h2 <;> exact ⟨by omega, by omega⟩

theorem stays_set {p : Nat} (h : HeaderIn lo b p) (f : Field) (v : Nat) : Stays lo (set p f v) m b := by
  refine within_storeWord fun x hx => ?_
  obtain ⟨h1, h2⟩ := h
  cases f <;> simp only [Field.offset, HEADER] at hx h2 <;> exact ⟨by omega, by omega⟩

variable {α : Type}

/-- First a field is read. -/
theorem stays_get_bind {p : Nat} {f : Field} {k : Nat → Program α} (h : HeaderIn lo b p)
    (hk : Stays lo (k (field m p f)) m b) : Stays lo (get p f >>= k) m b :=
  within_bind_of_eq (run_get m b p f) (stays_get h f) hk

/-- First a field is written. -/
theorem stays_set_bind {p : Nat} {f : Field} {v : Nat} {k : Unit → Program α} (h : HeaderIn lo b p)
    (hk : Stays lo (k ()) (setField m p f v) b) : Stays lo (set p f v >>= k) m b :=
  within_bind_of_eq (run_set m b p f v) (stays_set h f v) hk

end Headers

/-! ## List nodes -/

/-- `NULL` or a node. -/
def Link (xs : List Nat) (p : Nat) : Prop := p = NULL ∨ p ∈ xs

/-- The links of the nodes, and the head of the list, lead to nodes. -/
structure Closed (m : Mem) (l : EltList) (xs : List Nat) : Prop where
  head : Link xs l.head
  prev : ∀ q ∈ xs, Link xs (field m q .prev)
  next : ∀ q ∈ xs, Link xs (field m q .next)

theorem link_headD (xs : List Nat) : Link xs (xs.headD NULL) := by
  cases xs with
  | nil => exact Or.inl rfl
  | cons x xs => exact Or.inr List.mem_cons_self

theorem link_getLastD (xs : List Nat) : Link xs (xs.getLastD NULL) := by
  rw [List.getLastD_eq_getLast?]
  cases h : xs.getLast? with
  | none => exact Or.inl rfl
  | some x => exact Or.inr (List.mem_of_getLast? h)

theorem Link.mono {xs ys : List Nat} {p : Nat} (h : Link xs p) (hsub : xs ⊆ ys) : Link ys p :=
  h.imp_right fun hp => hsub hp

theorem Link.mem {xs : List Nat} {p : Nat} (h : Link xs p) (hp : p ≠ NULL) : p ∈ xs := h.resolve_left hp

/-- A doubly linked list is closed. -/
theorem closed_of_rep {m : Mem} {l : EltList} {xs : List Nat} (h : ListRep m l xs) : Closed m l xs := by
  refine ⟨?_, fun q hq => ?_, fun q hq => ?_⟩
  · rw [h.head]
    exact link_headD xs
  · obtain ⟨before, after, rfl⟩ := List.append_of_mem hq
    rw [h.segment.links.1]
    exact (link_getLastD before).mono (List.subset_append_left ..)
  · obtain ⟨before, after, rfl⟩ := List.append_of_mem hq
    rw [h.segment.links.2]
    exact (link_headD after).mono fun x hx => List.mem_append_right _ (List.mem_cons_of_mem _ hx)

/-- A field is written when the pointer leads to a node. -/
theorem stays_set_link {α : Type} {lo : Nat} {m : Mem} {b : Break} {xs : List Nat} {p v : Nat} {f : Field}
    {k : Unit → Program α} (h : Link xs p) (hin : ∀ q ∈ xs, HeaderIn lo b q) (hk : ∀ m, Stays lo (k ()) m b) :
    Stays lo (if p ≠ NULL then set p f v >>= k else k ()) m b := by
  split
  · rename_i hp
    exact stays_set_bind (hin p (h.mem hp)) (hk _)
  · exact hk m

section Edits

variable {m : Mem} {l : EltList} {xs : List Nat}

/-- A write to a node keeps the links on nodes when a new link leads to a node. -/
theorem closed_setField (h : Closed m l xs) (hap : ∀ x ∈ xs, ∀ y ∈ xs, Apart x y) {p v : Nat} {f : Field}
    (hp : p ∈ xs) (hv : v < 2 ^ 64) (hlink : f = .prev ∨ f = .next → Link xs v) :
    Closed (setField m p f v) l xs := by
  refine ⟨h.head, fun q hq => ?_, fun q hq => ?_⟩
  · rw [field_setField (hap p hp q hq) hv]
    split
    · rename_i hf
      exact hlink (Or.inl hf.2)
    · exact h.prev q hq
  · rw [field_setField (hap p hp q hq) hv]
    split
    · rename_i hf
      exact hlink (Or.inr hf.2)
    · exact h.next q hq

theorem Link.lt {p : Nat} (h : Link xs p) (hlt : ∀ x ∈ xs, x < 2 ^ 64) : p < 2 ^ 64 := by
  rcases h with rfl | h
  · decide
  · exact hlt p h

/-- Removal keeps the links on nodes, those of the removed node among them. -/
theorem closed_removeNode (h : Closed m l xs) (hap : ∀ x ∈ xs, ∀ y ∈ xs, Apart x y) (hlt : ∀ x ∈ xs, x < 2 ^ 64)
    {node : Nat} (hnode : node ∈ xs) : Closed (Malloc.removeNode m l node).1 (Malloc.removeNode m l node).2 xs := by
  obtain ⟨prev, hprev⟩ : ∃ prev, prev = field m node .prev := ⟨_, rfl⟩
  obtain ⟨next, hnext⟩ : ∃ next, next = field m node .next := ⟨_, rfl⟩
  have hp : Link xs prev := hprev ▸ h.prev node hnode
  have hn : Link xs next := hnext ▸ h.next node hnode
  obtain ⟨m₁, hm₁⟩ : ∃ m₁, m₁ = if prev ≠ NULL then setField m prev .next next else m := ⟨_, rfl⟩
  obtain ⟨m₂, hm₂⟩ : ∃ m₂, m₂ = if next ≠ NULL then setField m₁ next .prev prev else m₁ := ⟨_, rfl⟩
  have hremoved : Malloc.removeNode m l node =
      (m₂, ⟨if node = l.head then next else l.head, if node = l.tail then prev else l.tail, toInt32 (l.size - 1)⟩) := by
    rw [hm₂, hm₁, hprev, hnext, Malloc.removeNode]
  have h₁ : Closed m₁ l xs := by
    rw [hm₁]
    split
    · rename_i hnull
      exact closed_setField h hap (hp.mem hnull) (hn.lt hlt) fun _ => hn
    · exact h
  have h₂ : Closed m₂ l xs := by
    rw [hm₂]
    split
    · rename_i hnull
      exact closed_setField h₁ hap (hn.mem hnull) (hp.lt hlt) fun _ => hp
    · exact h₁
  rw [hremoved]
  refine ⟨?_, h₂.prev, h₂.next⟩
  show Link xs (if node = l.head then next else l.head)
  split
  · exact hn
  · exact h.head

end Edits

/-! ## List operations -/

section Lists

variable {lo : Nat} {m : Mem} {b : Break} {l : EltList} {xs : List Nat} {before : Nat → Program Bool}
  {test : Nat → Bool}

/-- The slot is next to nodes. -/
theorem findSlot_mem (hnext : ∀ q ∈ xs, Link xs (field m q .next)) {fuel p1 p2 q1 q2 : Nat} (hp1 : p1 ∈ xs)
    (hp2 : Link xs p2) (h : Malloc.findSlot m test fuel p1 p2 = some (q1, q2)) : q1 ∈ xs ∧ Link xs q2 := by
  induction fuel generalizing p1 p2 with
  | zero => cases h
  | succ fuel ih =>
      rw [Malloc.findSlot] at h
      split at h
      · cases h
        exact ⟨hp1, Or.inl rfl⟩
      · rename_i hnull
        split at h
        · cases h
          exact ⟨hp1, hp2⟩
        · exact ih (hp2.mem hnull) (hnext p2 (hp2.mem hnull)) h

theorem stays_findSlot (hin : ∀ q ∈ xs, HeaderIn lo b q) (hnext : ∀ q ∈ xs, Link xs (field m q .next))
    (hbefore : ∀ q, run sbrk (before q) m b = some (test q, m, b)) (htest : ∀ q ∈ xs, Stays lo (before q) m b)
    {fuel p1 p2 : Nat} (hp1 : p1 ∈ xs) (hp2 : Link xs p2) : Stays lo (findSlot before fuel p1 p2) m b := by
  induction fuel generalizing p1 p2 with
  | zero => trivial
  | succ fuel ih =>
      rw [findSlot]
      by_cases hnull : p2 = NULL
      · rw [if_pos hnull]
        trivial
      have hmem := hp2.mem hnull
      -- the rest of the loop, after both tests
      have hrest : ∀ found : Bool, Stays lo (if found then pure (p1, p2) else do
          let next ← get p2 .next
          findSlot before fuel p2 next) m b := by
        intro found
        cases found with
        | true => trivial
        | false => exact stays_get_bind (hin p2 hmem) (ih hmem (hnext p2 hmem))
      rw [if_neg hnull]
      refine within_bind_of_eq (hbefore p1) (htest p1 hp1) ?_
      cases test p1 with
      | true => exact hrest false
      | false => exact within_bind_of_eq (hbefore p2) (htest p2 hmem) (hrest (test p2))

theorem stays_insertNode {node : Nat} (hlist : Closed m l xs) (hnode : HeaderIn lo b node)
    (hin : ∀ q ∈ xs, HeaderIn lo b q) (hbefore : ∀ q, run sbrk (before q) m b = some (test q, m, b))
    (htest : ∀ q ∈ xs, Stays lo (before q) m b) : Stays lo (insertNode l node before) m b := by
  rw [insertNode]
  by_cases hnull : l.head = NULL
  · simp only [if_pos hnull]
    exact stays_set_bind hnode (stays_set_bind hnode trivial)
  have hhead := hlist.head.mem hnull
  simp only [if_neg hnull]
  refine within_bind_of_eq (hbefore l.head) (htest _ hhead) ?_
  cases test l.head with
  | true =>
      exact stays_set_bind hnode (stays_set_bind hnode (stays_set_bind (hin _ hhead) trivial))
  | false =>
      simp only [Bool.false_eq_true, if_false]
      refine stays_get_bind (hin _ hhead) ?_
      have hnext := hlist.next _ hhead
      refine within_bind (stays_findSlot hin hlist.next hbefore htest hhead hnext) fun r hr => ?_
      rw [run_findSlot m b hbefore] at hr
      obtain ⟨⟨p1, p2⟩, hslot, rfl⟩ := Option.map_eq_some_iff.1 hr
      obtain ⟨hp1, hp2⟩ := findSlot_mem hlist.next hhead hnext hslot
      by_cases hlast : p2 = NULL
      · simp only [if_pos hlast]
        exact stays_set_bind (hin p1 hp1) (stays_set_bind hnode (stays_set_bind hnode trivial))
      · simp only [if_neg hlast]
        exact stays_set_bind hnode (stays_set_bind hnode (stays_set_bind (hin p1 hp1)
          (stays_set_bind (hin p2 (hp2.mem hlast)) trivial)))

theorem stays_removeNode {node : Nat} (hlist : Closed m l xs) (hin : ∀ q ∈ xs, HeaderIn lo b q) (hnode : node ∈ xs) :
    Stays lo (removeNode l node) m b := by
  have hprev := hlist.prev node hnode
  have hnext := hlist.next node hnode
  refine stays_get_bind (hin node hnode) (stays_get_bind (hin node hnode) ?_)
  exact stays_set_link hprev hin fun m => stays_set_link hnext hin fun m => trivial

theorem stays_searchFreeFrom {size : Nat} (hin : ∀ q ∈ xs, HeaderIn lo b q)
    (hnext : ∀ q ∈ xs, Link xs (field m q .next)) {fuel p : Nat} (hp : Link xs p) :
    Stays lo (searchFreeFrom size fuel p) m b := by
  induction fuel generalizing p with
  | zero => trivial
  | succ fuel ih =>
      rw [searchFreeFrom]
      by_cases hnull : p = NULL
      · rw [if_pos hnull]
        trivial
      have hmem := hp.mem hnull
      rw [if_neg hnull]
      refine stays_get_bind (hin p hmem) ?_
      split
      · trivial
      · exact stays_get_bind (hin p hmem) (ih (hnext p hmem))

end Lists

/-! ## Calls -/

section Calls

variable {lo : Nat} {s : Heap} {a : Layout}

theorem stays_appendListOrdered (h : Rep s a) {node size allocBytes : Nat} {free : Bool}
    (hsep : Separate (node :: a.nodes)) (hin : ∀ q ∈ node :: a.nodes, HeaderIn lo s.brk q) :
    Stays lo (appendListOrdered (globals s) node size allocBytes free) s.mem s.brk := by
  have hnode := hin node List.mem_cons_self
  have hrest : ∀ q ∈ a.nodes, HeaderIn lo s.brk q := fun q hq => hin q (List.mem_cons_of_mem _ hq)
  -- the fields of the new node are in no other header
  have hset : ∀ m f v, ∀ q ∈ a.nodes, ∀ g, field (setField m node f v) q g = field m q g := by
    intro m f v q hq g
    have hapart := (List.pairwise_cons.1 hsep.apart).1 q hq
    refine field_congr g fun x hx => setField_of_not_inRange fun hin => ?_
    cases f <;> simp only [Field.offset] at hin <;> omega
  refine stays_set_bind hnode ?_
  cases free with
  | true =>
      have hlist := h.freeList.congr fun q hq => hset s.mem .size size q (Layout.mem_nodes_free hq)
      refine within_bind (stays_insertNode (closed_of_rep hlist) hnode
        (fun q hq => hrest q (Layout.mem_nodes_free hq)) (fun q => rfl) fun q hq => trivial) fun r hr => trivial
  | false =>
      refine stays_set_bind hnode ?_
      have hlist := (h.allocList.congr fun q hq => hset s.mem .size size q (Layout.mem_nodes_alloc hq)).congr
        fun q hq => hset _ .allocBytes allocBytes q (Layout.mem_nodes_alloc hq)
      have halloc : ∀ q ∈ a.alloc.map Alloc.addr, HeaderIn lo s.brk q := fun q hq =>
        hrest q (Layout.mem_nodes_alloc hq)
      refine within_bind (stays_insertNode (closed_of_rep hlist) hnode halloc (fun q => run_bind_of_eq sbrk (run_get ..))
        fun q hq => stays_get_bind (halloc q hq) trivial) fun r hr => trivial

theorem stays_removeList (h : Rep s a) {node : Nat} {free : Bool}
    (hnode : node ∈ if free then a.free.map Span.start else a.alloc.map Alloc.addr)
    (hin : ∀ q ∈ a.nodes, HeaderIn lo s.brk q) : Stays lo (removeList (globals s) node free) s.mem s.brk := by
  cases free with
  | true =>
      exact within_bind (stays_removeNode (closed_of_rep h.freeList) (fun q hq => hin q (Layout.mem_nodes_free hq))
        hnode) fun r hr => trivial
  | false =>
      exact within_bind (stays_removeNode (closed_of_rep h.allocList) (fun q hq => hin q (Layout.mem_nodes_alloc hq))
        hnode) fun r hr => trivial

theorem stays_searchFree (h : Rep s a) (hin : ∀ q ∈ a.nodes, HeaderIn lo s.brk q) (size : Nat) :
    Stays lo (searchFree (globals s) size) s.mem s.brk :=
  stays_searchFreeFrom (fun q hq => hin q (Layout.mem_nodes_free hq)) (closed_of_rep h.freeList).next
    (closed_of_rep h.freeList).head

theorem stays_free (h : Rep s a) (hinv : a.Inv lo) {b : Alloc} (hb : b ∈ a.alloc) :
    Stays lo (free (globals s) (b.addr + HEADER)) s.mem s.brk := by
  have hbounds := hinv.bounds (Layout.Inv.mem_alloc hb)
  have hblock := hinv.block b.span (Layout.Inv.mem_alloc hb)
  simp only [Alloc.span] at hbounds hblock
  have hin : ∀ q ∈ a.nodes, HeaderIn lo s.brk q := fun q hq => h.brk ▸ header_in hinv hq
  have hmem : b.addr ∈ a.alloc.map Alloc.addr := List.mem_map_of_mem hb
  obtain ⟨hrem, -⟩ := h.removeAlloc hinv.separate hb
  have hperm : a.nodes.Perm (b.addr :: Layout.nodes { a with alloc := a.alloc.erase b }) :=
    (Layout.spans_perm_erase_alloc hb).map Span.start
  have hentire : sub64 (b.addr + HEADER) HEADER = b.addr := by
    rw [sub64_of_le (by omega) (by simp only [HEADER]; omega), Nat.add_sub_cancel]
  have hne : b.addr + HEADER ≠ NULL := Nat.succ_ne_zero _
  rw [free, if_neg hne, hentire]
  refine within_bind_of_eq (run_removeList s b.addr false) (stays_removeList h hmem hin) ?_
  refine stays_get_bind (hin b.addr (Layout.mem_nodes_alloc hmem)) ?_
  exact stays_appendListOrdered hrem (hinv.separate.perm hperm) fun q hq => hin q (hperm.mem_iff.2 hq)

theorem stays_carve (h : Rep s a) (hinv : a.Inv lo) {b : Span} {n : Nat} (hb : b ∈ a.free) (hn : Sized n)
    (hfit : required n ≤ b.len) : Stays lo (carve (globals s) b.start (required n) n) s.mem s.brk := by
  have hinv' := hinv.carve hb hn hfit
  have hbounds := hinv.bounds (Layout.Inv.mem_free hb)
  have hreq := required_bounds hn
  have hbrk : (a.carve b n).brk = s.brk := by
    rw [h.brk, Layout.carve]
    split <;> rfl
  have hin : ∀ q ∈ a.nodes, HeaderIn lo s.brk q := fun q hq => h.brk ▸ header_in hinv hq
  have hin' : ∀ q ∈ (a.carve b n).nodes, HeaderIn lo s.brk q := fun q hq => hbrk ▸ header_in hinv' hq
  have hmem : b.start ∈ a.free.map Span.start := List.mem_map_of_mem hb
  obtain ⟨hrem, -⟩ := h.removeFree hinv.separate hb
  have hsize : field s.mem b.start .size = b.len := h.freeSize b hb
  have hsub : sub64 b.len (required n) = b.len - required n := sub64_of_le hfit (by omega)
  refine stays_get_bind (hin b.start (Layout.mem_nodes_free hmem)) ?_
  rw [hsize, hsub]
  refine within_bind_of_eq (run_removeList s b.start true) (stays_removeList h hmem hin) ?_
  by_cases hsplit : required n + HEADER ≤ b.len
  · have hperm := a.carve_nodes_split hsplit
    have hsep := hinv'.separate.perm hperm
    have hpart : add64 b.start (required n) = b.start + required n := add64_of_lt (by omega)
    have hroom : HEADER ≤ b.len - required n := by omega
    have hsep₁ := hsep.sublist (List.sublist_cons_self _ _)
    obtain ⟨s₁, hcode₁, hrep₁, -⟩ := hrem.insertFree _ (b.len - required n) hsep₁ (by omega)
    have hperm₂ := (Layout.perm_insertFree ⟨b.start + required n, b.len - required n⟩
      (a.free.erase b) (a.alloc.map Alloc.span)).map Span.start
    rw [if_pos hroom, hpart]
    have hfree := run_appendListOrdered (Malloc.removeList s b.start true) (b.start + required n) (b.len - required n) 0 true
    rw [hcode₁] at hfree
    refine within_bind_of_eq hfree ?_ ?_
    · exact stays_appendListOrdered hrem hsep₁ fun q hq => hin' q (hperm.mem_iff.2 (List.mem_cons_of_mem _ hq))
    · have hbrk₁ : s₁.brk = s.brk := by rw [hrep₁.brk, h.brk]
      refine within_bind (stays_appendListOrdered hrep₁ (hsep.perm (hperm₂.symm.cons b.start)) fun q hq => ?_)
        fun r hr => trivial
      rw [hbrk₁]
      exact hin' q (hperm.mem_iff.2 ((hperm₂.cons b.start).mem_iff.1 hq))
  · have hperm := a.carve_nodes_whole hsplit
    have hroom : ¬ HEADER ≤ b.len - required n := by omega
    rw [if_neg hroom]
    exact within_bind (stays_appendListOrdered hrem (hinv'.separate.perm hperm) fun q hq =>
      hin' q (hperm.mem_iff.2 hq)) fun r hr => trivial

theorem stays_malloc (h : Rep s a) (hinv : a.Inv lo) {n : Nat} (hlt : n < 2 ^ 62) :
    Stays lo (malloc (globals s) n) s.mem s.brk := by
  have hn := a.servable_of_lt hlt
  have hin : ∀ q ∈ a.nodes, HeaderIn lo s.brk q := fun q hq => h.brk ▸ header_in hinv hq
  rw [malloc_eq]
  by_cases hzero : n = 0
  · rw [if_pos hzero]
    trivial
  rw [if_neg hzero]
  have hsearch := run_searchFree s (required n)
  rw [h.searchFree (Layout.free_length_lt hinv)] at hsearch
  have hfirst : (a.free.find? fun b => required n ≤ b.len) = a.firstFit n := rfl
  rw [hfirst] at hsearch
  refine within_bind_of_eq hsearch (stays_searchFree h hin _) ?_
  cases hfit : a.firstFit n with
  | some b =>
      obtain ⟨hb, hlen⟩ := Layout.firstFit_mem hfit
      have hb0 : b.start ≠ NULL := Nat.ne_of_gt (hinv.bounds (Layout.Inv.mem_free hb)).1
      simp only [Option.map_some, Option.getD_some, if_neg hb0]
      exact stays_carve h hinv hb (hn.of_fit hfit) hlen
  | none =>
      simp only [Option.map_none, Option.getD_none, if_true]
      refine ⟨(growable_of_lt hlt).2, ?_⟩
      rw [h.brk]
      by_cases hok : (sbrk a.brk (chunk n)).2 = minusOne
      · simp only [if_pos hok]
        trivial
      simp only [if_neg hok]
      obtain ⟨hsized, hg⟩ := hn.of_grow hfit hok
      obtain ⟨hchunk, hroom⟩ := chunk_bounds hsized hg
      obtain ⟨hret, s₁, hcode₁, hrep₁, -⟩ := h.append_chunk hinv hchunk hok
      have hgrow := hinv.grow hchunk hok
      have hperm : (a.grow n).nodes.Perm (a.brk.current :: a.nodes) :=
        (Layout.perm_insertFree _ _ _).map Span.start
      obtain ⟨s₀, hs₀⟩ : ∃ s₀ : Heap, s₀ = { s with brk := (sbrk a.brk (chunk n)).1 } := ⟨_, rfl⟩
      have hrep₀ : Rep s₀ { a with brk := (sbrk a.brk (chunk n)).1 } := by
        rw [hs₀]
        exact ⟨h.freeList, h.allocList, h.freeSize, h.allocSize, h.allocBytes, rfl⟩
      have happend := run_appendListOrdered s₀ a.brk.current (chunk n) 0 true
      have hstays : Stays lo (appendListOrdered (globals s₀) a.brk.current (chunk n) 0 true) s₀.mem s₀.brk :=
        stays_appendListOrdered hrep₀ (hgrow.separate.perm hperm) fun q hq => by
          rw [hrep₀.brk]
          exact header_in hgrow (hperm.mem_iff.2 hq)
      rw [hs₀, hcode₁] at happend
      rw [hs₀] at hstays
      rw [hret]
      refine within_bind_of_eq happend hstays ?_
      -- the second search of the list starts over
      have hin₁ : ∀ q ∈ (a.grow n).nodes, HeaderIn lo s₁.brk q := fun q hq => hrep₁.brk ▸ header_in hgrow hq
      have hfit' := Layout.grow_firstFit hroom hfit
      obtain ⟨hb, hlen⟩ := Layout.firstFit_mem hfit'
      have hsearch₁ := run_searchFree s₁ (required n)
      rw [hrep₁.searchFree (Layout.free_length_lt hgrow)] at hsearch₁
      have hfirst' : ((a.grow n).free.find? fun b => required n ≤ b.len) = (a.grow n).firstFit n := rfl
      rw [hfirst', hfit'] at hsearch₁
      exact within_bind_of_eq hsearch₁ (stays_searchFree hrep₁ hin₁ _) (stays_carve hrep₁ hgrow hb hsized hlen)

/-- The bytes of a fresh payload lie in the heap. -/
theorem returned_in {s' : Heap} {a' : Layout} {n p : Nat} {fresh : List Alloc} (hret : Returned n p fresh)
    (e : Effect lo s a s' a' [] fresh) (hp : p ≠ NULL) {x : Nat} (hx : InRange p n x) : InHeap lo s'.brk x := by
  obtain ⟨hp', -⟩ | ⟨c, rfl, rfl, rfl⟩ := hret
  · exact absurd hp' hp
  have hc := e.fresh_mem c List.mem_cons_self
  have hfits := (e.inv.fits c hc).1
  have hbounds := e.inv.tiled.bounds (Layout.Inv.mem_alloc hc)
  simp only [Alloc.span] at hbounds
  rw [e.rep.brk]
  exact ⟨by omega, by omega⟩

theorem stays_calloc (h : Rep s a) (hinv : a.Inv lo) {num sz : Nat}
    (hreq : num * sz < 2 ^ 62 ∨ 2 ^ 64 ≤ num * sz) : Stays lo (calloc (globals s) num sz) s.mem s.brk := by
  rw [calloc]
  by_cases hzero : num = 0 ∨ sz = 0
  · rw [if_pos hzero]
    trivial
  rw [if_neg hzero]
  by_cases hover : minusOne / num < sz
  · rw [if_pos hover]
    trivial
  rw [if_neg hover]
  have hnum : 0 < num := by omega
  have hmul : num * sz ≤ minusOne := by
    have := (Nat.le_div_iff_mul_le hnum).1 (Nat.le_of_not_lt hover)
    rwa [Nat.mul_comm] at this
  simp only [minusOne] at hmul
  have hlt : num * sz < 2 ^ 62 := hreq.resolve_right (by omega)
  have hmul64 : mul64 num sz = num * sz := by rw [mul64, Nat.mod_eq_of_lt (by omega)]
  obtain ⟨s', fresh, hcode, hret, e⟩ := h.malloc_effect hinv (a.servable_of_lt hlt)
  have hmalloc := run_malloc s (num * sz)
  rw [hcode] at hmalloc
  rw [hmul64]
  refine within_bind_of_eq hmalloc (stays_malloc h hinv hlt) ?_
  by_cases hp : (a.malloc (num * sz)).2 = NULL
  · rw [if_pos hp]
    trivial
  · rw [if_neg hp]
    exact within_bind (within_fill fun x hx => returned_in hret e hp hx) fun r hr => trivial

/-- `realloc` stays inside when what it copies ends before the break. -/
theorem stays_realloc (h : Rep s a) (hinv : a.Inv lo) {b : Alloc} (hb : b ∈ a.alloc) {sz : Nat}
    (hsz : sz < 2 ^ 62)
    (hend : b.addr + HEADER + min b.size sz ≤ (a.malloc sz).1.brk.current ∨ (a.malloc sz).2 = NULL) :
    Stays lo (realloc (globals s) (b.addr + HEADER) sz) s.mem s.brk := by
  have hne : b.addr + HEADER ≠ NULL := Nat.succ_ne_zero _
  rw [realloc, if_neg hne]
  by_cases hzero : sz = 0
  · rw [if_pos hzero]
    exact within_bind (stays_free h hinv hb) fun r hr => trivial
  rw [if_neg hzero]
  obtain ⟨s₁, fresh, hcode, hret, e⟩ := h.malloc_effect hinv (a.servable_of_lt hsz)
  have hmalloc := run_malloc s sz
  rw [hcode] at hmalloc
  refine within_bind_of_eq hmalloc (stays_malloc h hinv hsz) ?_
  by_cases hp : (a.malloc sz).2 = NULL
  · simp only [if_pos hp]
    trivial
  simp only [if_neg hp]
  have hend' := hend.resolve_right hp
  have hstay := e.mem_alloc hb List.not_mem_nil
  have hbounds := e.inv.bounds (Layout.Inv.mem_alloc hstay)
  have hlow := e.inv.tiled.bounds (Layout.Inv.mem_alloc hstay)
  have hblock := (e.inv.block b.span (Layout.Inv.mem_alloc hstay)).2.2
  simp only [Alloc.span] at hbounds hlow hblock
  have hentire : sub64 (b.addr + HEADER) HEADER = b.addr := by
    rw [sub64_of_le (by omega) (by simp only [HEADER]; omega), Nat.add_sub_cancel]
  have hheader : HeaderIn lo s₁.brk b.addr := by
    rw [e.rep.brk]
    exact ⟨hlow.1, by simp only [HEADER]; omega⟩
  rw [hentire]
  refine stays_get_bind hheader ?_
  rw [e.rep.allocSize b hstay]
  obtain ⟨n, hn⟩ : ∃ n, n = if b.size < sz then b.size else sz := ⟨_, rfl⟩
  have hnmin : n = min b.size sz := by
    rw [hn]
    split <;> omega
  rw [← hn]
  have hdst : ∀ x, InRange (a.malloc sz).2 n x → InHeap lo s₁.brk x := fun x hx =>
    returned_in hret e hp ⟨hx.1, by omega⟩
  have hsrc : ∀ x, InRange (b.addr + HEADER) n x → InHeap lo s₁.brk x := by
    intro x hx
    rw [e.rep.brk]
    exact ⟨by omega, by omega⟩
  refine within_bind_of_eq (run_copy sbrk ..) (within_copy hdst hsrc) ?_
  -- the copy ends inside the fresh payload, so the lists are as they were
  have hkept : ∀ x, ¬ InRange (a.malloc sz).2 sz x →
      memcpy s₁.mem (a.malloc sz).2 (b.addr + HEADER) n x = s₁.mem x := fun x hx =>
    memcpy_of_not_inRange fun hin => hx ⟨hin.1, by omega⟩
  have hcopied := e.fill hret hp hkept
  exact within_bind (stays_free hcopied.rep hcopied.inv hstay) fun r hr => trivial

/-! ## `defrag` -/

theorem stays_defragLoop {xs : List Nat} (hap : ∀ x ∈ xs, ∀ y ∈ xs, Apart x y) (hlt : ∀ x ∈ xs, x < 2 ^ 64)
    (hin : ∀ q ∈ xs, HeaderIn lo s.brk q) (hlist : Closed s.mem s.freeList xs) {fuel p1 p2 : Nat} (hp1 : p1 ∈ xs)
    (hp2 : Link xs p2) : Stays lo (defragLoop fuel (globals s) p1 p2) s.mem s.brk := by
  induction fuel generalizing s p1 p2 with
  | zero => trivial
  | succ fuel ih =>
      rw [defragLoop]
      by_cases hnull : p2 = NULL
      · rw [if_pos hnull]
        trivial
      have hmem := hp2.mem hnull
      rw [if_neg hnull]
      refine stays_get_bind (hin p1 hp1) ?_
      by_cases hadjacent : sub64 p2 p1 = field s.mem p1 .size
      · rw [if_pos hadjacent]
        obtain ⟨size, hsize⟩ : ∃ size, size = add64 (field s.mem p1 .size) (field s.mem p2 .size) := ⟨_, rfl⟩
        refine stays_get_bind (hin p2 hmem) ?_
        rw [← hsize]
        have hsizelt : size < 2 ^ 64 := by
          rw [hsize, add64]
          exact Nat.mod_lt _ (by decide)
        obtain ⟨s₁, hs₁⟩ : ∃ s₁ : Heap, s₁ = { s with mem := setField s.mem p1 .size size } := ⟨_, rfl⟩
        have hlist₁ : Closed s₁.mem s₁.freeList xs := by
          rw [hs₁]
          exact closed_setField hlist hap hp1 hsizelt (by simp)
        have hrest : Stays lo (do
            let g ← removeList (globals s₁) p2 true
            let next ← get p1 .next
            defragLoop fuel g p1 next) s₁.mem s₁.brk := by
          obtain ⟨s₂, hs₂⟩ : ∃ s₂, s₂ = Malloc.removeList s₁ p2 true := ⟨_, rfl⟩
          have hremove := run_removeList s₁ p2 true
          rw [← hs₂] at hremove
          have hin₁ : ∀ q ∈ xs, HeaderIn lo s₁.brk q := by
            rw [hs₁]
            exact hin
          have hlist₂ : Closed s₂.mem s₂.freeList xs := by
            rw [hs₂]
            exact closed_removeNode hlist₁ hap hlt hmem
          have hin₂ : ∀ q ∈ xs, HeaderIn lo s₂.brk q := by
            rw [hs₂]
            exact hin₁
          refine within_bind_of_eq hremove ?_ ?_
          · exact within_bind (stays_removeNode hlist₁ hin₁ hmem) fun r hr => trivial
          · exact stays_get_bind (hin₂ p1 hp1) (ih hin₂ hlist₂ hp1 (hlist₂.next p1 hp1))
        rw [hs₁] at hrest
        exact stays_set_bind (hin p1 hp1) hrest
      · rw [if_neg hadjacent]
        exact stays_get_bind (hin p2 hmem) (ih hin hlist hmem (hlist.next p2 hmem))

theorem stays_defrag (h : Rep s a) (hinv : a.Inv lo) : Stays lo (defrag (globals s)) s.mem s.brk := by
  have hin : ∀ q ∈ a.nodes, HeaderIn lo s.brk q := fun q hq => h.brk ▸ header_in hinv hq
  have hlist := closed_of_rep h.freeList
  have hsep := hinv.separate
  have hsub : ∀ q ∈ a.free.map Span.start, q ∈ a.nodes := fun q hq => Layout.mem_nodes_free hq
  rw [defrag]
  by_cases hnull : (globals s).freeList.head = NULL
  · rw [if_pos hnull]
    trivial
  have hhead := hlist.head.mem hnull
  rw [if_neg hnull]
  exact stays_get_bind (hin _ (hsub _ hhead)) (stays_defragLoop
    (fun x hx y hy => hsep.apart_mem x (hsub x hx) y (hsub y hy)) (fun x hx => hsep.lt x (hsub x hx))
    (fun q hq => hin q (hsub q hq)) hlist hhead (hlist.next _ hhead))

/-! ## `heap_info` -/

theorem stays_freeStats {m : Mem} {b : Break} {xs : List Nat} (hin : ∀ q ∈ xs, HeaderIn lo b q)
    (hnext : ∀ q ∈ xs, Link xs (field m q .next)) {fuel p : Nat} {freeSpace largest : Int} (hp : Link xs p) :
    Stays lo (freeStats fuel p freeSpace largest) m b := by
  induction fuel generalizing p freeSpace largest with
  | zero => trivial
  | succ fuel ih =>
      rw [freeStats]
      by_cases hnull : p = NULL
      · rw [if_pos hnull]
        trivial
      have hmem := hp.mem hnull
      rw [if_neg hnull]
      exact stays_get_bind (hin p hmem) (stays_get_bind (hin p hmem) (ih (hnext p hmem)))

/-- The loop writes into the two arrays, which are no headers, and has at most `k` entries to write. -/
theorem stays_fillArrays {m : Mem} {b : Break} {sizeArray ptrArray k p fuel i : Nat} {bs : List Alloc}
    (hk : k < 2 ^ 31) (hroom : sizeArray + 8 * k ≤ 2 ^ 64 ∧ ptrArray + 8 * k ≤ 2 ^ 64)
    (hseg : Segment (field m · .prev) (field m · .next) p (bs.map Alloc.addr) NULL)
    (hin : ∀ c ∈ bs, HeaderIn lo b c.addr)
    (harrays : ∀ x, InRange sizeArray (8 * k) x ∨ InRange ptrArray (8 * k) x → InHeap lo b x)
    (hout : ∀ c ∈ bs, ∀ y, InRange c.addr 32 y → ¬ InRange sizeArray (8 * k) y ∧ ¬ InRange ptrArray (8 * k) y)
    (hcount : i + (bs.filter fun c => c.addr ≠ sub64 sizeArray HEADER ∧
      c.addr ≠ sub64 ptrArray HEADER).length ≤ k) :
    Stays lo (fillArrays sizeArray ptrArray fuel ((bs.map Alloc.addr).headD NULL) i) m b := by
  induction bs generalizing p fuel i m with
  | nil =>
      cases fuel with
      | zero => trivial
      | succ fuel =>
          rw [List.map_nil, List.headD_nil, fillArrays, if_pos rfl]
          trivial
  | cons c bs ih =>
      cases fuel with
      | zero => trivial
      | succ fuel =>
          have hc := hin c List.mem_cons_self
          have hin' : ∀ d ∈ bs, HeaderIn lo b d.addr := fun d hd => hin d (List.mem_cons_of_mem _ hd)
          have hout' : ∀ d ∈ bs, ∀ y, InRange d.addr 32 y →
              ¬ InRange sizeArray (8 * k) y ∧ ¬ InRange ptrArray (8 * k) y := fun d hd =>
            hout d (List.mem_cons_of_mem _ hd)
          rw [List.map_cons, List.headD_cons, fillArrays]
          by_cases hnull : c.addr = NULL
          · rw [if_pos hnull]
            trivial
          rw [if_neg hnull]
          by_cases hother : c.addr ≠ sub64 sizeArray HEADER ∧ c.addr ≠ sub64 ptrArray HEADER
          · rw [List.filter_cons_of_pos (by simpa using hother), List.length_cons] at hcount
            obtain ⟨hsizeRoom, hptrRoom⟩ := hroom
            have hsizeAt : elementAt sizeArray i = sizeArray + 8 * i := elementAt_of_lt (by omega)
            have hptrAt : elementAt ptrArray i = ptrArray + 8 * i := elementAt_of_lt (by omega)
            have hindex : i + 1 < 2 ^ 31 := by omega
            rw [if_pos hother, hsizeAt, hptrAt, toInt32_succ hindex]
            obtain ⟨m₁, hm₁⟩ : ∃ m₁, m₁ = storeLE m (sizeArray + 8 * i) 8 (field m c.addr .allocBytes) := ⟨_, rfl⟩
            obtain ⟨m₂, hm₂⟩ : ∃ m₂, m₂ = storeLE m₁ (ptrArray + 8 * i) 8 (add64 c.addr HEADER) := ⟨_, rfl⟩
            have hlink : ∀ x ∈ (c :: bs).map Alloc.addr, ∀ f, field m₂ x f = field m x f := by
              intro x hx f
              obtain ⟨d, hd, rfl⟩ := List.mem_map.1 hx
              refine field_congr f fun y hy => ?_
              obtain ⟨h1, h2⟩ := hout d hd y hy
              rw [hm₂, hm₁, storeLE_of_not_inRange (by omega), storeLE_of_not_inRange (by omega)]
            obtain ⟨-, hnext, hseg'⟩ := hseg.congr (fun x hx => hlink x hx .prev) fun x hx => hlink x hx .next
            refine stays_get_bind hc ?_
            refine within_bind_of_eq (run_storeWord sbrk ..) (within_storeWord fun x hx =>
              harrays x (Or.inl ⟨by omega, by omega⟩)) ?_
            refine within_bind_of_eq (run_storeWord sbrk ..) (within_storeWord fun x hx =>
              harrays x (Or.inr ⟨by omega, by omega⟩)) ?_
            rw [← hm₁, ← hm₂]
            have hnext' : field m₂ c.addr .next = (bs.map Alloc.addr).headD NULL := hnext
            refine stays_get_bind hc ?_
            rw [hnext']
            exact ih hseg' hin' hout' (by omega)
          · rw [List.filter_cons_of_neg (by simpa using hother)] at hcount
            obtain ⟨-, hnext, hseg'⟩ := hseg
            have hnext' : field m c.addr .next = (bs.map Alloc.addr).headD NULL := hnext
            rw [if_neg hother]
            refine stays_get_bind hc ?_
            rw [hnext']
            exact ih hseg' hin' hout' hcount

/-- The last loop of `heap_info`, over the two arrays it has just allocated. -/
theorem stays_fillArrays_of_effect {s' : Heap} {a' : Layout} {c d : Alloc} (e : Effect lo s a s' a' [] [d, c])
    (hcount : a.alloc.length < 2 ^ 31) (hcbytes : c.bytes = arrayBytes a) (hdbytes : d.bytes = arrayBytes a) :
    Stays lo (fillArrays (c.addr + HEADER) (d.addr + HEADER) loopBound s'.allocList.head 0) s'.mem s'.brk := by
  have hcm := e.fresh_mem c (by simp)
  have hdm := e.fresh_mem d (by simp)
  -- the entries are payload bytes of the arrays
  have hpay : ∀ x ∈ [d, c], ∀ y, InRange (x.addr + HEADER) (8 * a.alloc.length) y →
      InHeap lo s'.brk y ∧ ∀ b ∈ a'.alloc, ¬ InRange b.addr 32 y := by
    intro x hx y hy
    have hxm := e.fresh_mem x hx
    have hfit := (e.inv.fits x hxm).1
    have hbounds := e.inv.tiled.bounds (Layout.Inv.mem_alloc hxm)
    have hxbytes : x.bytes = 8 * a.alloc.length := by
      rcases List.mem_cons.1 hx with rfl | hx
      · exact hdbytes
      · rw [List.mem_singleton.1 hx]
        exact hcbytes
    simp only [Alloc.span] at hbounds
    refine ⟨?_, fun b hb => ?_⟩
    · rw [e.rep.brk]
      exact ⟨by omega, by omega⟩
    · refine e.inv.payload_outside (Layout.Inv.mem_alloc hxm) hy.1 ?_ b.addr
        (Layout.mem_nodes_alloc (List.mem_map_of_mem hb))
      simp only [Alloc.span]
      omega
  have hfit : 0 + (a'.alloc.filter fun b =>
      b.addr ≠ sub64 (c.addr + HEADER) HEADER ∧ b.addr ≠ sub64 (d.addr + HEADER) HEADER).length ≤
        a.alloc.length := by
    rw [(e.inv.entire hcm).1, (e.inv.entire hdm).1, e.others.length_eq, Nat.zero_add]
  rw [e.rep.allocList.head]
  refine stays_fillArrays hcount ⟨e.inv.payload_end hcm hcbytes, e.inv.payload_end hdm hdbytes⟩ e.rep.allocList.segment (fun b hb => ?_) ?_ (fun b hb y hy => ⟨?_, ?_⟩) hfit
  · rw [e.rep.brk]
    exact header_in e.inv (Layout.mem_nodes_alloc (List.mem_map_of_mem hb))
  · rintro x (hx | hx)
    · exact (hpay c (by simp) x hx).1
    · exact (hpay d (by simp) x hx).1
  · exact fun hin => (hpay c (by simp) y hin).2 b hb hy
  · exact fun hin => (hpay d (by simp) y hin).2 b hb hy

theorem stays_heapInfo (h : Rep s a) (hinv : a.Inv lo) (hcount : a.alloc.length < 2 ^ 31) (info : HeapInfoStruct) :
    Stays lo (heapInfo (globals s) info) s.mem s.brk := by
  have hin : ∀ q ∈ a.nodes, HeaderIn lo s.brk q := fun q hq => h.brk ▸ header_in hinv hq
  have hlist := closed_of_rep h.freeList
  have hlt := hinv.arrayBytes_lt
  have hnum : (globals s).allocList.size = (a.alloc.length : Int) := h.numAllocs hcount
  rw [heapInfo]
  refine within_bind (stays_freeStats (fun q hq => hin q (Layout.mem_nodes_free hq)) hlist.next hlist.head)
    fun r hr => ?_
  rw [run_freeStats] at hr
  obtain ⟨stats, -, rfl⟩ := Option.map_eq_some_iff.1 hr
  simp only [hnum, arraySize_length hcount]
  by_cases hempty : (a.alloc.length : Int) = 0
  · rw [if_pos hempty]
    trivial
  rw [if_neg hempty]
  obtain ⟨s₁, fresh₁, hcode₁, hret₁, e₁⟩ := h.malloc_effect hinv (a.servable_of_lt hlt)
  have hrun₁ := run_malloc s (arrayBytes a)
  rw [hcode₁] at hrun₁
  refine within_bind_of_eq hrun₁ (stays_malloc h hinv hlt) ?_
  obtain ⟨hp₁, rfl⟩ | ⟨c, rfl, hc, hcbytes⟩ := hret₁
  · rw [if_pos hp₁]
    trivial
  have hp₁ : (a.malloc (arrayBytes a)).2 ≠ NULL := hc ▸ Nat.succ_ne_zero _
  rw [if_neg hp₁]
  obtain ⟨s₂, fresh₂, hcode₂, hret₂, e₂⟩ := e₁.rep.malloc_effect e₁.inv (Layout.servable_of_lt _ hlt)
  have hrun₂ := run_malloc s₁ (arrayBytes a)
  rw [hcode₂] at hrun₂
  refine within_bind_of_eq hrun₂ (stays_malloc e₁.rep e₁.inv hlt) ?_
  obtain ⟨hp₂, rfl⟩ | ⟨d, rfl, hd, hdbytes⟩ := hret₂
  · rw [if_pos hp₂]
    trivial
  have e : Effect lo s a s₂ _ [] [d, c] := e₁.trans e₂
  simp only [hc, hd]
  exact within_bind (stays_fillArrays_of_effect e hcount hcbytes hdbytes) fun r hr => trivial

end Calls

end MemoryManagement.Malloc.Code
