import MemoryManagement.Malloc.Operations
import MemoryManagement.Library.Accesses

/-!
# The allocator, access by access

`malloc.c` as programs over byte memory: every load of a header field, every store and every `sbrk` is an access
of its own, in the order of the source. The globals of the two lists are handed over. Run on a memory of its own,
each program computes what the function of the model does (`run_malloc` and its siblings).
-/

set_option autoImplicit false

namespace MemoryManagement.Malloc.Code

open MemoryManagement.Library.ByteMemory
open MemoryManagement.Library.Accesses

/-! ## The code -/

/-- The globals of `malloc.c`. -/
structure Globals where
  freeList : EltList
  allocList : EltList

/-- `p->f`. -/
def get (p : Nat) (f : Field) : Program Nat := loadWord (p + f.offset) 8

/-- `p->f = v`. -/
def set (p : Nat) (f : Field) (v : Nat) : Program Unit := storeWord (p + f.offset) 8 v

/-- The loop of `append_list_ordered`. -/
def findSlot (before : Nat → Program Bool) : Nat → Nat → Nat → Program (Nat × Nat)
  | 0, _, _ => .stuck
  | fuel + 1, p1, p2 =>
      if p2 = NULL then pure (p1, NULL)
      else do
        let behind ← before p1
        let found ← if behind then pure false else before p2
        if found then pure (p1, p2)
        else do
          let next ← get p2 .next
          findSlot before fuel p2 next

/-- The part of `append_list_ordered` that the two lists share. -/
def insertNode (l : EltList) (node : Nat) (before : Nat → Program Bool) : Program EltList :=
  let l := { l with size := toInt32 (l.size + 1) }
  if l.head = NULL then do
    set node .prev NULL
    set node .next NULL
    pure { l with head := node, tail := node }
  else do
    let first ← before l.head
    if first then do
      set node .prev NULL
      set node .next l.head
      set l.head .prev node
      pure { l with head := node }
    else do
      let next ← get l.head .next
      let slot ← findSlot before loopBound l.head next
      if slot.2 = NULL then do
        set slot.1 .next node
        set node .prev slot.1
        set node .next NULL
        pure { l with tail := node }
      else do
        set node .prev slot.1
        set node .next slot.2
        set slot.1 .next node
        set slot.2 .prev node
        pure l

/-- `append_list_ordered(node, size, alloc_bytes, free)`. -/
def appendListOrdered (g : Globals) (node size allocBytes : Nat) (free : Bool) : Program Globals := do
  set node .size size
  if free then do
    let l ← insertNode g.freeList node fun q => pure (decide (node < q))
    pure { g with freeList := l }
  else do
    set node .allocBytes allocBytes
    let l ← insertNode g.allocList node fun q => do
      let bytes ← get q .allocBytes
      pure (decide (bytes < allocBytes))
    pure { g with allocList := l }

/-- The part of `remove_list` that the two lists share. -/
def removeNode (l : EltList) (node : Nat) : Program EltList := do
  let prev ← get node .prev
  let next ← get node .next
  let head := if node = l.head then next else l.head
  let tail := if node = l.tail then prev else l.tail
  if prev ≠ NULL then set prev .next next
  if next ≠ NULL then set next .prev prev
  pure { head := head, tail := tail, size := toInt32 (l.size - 1) }

/-- `remove_list(node, free)`. -/
def removeList (g : Globals) (node : Nat) (free : Bool) : Program Globals :=
  if free then do
    let l ← removeNode g.freeList node
    pure { g with freeList := l }
  else do
    let l ← removeNode g.allocList node
    pure { g with allocList := l }

/-- The loop of `search_free`. -/
def searchFreeFrom (size : Nat) : Nat → Nat → Program Nat
  | 0, _ => .stuck
  | fuel + 1, p =>
      if p = NULL then pure NULL
      else do
        let room ← get p .size
        if size ≤ room then pure p
        else do
          let next ← get p .next
          searchFreeFrom size fuel next

/-- `search_free(size)`. -/
def searchFree (g : Globals) (size : Nat) : Program Nat := searchFreeFrom size loopBound g.freeList.head

/-- `free(firstbyte)`. -/
def free (g : Globals) (firstbyte : Nat) : Program Globals :=
  if firstbyte = NULL then pure g
  else do
    let entireBlock := sub64 firstbyte HEADER
    let g ← removeList g entireBlock false
    let size ← get entireBlock .size
    appendListOrdered g entireBlock size 0 true

/-- The end of `malloc`. -/
def carve (g : Globals) (p requiredSize numbytes : Nat) : Program (Globals × Nat) := do
  let initialFreeBlockSize ← get p .size
  let g ← removeList g p true
  if HEADER ≤ sub64 initialFreeBlockSize requiredSize then do
    let freePart := add64 p requiredSize
    let g ← appendListOrdered g freePart (sub64 initialFreeBlockSize requiredSize) 0 true
    let g ← appendListOrdered g p requiredSize numbytes false
    pure (g, add64 p HEADER)
  else do
    let g ← appendListOrdered g p initialFreeBlockSize numbytes false
    pure (g, add64 p HEADER)

/-- `malloc(numbytes)`. -/
def malloc (g : Globals) (numbytes : Nat) : Program (Globals × Nat) :=
  if numbytes = 0 then pure (g, NULL)
  else do
    let requiredSize := roundUp (add64 HEADER numbytes) 8
    let p ← searchFree g requiredSize
    if p = NULL then
      let chunkSize := roundUp requiredSize (PAGESIZE * 4)
      .ask chunkSize fun chunkRet =>
        if chunkRet = minusOne then pure (g, NULL)
        else do
          let g ← appendListOrdered g chunkRet chunkSize 0 true
          let p ← searchFree g requiredSize
          carve g p requiredSize numbytes
    else carve g p requiredSize numbytes

/-- `calloc(num, sz)`. -/
def calloc (g : Globals) (num sz : Nat) : Program (Globals × Nat) :=
  if num = 0 ∨ sz = 0 then pure (g, NULL)
  else if minusOne / num < sz then pure (g, NULL)
  else do
    let r ← malloc g (mul64 num sz)
    if r.2 = NULL then pure (r.1, NULL)
    else do
      fill 0 r.2 (mul64 num sz)
      pure r

/-- `realloc(ptr, sz)`. -/
def realloc (g : Globals) (ptr sz : Nat) : Program (Globals × Nat) :=
  if ptr = NULL then malloc g sz
  else if sz = 0 then do
    let g ← free g ptr
    pure (g, NULL)
  else do
    let r ← malloc g sz
    if r.2 = NULL then pure (r.1, NULL)
    else do
      let originalSize ← get (sub64 ptr HEADER) .size
      copy r.2 ptr (if originalSize < sz then originalSize else sz)
      let g ← free r.1 ptr
      pure (g, r.2)

/-- The loop of `defrag`. -/
def defragLoop : Nat → Globals → Nat → Nat → Program Globals
  | 0, _, _, _ => .stuck
  | fuel + 1, g, p1, p2 =>
      if p2 = NULL then pure g
      else do
        let size ← get p1 .size
        if sub64 p2 p1 = size then do
          let size' ← get p2 .size
          set p1 .size (add64 size size')
          let g ← removeList g p2 true
          let next ← get p1 .next
          defragLoop fuel g p1 next
        else do
          let next ← get p2 .next
          defragLoop fuel g p2 next

/-- `defrag()`. -/
def defrag (g : Globals) : Program Globals :=
  if g.freeList.head = NULL then pure g
  else do
    let next ← get g.freeList.head .next
    defragLoop loopBound g g.freeList.head next

/-- The first loop of `heap_info`. -/
def freeStats : Nat → Nat → Int → Int → Program (Int × Int)
  | 0, _, _, _ => .stuck
  | fuel + 1, f1, freeSpace, largest =>
      if f1 = NULL then pure (freeSpace, largest)
      else do
        let size ← get f1 .size
        let freeSpace := toInt32 (freeSpace + size)
        let largest := if largest ≤ toInt32 size then toInt32 size else largest
        let next ← get f1 .next
        freeStats fuel next freeSpace largest

/-- The second loop of `heap_info`. -/
def fillArrays (sizeArray ptrArray : Nat) : Nat → Nat → Int → Program Unit
  | 0, _, _ => .stuck
  | fuel + 1, x1, i =>
      if x1 = NULL then pure ()
      else if x1 ≠ sub64 sizeArray HEADER ∧ x1 ≠ sub64 ptrArray HEADER then do
        let bytes ← get x1 .allocBytes
        storeWord (elementAt sizeArray i) 8 bytes
        storeWord (elementAt ptrArray i) 8 (add64 x1 HEADER)
        let next ← get x1 .next
        fillArrays sizeArray ptrArray fuel next (toInt32 (i + 1))
      else do
        let next ← get x1 .next
        fillArrays sizeArray ptrArray fuel next i

/-- `heap_info(info)`. -/
def heapInfo (g : Globals) (info : HeapInfoStruct) : Program (Globals × HeapInfoStruct × Int) := do
  let info := { info with numAllocs := g.allocList.size }
  let stats ← freeStats loopBound g.freeList.head 0 0
  let info := { info with freeSpace := stats.1, largestFreeChunk := stats.2 }
  if info.numAllocs = 0 then pure (g, { info with sizeArray := NULL, ptrArray := NULL }, 0)
  else do
    let bytes := arraySize info.numAllocs
    let r ← malloc g bytes
    if r.2 = NULL then pure (r.1, info, -1)
    else do
      let r' ← malloc r.1 bytes
      if r'.2 = NULL then pure (r'.1, info, -1)
      else do
        fillArrays r.2 r'.2 loopBound r'.1.allocList.head 0
        pure (r'.1, { info with sizeArray := r.2, ptrArray := r'.2 }, 0)

/-! ## What the code computes -/

/-- The globals of a state of the model. -/
def globals (s : Heap) : Globals := ⟨s.freeList, s.allocList⟩

/-- The state of the model with these globals. -/
def Globals.heap (g : Globals) (m : Mem) (b : Break) : Heap := ⟨m, g.freeList, g.allocList, b⟩

/-- A state of the model as what is left of a run. -/
def ended (s : Heap) : Globals × Mem × Break := (globals s, s.mem, s.brk)

/-- A state of the model with a result, as what is left of a run. -/
def endedWith {α : Type} (r : Heap × α) : (Globals × α) × Mem × Break := ((globals r.1, r.2), r.1.mem, r.1.brk)

section After

variable {β : Type} {m : Mem} {b : Break}

/-- A part of a program that leaves a state of the model. -/
theorem run_after {p : Program Globals} {f : Globals → Program β} {o : Option Heap}
    (h : run sbrk p m b = o.map ended) :
    run sbrk (p >>= f) m b = o.bind fun s => run sbrk (f (globals s)) s.mem s.brk := by
  rw [run_bind, h]
  cases o with
  | none => rfl
  | some s => rfl

/-- A part of a program that leaves a state of the model and a result. -/
theorem run_afterWith {α : Type} {p : Program (Globals × α)} {f : Globals × α → Program β}
    {o : Option (Heap × α)} (h : run sbrk p m b = o.map endedWith) :
    run sbrk (p >>= f) m b = o.bind fun r => run sbrk (f (globals r.1, r.2)) r.1.mem r.1.brk := by
  rw [run_bind, h]
  cases o with
  | none => rfl
  | some r => rfl

end After

section Runs

variable (m : Mem) (b : Break)

@[simp] theorem run_get (p : Nat) (f : Field) : run sbrk (get p f) m b = some (field m p f, m, b) := by
  rw [get, field]
  exact run_loadWord ..

@[simp] theorem run_set (p : Nat) (f : Field) (v : Nat) :
    run sbrk (set p f v) m b = some ((), setField m p f v, b) := by
  rw [set, setField]
  exact run_storeWord ..

theorem run_findSlot {before : Nat → Program Bool} {test : Nat → Bool}
    (hbefore : ∀ q, run sbrk (before q) m b = some (test q, m, b)) (fuel p1 p2 : Nat) :
    run sbrk (findSlot before fuel p1 p2) m b =
      (Malloc.findSlot m test fuel p1 p2).map fun r => (r, m, b) := by
  induction fuel generalizing p1 p2 with
  | zero => rfl
  | succ fuel ih =>
      rw [findSlot, Malloc.findSlot]
      split
      · rfl
      · rw [run_bind_of_eq sbrk (hbefore p1)]
        cases h1 : test p1 with
        | true =>
            simp [run_bind, ih]
        | false =>
            simp only [Bool.false_eq_true, if_false]
            rw [run_bind_of_eq sbrk (hbefore p2)]
            cases h2 : test p2 with
            | true => simp
            | false => simp [run_bind, ih]

theorem run_insertNode {before : Nat → Program Bool} {test : Nat → Bool}
    (hbefore : ∀ q, run sbrk (before q) m b = some (test q, m, b)) (l : EltList) (node : Nat) :
    run sbrk (insertNode l node before) m b =
      (Malloc.insertNode m l node test).map fun r => (r.2, r.1, b) := by
  rw [insertNode, Malloc.insertNode]
  by_cases hhead : l.head = NULL
  · simp [hhead, run_bind]
  · simp only [if_neg hhead]
    rw [run_bind_of_eq sbrk (hbefore l.head)]
    cases hfirst : test l.head with
    | true => simp [run_bind]
    | false =>
        simp only [Bool.false_eq_true, if_false]
        rw [run_bind_of_eq sbrk (run_get m b l.head .next), run_bind, run_findSlot m b hbefore]
        cases Malloc.findSlot m test loopBound l.head (field m l.head .next) with
        | none => rfl
        | some slot =>
            obtain ⟨p1, p2⟩ := slot
            by_cases hlast : p2 = NULL
            · simp [hlast, run_bind]
            · simp [hlast, run_bind]

theorem run_appendListOrdered (s : Heap) (node size allocBytes : Nat) (free : Bool) :
    run sbrk (appendListOrdered (globals s) node size allocBytes free) s.mem s.brk =
      (Malloc.appendListOrdered s node size allocBytes free).map ended := by
  rw [appendListOrdered, Malloc.appendListOrdered, run_bind_of_eq sbrk (run_set s.mem s.brk node .size size)]
  cases free with
  | true =>
      simp only [if_true]
      have htest : ∀ q, run sbrk (pure (decide (node < q))) (setField s.mem node .size size) s.brk =
          some (decide (node < q), setField s.mem node .size size, s.brk) := fun q => rfl
      rw [run_bind, run_insertNode (setField s.mem node .size size) s.brk htest]
      simp only [globals]
      cases Malloc.insertNode (setField s.mem node .size size) s.freeList node fun q => decide (node < q) with
      | none => rfl
      | some r => rfl
  | false =>
      simp only [Bool.false_eq_true, if_false]
      obtain ⟨m, hm⟩ : ∃ m, m = setField (setField s.mem node .size size) node .allocBytes allocBytes := ⟨_, rfl⟩
      have htest : ∀ q, run sbrk (get q .allocBytes >>= fun bytes => pure (decide (bytes < allocBytes))) m s.brk =
          some (decide (field m q .allocBytes < allocBytes), m, s.brk) := by
        intro q
        rw [run_bind_of_eq sbrk (run_get m s.brk q .allocBytes), run_pure]
      rw [run_bind_of_eq sbrk (run_set _ s.brk node .allocBytes allocBytes), ← hm, run_bind,
        run_insertNode m s.brk htest]
      simp only [globals]
      cases Malloc.insertNode m s.allocList node fun q => decide (field m q .allocBytes < allocBytes) with
      | none => rfl
      | some r => rfl

theorem run_removeNode (l : EltList) (node : Nat) :
    run sbrk (removeNode l node) m b =
      some ((Malloc.removeNode m l node).2, (Malloc.removeNode m l node).1, b) := by
  rw [removeNode, run_bind_of_eq sbrk (run_get m b node .prev), run_bind_of_eq sbrk (run_get m b node .next)]
  by_cases hprev : field m node .prev = NULL
  · by_cases hnext : field m node .next = NULL
    · simp [Malloc.removeNode, hprev, hnext]
    · simp [Malloc.removeNode, hprev, hnext, run_bind]
  · by_cases hnext : field m node .next = NULL
    · simp [Malloc.removeNode, hprev, hnext, run_bind]
    · simp [Malloc.removeNode, hprev, hnext, run_bind]

theorem run_removeList (s : Heap) (node : Nat) (free : Bool) :
    run sbrk (removeList (globals s) node free) s.mem s.brk = some (ended (Malloc.removeList s node free)) := by
  cases free with
  | true =>
      simp only [removeList, Malloc.removeList, if_true]
      rw [run_bind_of_eq sbrk (run_removeNode s.mem s.brk _ node)]
      rfl
  | false =>
      simp only [removeList, Malloc.removeList, Bool.false_eq_true, if_false]
      rw [run_bind_of_eq sbrk (run_removeNode s.mem s.brk _ node)]
      rfl

theorem run_searchFree (s : Heap) (size : Nat) :
    run sbrk (searchFree (globals s) size) s.mem s.brk =
      (Malloc.searchFree s size).map fun p => (p, s.mem, s.brk) := by
  rw [searchFree, Malloc.searchFree]
  have hloop : ∀ fuel p, run sbrk (searchFreeFrom size fuel p) s.mem s.brk =
      (Malloc.searchFreeFrom s.mem size fuel p).map fun p => (p, s.mem, s.brk) := by
    intro fuel
    induction fuel with
    | zero => exact fun _ => rfl
    | succ fuel ih =>
        intro p
        rw [searchFreeFrom, Malloc.searchFreeFrom]
        by_cases hp : p = NULL
        · simp [hp]
        · simp only [if_neg hp]
          rw [run_bind_of_eq sbrk (run_get s.mem s.brk p .size)]
          by_cases hfit : size ≤ field s.mem p .size
          · simp [hfit]
          · simp [hfit, run_bind, ih]
  exact hloop loopBound s.freeList.head

theorem run_free (s : Heap) (firstbyte : Nat) :
    run sbrk (free (globals s) firstbyte) s.mem s.brk = (Malloc.free s firstbyte).map ended := by
  rw [free, Malloc.free]
  by_cases hnull : firstbyte = NULL
  · simp only [if_pos hnull]
    rfl
  · simp only [if_neg hnull]
    obtain ⟨s₁, hs₁⟩ : ∃ s₁, s₁ = Malloc.removeList s (sub64 firstbyte HEADER) false := ⟨_, rfl⟩
    have hremove := run_removeList s (sub64 firstbyte HEADER) false
    rw [← hs₁] at hremove ⊢
    rw [run_after (o := some s₁) hremove, Option.bind_some, run_bind_of_eq sbrk (run_get s₁.mem s₁.brk _ _)]
    exact run_appendListOrdered ..

theorem run_carve (s : Heap) (p requiredSize numbytes : Nat) :
    run sbrk (carve (globals s) p requiredSize numbytes) s.mem s.brk =
      (Malloc.carve s p requiredSize numbytes).map endedWith := by
  obtain ⟨room, hroom⟩ : ∃ room, room = field s.mem p .size := ⟨_, rfl⟩
  obtain ⟨s₁, hs₁⟩ : ∃ s₁, s₁ = Malloc.removeList s p true := ⟨_, rfl⟩
  have hremove := run_removeList s p true
  have hget := run_get s.mem s.brk p .size
  rw [← hs₁] at hremove
  rw [← hroom] at hget
  rw [carve, Malloc.carve, run_bind_of_eq sbrk hget, run_after (o := some s₁) hremove, Option.bind_some, ← hroom,
    ← hs₁]
  by_cases hsplit : HEADER ≤ sub64 room requiredSize
  · simp only [if_pos hsplit]
    rw [run_after (run_appendListOrdered s₁ ..)]
    cases Malloc.appendListOrdered s₁ (add64 p requiredSize) (sub64 room requiredSize) 0 true with
    | none => rfl
    | some s₂ =>
        rw [Option.bind_some, run_after (run_appendListOrdered s₂ ..)]
        simp only
        cases Malloc.appendListOrdered s₂ p requiredSize numbytes false with
        | none => rfl
        | some s₃ => rfl
  · simp only [if_neg hsplit]
    rw [run_after (run_appendListOrdered s₁ ..)]
    cases Malloc.appendListOrdered s₁ p room numbytes false with
    | none => rfl
    | some s₂ => rfl

/-- The code of `malloc` with its sizes named. -/
theorem malloc_eq (g : Globals) (n : Nat) :
    malloc g n =
      (if n = 0 then pure (g, NULL)
      else do
        let p ← searchFree g (required n)
        if p = NULL then
          .ask (chunk n) fun chunkRet =>
            if chunkRet = minusOne then pure (g, NULL)
            else do
              let g ← appendListOrdered g chunkRet (chunk n) 0 true
              let p ← searchFree g (required n)
              carve g p (required n) n
        else carve g p (required n) n) := by
  unfold malloc chunk required
  rfl

theorem run_malloc (s : Heap) (n : Nat) :
    run sbrk (malloc (globals s) n) s.mem s.brk = (Malloc.malloc s n).map endedWith := by
  rw [malloc_eq, Malloc.malloc_eq]
  by_cases hzero : n = 0
  · rw [if_pos hzero, if_pos hzero]
    rfl
  rw [if_neg hzero, if_neg hzero, run_bind, run_searchFree]
  cases Malloc.searchFree s (required n) with
  | none => rfl
  | some p =>
      simp only [Option.map_some, Option.bind_some]
      by_cases hp : p = NULL
      · rw [if_pos hp, if_pos hp, run]
        obtain ⟨b, hb⟩ : ∃ b, b = sbrk s.brk (chunk n) := ⟨_, rfl⟩
        rw [← hb]
        by_cases hrefused : b.2 = minusOne
        · rw [if_pos hrefused, if_pos hrefused]
          rfl
        · rw [if_neg hrefused, if_neg hrefused]
          have happend : run sbrk (appendListOrdered (globals s) b.2 (chunk n) 0 true) s.mem b.1 =
              (Malloc.appendListOrdered { s with brk := b.1 } b.2 (chunk n) 0 true).map ended :=
            run_appendListOrdered { s with brk := b.1 } b.2 (chunk n) 0 true
          rw [run_after happend]
          cases Malloc.appendListOrdered { s with brk := b.1 } b.2 (chunk n) 0 true with
          | none => rfl
          | some s₂ =>
              simp only [Option.bind_some]
              rw [run_bind, run_searchFree]
              cases Malloc.searchFree s₂ (required n) with
              | none => rfl
              | some q =>
                  simp only [Option.map_some, Option.bind_some]
                  exact run_carve s₂ q (required n) n
      · rw [if_neg hp, if_neg hp]
        exact run_carve ..

theorem run_calloc (s : Heap) (num sz : Nat) :
    run sbrk (calloc (globals s) num sz) s.mem s.brk = (Malloc.calloc s num sz).map endedWith := by
  rw [calloc, Malloc.calloc]
  split
  · rfl
  · split
    · rfl
    · rw [run_afterWith (run_malloc s _)]
      cases Malloc.malloc s (mul64 num sz) with
      | none => rfl
      | some r =>
          obtain ⟨s₁, p⟩ := r
          rw [Option.bind_some]
          by_cases hnull : p = NULL
          · simp only [if_pos hnull]
            rfl
          · simp only [if_neg hnull]
            rw [run_bind_of_eq sbrk (run_fill sbrk 0 p (mul64 num sz) s₁.mem s₁.brk)]
            rfl

theorem run_realloc (s : Heap) (ptr sz : Nat) :
    run sbrk (realloc (globals s) ptr sz) s.mem s.brk = (Malloc.realloc s ptr sz).map endedWith := by
  rw [realloc, Malloc.realloc]
  by_cases hptr : ptr = NULL
  · rw [if_pos hptr, if_pos hptr]
    exact run_malloc s sz
  rw [if_neg hptr, if_neg hptr]
  by_cases hzero : sz = 0
  · rw [if_pos hzero, if_pos hzero, run_after (run_free s ptr)]
    cases Malloc.free s ptr with
    | none => rfl
    | some s₁ => rfl
  rw [if_neg hzero, if_neg hzero, run_afterWith (run_malloc s sz)]
  cases Malloc.malloc s sz with
  | none => rfl
  | some r =>
      obtain ⟨s₁, p⟩ := r
      rw [Option.bind_some]
      by_cases hnull : p = NULL
      · simp only [if_pos hnull]
        rfl
      simp only [if_neg hnull]
      obtain ⟨size, hsize⟩ : ∃ size, size = field s₁.mem (sub64 ptr HEADER) .size := ⟨_, rfl⟩
      have hget := run_get s₁.mem s₁.brk (sub64 ptr HEADER) .size
      rw [← hsize] at hget ⊢
      obtain ⟨m, hm⟩ : ∃ m, m = memcpy s₁.mem p ptr (if size < sz then size else sz) := ⟨_, rfl⟩
      have hcopy := run_copy sbrk p ptr (if size < sz then size else sz) s₁.mem s₁.brk
      rw [← hm] at hcopy ⊢
      have hfree : run sbrk (free (globals s₁) ptr) m s₁.brk = (Malloc.free { s₁ with mem := m } ptr).map ended :=
        run_free { s₁ with mem := m } ptr
      rw [run_bind_of_eq sbrk hget, run_bind_of_eq sbrk hcopy, run_after hfree]
      cases Malloc.free { s₁ with mem := m } ptr with
      | none => rfl
      | some s₂ => rfl

theorem run_defragLoop (fuel : Nat) (s : Heap) (p1 p2 : Nat) :
    run sbrk (defragLoop fuel (globals s) p1 p2) s.mem s.brk = (Malloc.defragLoop fuel s p1 p2).map ended := by
  induction fuel generalizing s p1 p2 with
  | zero => rfl
  | succ fuel ih =>
      rw [defragLoop, Malloc.defragLoop]
      by_cases hp2 : p2 = NULL
      · rw [if_pos hp2, if_pos hp2]
        rfl
      rw [if_neg hp2, if_neg hp2, run_bind_of_eq sbrk (run_get s.mem s.brk p1 .size)]
      by_cases hadjacent : sub64 p2 p1 = field s.mem p1 .size
      · simp only [if_pos hadjacent]
        obtain ⟨m, hm⟩ : ∃ m, m =
          setField s.mem p1 .size (add64 (field s.mem p1 .size) (field s.mem p2 .size)) := ⟨_, rfl⟩
        have hset := run_set s.mem s.brk p1 .size (add64 (field s.mem p1 .size) (field s.mem p2 .size))
        rw [← hm] at hset ⊢
        obtain ⟨s₁, hs₁⟩ : ∃ s₁, s₁ = Malloc.removeList { s with mem := m } p2 true := ⟨_, rfl⟩
        have hremove : run sbrk (removeList (globals s) p2 true) m s.brk = (some s₁).map ended := by
          rw [hs₁]
          exact run_removeList { s with mem := m } p2 true
        rw [run_bind_of_eq sbrk (run_get s.mem s.brk p2 .size), run_bind_of_eq sbrk hset, run_after hremove,
          Option.bind_some, ← hs₁, run_bind_of_eq sbrk (run_get s₁.mem s₁.brk p1 .next)]
        exact ih s₁ p1 _
      · simp only [if_neg hadjacent]
        rw [run_bind_of_eq sbrk (run_get s.mem s.brk p2 .next)]
        exact ih s p2 _

theorem run_defrag (s : Heap) : run sbrk (defrag (globals s)) s.mem s.brk = (Malloc.defrag s).map ended := by
  have hhead : (globals s).freeList = s.freeList := rfl
  rw [defrag, Malloc.defrag, hhead]
  split
  · rfl
  · rw [run_bind_of_eq sbrk (run_get s.mem s.brk _ _)]
    exact run_defragLoop ..

theorem run_freeStats (fuel f1 : Nat) (freeSpace largest : Int) :
    run sbrk (freeStats fuel f1 freeSpace largest) m b =
      (Malloc.freeStats m fuel f1 freeSpace largest).map fun r => (r, m, b) := by
  induction fuel generalizing f1 freeSpace largest with
  | zero => rfl
  | succ fuel ih =>
      rw [freeStats, Malloc.freeStats]
      split
      · rfl
      · rw [run_bind_of_eq sbrk (run_get m b f1 .size), run_bind_of_eq sbrk (run_get m b f1 .next)]
        exact ih ..

theorem run_fillArrays (sizeArray ptrArray fuel x1 : Nat) (i : Int) :
    run sbrk (fillArrays sizeArray ptrArray fuel x1 i) m b =
      (Malloc.fillArrays sizeArray ptrArray fuel m x1 i).map fun m' => ((), m', b) := by
  induction fuel generalizing m x1 i with
  | zero => rfl
  | succ fuel ih =>
      rw [fillArrays, Malloc.fillArrays]
      split
      · rfl
      · split
        · rw [run_bind_of_eq sbrk (run_get m b x1 .allocBytes), run_bind_of_eq sbrk (run_storeWord sbrk ..),
            run_bind_of_eq sbrk (run_storeWord sbrk ..), run_bind_of_eq sbrk (run_get _ b x1 .next)]
          exact ih ..
        · rw [run_bind_of_eq sbrk (run_get m b x1 .next)]
          exact ih ..

theorem run_heapInfo (s : Heap) (info : HeapInfoStruct) :
    run sbrk (heapInfo (globals s) info) s.mem s.brk = (Malloc.heapInfo s info).map endedWith := by
  have hglobals : (globals s).freeList = s.freeList ∧ (globals s).allocList = s.allocList := ⟨rfl, rfl⟩
  rw [heapInfo, Malloc.heapInfo, hglobals.1, hglobals.2, run_bind, run_freeStats]
  cases Malloc.freeStats s.mem loopBound s.freeList.head 0 0 with
  | none => rfl
  | some stats =>
      obtain ⟨freeSpace, largest⟩ := stats
      simp only [Option.map_some, Option.bind_some]
      by_cases hnone : s.allocList.size = 0
      · simp only [if_pos hnone]
        rfl
      simp only [if_neg hnone]
      obtain ⟨bytes, hbytes⟩ : ∃ bytes, bytes = arraySize s.allocList.size := ⟨_, rfl⟩
      rw [← hbytes, run_afterWith (run_malloc s bytes)]
      cases Malloc.malloc s bytes with
      | none => rfl
      | some r =>
          obtain ⟨s₁, sizeArray⟩ := r
          rw [Option.bind_some]
          by_cases hsizes : sizeArray = NULL
          · simp only [if_pos hsizes]
            rfl
          simp only [if_neg hsizes]
          rw [run_afterWith (run_malloc s₁ bytes)]
          cases Malloc.malloc s₁ bytes with
          | none => rfl
          | some r' =>
              obtain ⟨s₂, ptrArray⟩ := r'
              rw [Option.bind_some]
              by_cases hptrs : ptrArray = NULL
              · simp only [if_pos hptrs]
                rfl
              simp only [if_neg hptrs]
              have hhead : (globals s₂).allocList.head = s₂.allocList.head := rfl
              rw [hhead, run_bind, run_fillArrays]
              cases Malloc.fillArrays sizeArray ptrArray loopBound s₂.mem s₂.allocList.head 0 with
              | none => rfl
              | some m => rfl

end Runs

end MemoryManagement.Malloc.Code
