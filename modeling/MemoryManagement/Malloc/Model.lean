import MemoryManagement.Library.ByteMemory

/-!
# The user-space allocator

Translation of `uspace/malloc.c`. Every block starts with an `elt` header of four 64-bit words; the
free list and the alloc list are threaded through these headers, so links, sizes and payload bytes
share one byte-addressed memory.

Pointers, `size_t` and `uint64_t` values are naturals below `2 ^ 64`, and every sum, difference and
product of them is reduced modulo `2 ^ 64` as in C. The loops that follow `next` pointers carry a
bound of `2 ^ 64` iterations, one for each address; `none` stands for a loop that has not ended by
then. Values of type `int` (the two list sizes, the index and the counts of `heap_info`) are integers
and wrap around at 32 bits wherever the code changes them.

The kernel's side of `sbrk` is the `Break` record: `grants i` decides whether the `i`-th call is
accepted.
-/

set_option autoImplicit false

namespace MemoryManagement.Malloc

open MemoryManagement.Library.ByteMemory

/-! ## Constants and machine arithmetic -/

/-- The null pointer. -/
abbrev NULL : Nat := 0

/-- `sizeof(elt)`. -/
abbrev HEADER : Nat := 32

abbrev PAGESIZE : Nat := 4096

/-- `(void *) -1` and `(uint64_t) -1`. -/
abbrev minusOne : Nat := 2 ^ 64 - 1

/-- Iteration bound of a loop over list nodes: the number of addresses. -/
def loopBound : Nat := 2 ^ 64

@[irreducible]
def add64 (a b : Nat) : Nat := (a + b) % 2 ^ 64

@[irreducible]
def sub64 (a b : Nat) : Nat := (a + 2 ^ 64 - b) % 2 ^ 64

@[irreducible]
def mul64 (a b : Nat) : Nat := (a * b) % 2 ^ 64

/-- `ROUNDDOWN(a, n)` on `uint64_t`. -/
@[irreducible]
def roundDown (a n : Nat) : Nat := a - a % n

/-- `ROUNDUP(a, n)` on `uint64_t`. -/
@[irreducible]
def roundUp (a n : Nat) : Nat := roundDown ((a + n - 1) % 2 ^ 64) n

/-- Conversion to a 64-bit signed integer. -/
def toInt64 (a : Nat) : Int := if a < 2 ^ 63 then a else (a : Int) - 2 ^ 64

/-- Conversion to a 32-bit signed integer. -/
def toInt32 (a : Int) : Int := Int.bmod a (2 ^ 32)

/-! ## Block headers -/

/-- The fields of `struct elt`. -/
inductive Field where
  | size
  | allocBytes
  | prev
  | next
  deriving DecidableEq, Repr

/-- `offsetof(elt, f)`. -/
def Field.offset : Field → Nat
  | .size => 0
  | .allocBytes => 8
  | .prev => 16
  | .next => 24

/-- `p->f`. -/
@[irreducible]
def field (m : Mem) (p : Nat) (f : Field) : Nat := loadLE m (p + f.offset) 8

/-- `p->f = v`. -/
@[irreducible]
def setField (m : Mem) (p : Nat) (f : Field) (v : Nat) : Mem := storeLE m (p + f.offset) 8 v

/-! ## State -/

/-- The globals of one list: `free_head`, `free_tail` and `free_list_size`, or the same for `alloc`. The
size is an `int`. -/
structure EltList where
  head : Nat
  tail : Nat
  size : Int

/-- The program break as `sbrk` presents it: the current break, the answers to the calls, and the
increments asked for so far, last first. -/
structure Break where
  current : Nat
  grants : Nat → Bool
  requests : List Nat

/-- Memory, the globals of `malloc.c` and the program break. -/
structure Heap where
  mem : Mem
  freeList : EltList
  allocList : EltList
  brk : Break

/-- `sbrk(increment)`: refuse with `-1`, or move the break by the signed increment and return the old
break. A break outside the 64-bit address space is always refused. -/
def sbrk (b : Break) (increment : Nat) : Break × Nat :=
  let newBreak : Int := b.current + toInt64 increment
  let requests := increment :: b.requests
  if b.grants b.requests.length ∧ 0 ≤ newBreak ∧ newBreak < 2 ^ 64 then
    ({ b with current := newBreak.toNat, requests := requests }, b.current)
  else
    ({ b with requests := requests }, minusOne)

/-! ## List operations -/

/-- The loop of `append_list_ordered`: the first neighbours `p1`, `p2` with the new node after `p1`
and before `p2`, or the last node and `NULL`. -/
def findSlot (m : Mem) (before : Nat → Bool) : Nat → Nat → Nat → Option (Nat × Nat)
  | 0, _, _ => none
  | fuel + 1, p1, p2 =>
      if p2 = NULL then some (p1, NULL)
      else if !before p1 && before p2 then some (p1, p2)
      else findSlot m before fuel p2 (field m p2 .next)

/-- The part of `append_list_ordered` that the two lists share; `before q` tests whether the new node
goes in front of `q`. -/
def insertNode (m : Mem) (l : EltList) (node : Nat) (before : Nat → Bool) :
    Option (Mem × EltList) :=
  let l := { l with size := toInt32 (l.size + 1) }
  if l.head = NULL then
    let m := setField m node .prev NULL
    let m := setField m node .next NULL
    some (m, { l with head := node, tail := node })
  else if before l.head then
    let m := setField m node .prev NULL
    let m := setField m node .next l.head
    let m := setField m l.head .prev node
    some (m, { l with head := node })
  else
    match findSlot m before loopBound l.head (field m l.head .next) with
    | none => none
    | some (p1, p2) =>
        if p2 = NULL then
          let m := setField m p1 .next node
          let m := setField m node .prev p1
          let m := setField m node .next NULL
          some (m, { l with tail := node })
        else
          let m := setField m node .prev p1
          let m := setField m node .next p2
          let m := setField m p1 .next node
          let m := setField m p2 .prev node
          some (m, l)

/-- `append_list_ordered(node, size, alloc_bytes, free)`: the free list is ordered by address, the
alloc list by descending `alloc_bytes`. -/
def appendListOrdered (s : Heap) (node size allocBytes : Nat) (free : Bool) : Option Heap :=
  let m := setField s.mem node .size size
  if free then
    match insertNode m s.freeList node (fun q => decide (node < q)) with
    | none => none
    | some (m, l) => some { s with mem := m, freeList := l }
  else
    let m := setField m node .allocBytes allocBytes
    match insertNode m s.allocList node (fun q => decide (field m q .allocBytes < allocBytes)) with
    | none => none
    | some (m, l) => some { s with mem := m, allocList := l }

/-- The part of `remove_list` that the two lists share. -/
def removeNode (m : Mem) (l : EltList) (node : Nat) : Mem × EltList :=
  let prev := field m node .prev
  let next := field m node .next
  let head := if node = l.head then next else l.head
  let tail := if node = l.tail then prev else l.tail
  let m := if prev ≠ NULL then setField m prev .next next else m
  let m := if next ≠ NULL then setField m next .prev prev else m
  (m, { head := head, tail := tail, size := toInt32 (l.size - 1) })

/-- `remove_list(node, free)`. -/
def removeList (s : Heap) (node : Nat) (free : Bool) : Heap :=
  if free then
    let (m, l) := removeNode s.mem s.freeList node
    { s with mem := m, freeList := l }
  else
    let (m, l) := removeNode s.mem s.allocList node
    { s with mem := m, allocList := l }

/-- The loop of `search_free`. -/
def searchFreeFrom (m : Mem) (size : Nat) : Nat → Nat → Option Nat
  | 0, _ => none
  | fuel + 1, p =>
      if p = NULL then some NULL
      else if size ≤ field m p .size then some p
      else searchFreeFrom m size fuel (field m p .next)

/-- `search_free(size)`. -/
def searchFree (s : Heap) (size : Nat) : Option Nat :=
  searchFreeFrom s.mem size loopBound s.freeList.head

/-! ## The allocator interface -/

/-- `free(firstbyte)`. -/
def free (s : Heap) (firstbyte : Nat) : Option Heap :=
  if firstbyte = NULL then some s
  else
    let entireBlock := sub64 firstbyte HEADER
    let s := removeList s entireBlock false
    appendListOrdered s entireBlock (field s.mem entireBlock .size) 0 true

/-- The end of `malloc`: take the free block `p` off the free list, cut the rest off it when that
leaves room for a header, and put it on the alloc list. -/
def carve (s : Heap) (p requiredSize numbytes : Nat) : Option (Heap × Nat) :=
  let initialFreeBlockSize := field s.mem p .size
  let s := removeList s p true
  if HEADER ≤ sub64 initialFreeBlockSize requiredSize then
    let freePart := add64 p requiredSize
    match appendListOrdered s freePart (sub64 initialFreeBlockSize requiredSize) 0 true with
    | none => none
    | some s =>
        match appendListOrdered s p requiredSize numbytes false with
        | none => none
        | some s => some (s, add64 p HEADER)
  else
    match appendListOrdered s p initialFreeBlockSize numbytes false with
    | none => none
    | some s => some (s, add64 p HEADER)

/-- `malloc(numbytes)`. -/
def malloc (s : Heap) (numbytes : Nat) : Option (Heap × Nat) :=
  if numbytes = 0 then some (s, NULL)
  else
    let requiredSize := roundUp (add64 HEADER numbytes) 8
    match searchFree s requiredSize with
    | none => none
    | some p =>
        if p = NULL then
          let chunkSize := roundUp requiredSize (PAGESIZE * 4)
          let (b, chunkRet) := sbrk s.brk chunkSize
          let s := { s with brk := b }
          if chunkRet = minusOne then some (s, NULL)
          else
            match appendListOrdered s chunkRet chunkSize 0 true with
            | none => none
            | some s =>
                match searchFree s requiredSize with
                | none => none
                | some p => carve s p requiredSize numbytes
        else carve s p requiredSize numbytes

/-- `calloc(num, sz)`. -/
def calloc (s : Heap) (num sz : Nat) : Option (Heap × Nat) :=
  if num = 0 ∨ sz = 0 then some (s, NULL)
  else if minusOne / num < sz then some (s, NULL)
  else
    match malloc s (mul64 num sz) with
    | none => none
    | some (s, mallocRet) =>
        if mallocRet = NULL then some (s, NULL)
        else some ({ s with mem := memset s.mem mallocRet 0 (mul64 num sz) }, mallocRet)

/-- `realloc(ptr, sz)`. -/
def realloc (s : Heap) (ptr sz : Nat) : Option (Heap × Nat) :=
  if ptr = NULL then malloc s sz
  else if sz = 0 then
    match free s ptr with
    | none => none
    | some s => some (s, NULL)
  else
    match malloc s sz with
    | none => none
    | some (s, newPayload) =>
        if newPayload = NULL then some (s, NULL)
        else
          let originalSize := field s.mem (sub64 ptr HEADER) .size
          let newsize := if originalSize < sz then originalSize else sz
          let s := { s with mem := memcpy s.mem newPayload ptr newsize }
          match free s ptr with
          | none => none
          | some s => some (s, newPayload)

/-- The loop of `defrag`. -/
def defragLoop : Nat → Heap → Nat → Nat → Option Heap
  | 0, _, _, _ => none
  | fuel + 1, s, p1, p2 =>
      if p2 = NULL then some s
      else if sub64 p2 p1 = field s.mem p1 .size then
        let m := setField s.mem p1 .size (add64 (field s.mem p1 .size) (field s.mem p2 .size))
        let s := removeList { s with mem := m } p2 true
        defragLoop fuel s p1 (field s.mem p1 .next)
      else defragLoop fuel s p2 (field s.mem p2 .next)

/-- `defrag()`. -/
def defrag (s : Heap) : Option Heap :=
  if s.freeList.head = NULL then some s
  else defragLoop loopBound s s.freeList.head (field s.mem s.freeList.head .next)

/-- `heap_info_struct`. -/
structure HeapInfoStruct where
  numAllocs : Int
  sizeArray : Nat
  ptrArray : Nat
  freeSpace : Int
  largestFreeChunk : Int

/-- The first loop of `heap_info`: the sum and the maximum of the free block sizes, in `int`s. -/
def freeStats (m : Mem) : Nat → Nat → Int → Int → Option (Int × Int)
  | 0, _, _, _ => none
  | fuel + 1, f1, freeSpace, largest =>
      if f1 = NULL then some (freeSpace, largest)
      else
        let size := field m f1 .size
        let freeSpace := toInt32 (freeSpace + size)
        let largest := if largest ≤ toInt32 size then toInt32 size else largest
        freeStats m fuel (field m f1 .next) freeSpace largest

/-- `&array[i]` for an array of 8-byte elements and an index of type `int`. -/
def elementAt (array : Nat) (i : Int) : Nat := ((array + 8 * i) % 2 ^ 64).toNat

/-- The second loop of `heap_info`: one entry of both arrays for every allocated block that is not
one of the arrays. -/
def fillArrays (sizeArray ptrArray : Nat) : Nat → Mem → Nat → Int → Option Mem
  | 0, _, _, _ => none
  | fuel + 1, m, x1, i =>
      if x1 = NULL then some m
      else if x1 ≠ sub64 sizeArray HEADER ∧ x1 ≠ sub64 ptrArray HEADER then
        let m := storeLE m (elementAt sizeArray i) 8 (field m x1 .allocBytes)
        let m := storeLE m (elementAt ptrArray i) 8 (add64 x1 HEADER)
        fillArrays sizeArray ptrArray fuel m (field m x1 .next) (toInt32 (i + 1))
      else fillArrays sizeArray ptrArray fuel m (field m x1 .next) i

/-- `info->num_allocs * sizeof(long)`: the `int` is converted to `size_t`. -/
def arraySize (numAllocs : Int) : Nat := (numAllocs * 8 % 2 ^ 64).toNat

/-- `heap_info(info)`: the new state, the struct as it is left, and the return value. -/
def heapInfo (s : Heap) (info : HeapInfoStruct) : Option (Heap × HeapInfoStruct × Int) :=
  let info := { info with numAllocs := s.allocList.size }
  match freeStats s.mem loopBound s.freeList.head 0 0 with
  | none => none
  | some (freeSpace, largest) =>
      let info := { info with freeSpace := freeSpace, largestFreeChunk := largest }
      if info.numAllocs = 0 then some (s, { info with sizeArray := NULL, ptrArray := NULL }, 0)
      else
        let bytes := arraySize info.numAllocs
        match malloc s bytes with
        | none => none
        | some (s, sizeArray) =>
            if sizeArray = NULL then some (s, info, -1)
            else
              match malloc s bytes with
              | none => none
              | some (s, ptrArray) =>
                  if ptrArray = NULL then some (s, info, -1)
                  else
                    match fillArrays sizeArray ptrArray loopBound s.mem s.allocList.head 0 with
                    | none => none
                    | some m =>
                        some ({ s with mem := m },
                          { info with sizeArray := sizeArray, ptrArray := ptrArray }, 0)

end MemoryManagement.Malloc
