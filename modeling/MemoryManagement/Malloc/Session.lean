import MemoryManagement.Malloc.Traversals

/-!
# Programs that use the allocator

A session is the allocator state together with the allocations that are live: the payload pointers
handed out and not yet given back, with the sizes asked for. The live list is kept from the calls and
their results alone, never from the lists of the allocator. Between calls the program may write any
byte of a live payload.

`Session.Inv` ties a session to an invariant layout. Every legal call ends and keeps it
(`Session.Inv.step`), and with it the payload and the sizes of every live allocation that the call
spares.
-/

set_option autoImplicit false

namespace MemoryManagement.Malloc

open MemoryManagement.Library.ByteMemory
open MemoryManagement.Library.DoublyLinked
open MemoryManagement.Library.Tiling

/-! ## Calls and sessions -/

/-- What a program does with its heap. `write` stores one byte. -/
inductive Call where
  | malloc (numbytes : Nat)
  | calloc (num sz : Nat)
  | realloc (ptr sz : Nat)
  | free (ptr : Nat)
  | defrag
  | heapInfo (info : HeapInfoStruct)
  | write (x : Nat) (v : UInt8)

/-- Allocator state and live allocations, each a payload pointer with the size asked for. -/
structure Session where
  heap : Heap
  live : List (Nat × Nat)

/-- A result pointer joins the live allocations unless it is null. -/
def handOut (p n : Nat) (live : List (Nat × Nat)) : List (Nat × Nat) :=
  if p = NULL then live else (p, n) :: live

/-- The live allocations without `p`. -/
def giveBack (p : Nat) (live : List (Nat × Nat)) : List (Nat × Nat) :=
  live.filter fun e => e.1 ≠ p

/-- Requests stay below `2 ^ 62` (a product that overflows is caught by `calloc`), only null or live
pointers are freed or reallocated, and the program writes into live payloads only. -/
def Call.Proper (live : List (Nat × Nat)) : Call → Prop
  | .malloc numbytes => numbytes < 2 ^ 62
  | .calloc num sz => num * sz < 2 ^ 62 ∨ 2 ^ 64 ≤ num * sz
  | .realloc ptr sz => sz < 2 ^ 62 ∧ (ptr = NULL ∨ ∃ n, (ptr, n) ∈ live)
  | .free ptr => ptr = NULL ∨ ∃ n, (ptr, n) ∈ live
  | .defrag => True
  | .heapInfo _ => True
  | .write x _ => ∃ e ∈ live, InRange e.1 e.2 x

/-- The alloc list has fewer than `2 ^ 31` blocks. -/
def CountFits (s : Heap) : Prop :=
  ∃ as, Chain NULL (field s.mem · .next) s.allocList.head as ∧ as.length < 2 ^ 31

namespace Session

/-- One call; `none` when the call does not end. -/
def step (st : Session) : Call → Option Session
  | .malloc numbytes =>
      (malloc st.heap numbytes).map fun r => ⟨r.1, handOut r.2 numbytes st.live⟩
  | .calloc num sz =>
      (calloc st.heap num sz).map fun r => ⟨r.1, handOut r.2 (num * sz) st.live⟩
  | .realloc ptr sz =>
      (realloc st.heap ptr sz).map fun r =>
        -- a failed `realloc` leaves the old allocation alone
        if sz ≠ 0 ∧ r.2 = NULL then ⟨r.1, st.live⟩
        else ⟨r.1, handOut r.2 sz (giveBack ptr st.live)⟩
  | .free ptr => (free st.heap ptr).map fun s => ⟨s, giveBack ptr st.live⟩
  | .defrag => (defrag st.heap).map fun s => ⟨s, st.live⟩
  | .heapInfo info =>
      (heapInfo st.heap info).map fun r =>
        if r.2.2 = 0 ∧ r.2.1.numAllocs ≠ 0 then
          ⟨r.1, handOut r.2.1.ptrArray (8 * r.2.1.numAllocs.toNat)
            (handOut r.2.1.sizeArray (8 * r.2.1.numAllocs.toNat) st.live)⟩
        else ⟨r.1, st.live⟩
  | .write x v => some { st with heap := { st.heap with mem := Function.update st.heap.mem x v } }

/-- A run of calls. -/
def run : Session → List Call → Option Session
  | st, [] => some st
  | st, c :: cs =>
      match st.step c with
      | none => none
      | some st' => run st' cs

/-- A legal call: it is proper, and the blocks that `heap_info` counts in an `int` are fewer than `2 ^ 31`. -/
def Legal (st : Session) : Call → Prop
  | .heapInfo _ => CountFits st.heap
  | c => c.Proper st.live

/-- Every call of the run is legal in the state it is made in. -/
def LegalRun : Session → List Call → Prop
  | _, [] => True
  | st, c :: cs => st.Legal c ∧ ∀ st', st.step c = some st' → LegalRun st' cs

/-- The allocator before its first call. -/
def start (m : Mem) (brk : Break) : Session :=
  ⟨⟨m, ⟨NULL, NULL, 0⟩, ⟨NULL, NULL, 0⟩, brk⟩, []⟩

end Session

/-- A program break at which a heap can start. -/
structure HeapStart (brk : Break) : Prop where
  nonnull : brk.current ≠ NULL
  aligned : brk.current % 8 = 0
  lt : brk.current < 2 ^ 64

/-- States that legal calls reach from an empty allocator with break `brk`. -/
inductive Reachable (brk : Break) : Session → Prop where
  | start (m : Mem) : Reachable brk (Session.start m brk)
  | step {st st' : Session} {c : Call} :
      Reachable brk st → st.Legal c → st.step c = some st' → Reachable brk st'

/-- The call neither gives the allocation back nor writes into it. -/
def Call.Spares (e : Nat × Nat) : Call → Prop
  | .realloc ptr _ => ptr ≠ e.1
  | .free ptr => ptr ≠ e.1
  | .write x _ => ¬ InRange e.1 e.2 x
  | _ => True

/-- The allocation has the same payload bytes and the same sizes in its header. -/
structure Undisturbed (m m' : Mem) (e : Nat × Nat) : Prop where
  bytes : ∀ x, InRange e.1 e.2 x → m' x = m x
  size : field m' (e.1 - HEADER) .size = field m (e.1 - HEADER) .size
  allocBytes : field m' (e.1 - HEADER) .allocBytes = field m (e.1 - HEADER) .allocBytes

/-! ## The session invariant -/

/-- A call that the allocator can handle over the layout `a`. -/
def Session.Served (st : Session) (a : Layout) : Call → Prop
  | .malloc numbytes => a.Servable numbytes
  | .calloc num sz => a.Servable (num * sz) ∨ 2 ^ 64 ≤ num * sz
  | .realloc ptr sz => a.Servable sz ∧ (ptr = NULL ∨ ∃ n, (ptr, n) ∈ st.live)
  | .free ptr => ptr = NULL ∨ ∃ n, (ptr, n) ∈ st.live
  | .defrag => True
  | .heapInfo _ => a.alloc.length < 2 ^ 31
  | .write x _ => ∃ e ∈ st.live, InRange e.1 e.2 x

theorem Rep.countFits_iff {s : Heap} {a : Layout} (h : Rep s a) : CountFits s ↔ a.alloc.length < 2 ^ 31 := by
  have hchain : Chain NULL (field s.mem · .next) s.allocList.head (a.alloc.map Alloc.addr) := by
    rw [h.allocList.head]
    exact h.allocList.segment.chain_next h.allocList.nonnull
  constructor
  · rintro ⟨as, has, hlt⟩
    rwa [has.unique hchain, List.length_map] at hlt
  · intro hlt
    exact ⟨_, hchain, by rwa [List.length_map]⟩

/-- A block takes at least 32 bytes, so a heap that ends below `2 ^ 36` has few enough blocks. -/
theorem Layout.Inv.count_lt {b0 : Nat} {a : Layout} (h : a.Inv b0) (hbrk : a.brk.current < 2 ^ 36) :
    a.alloc.length < 2 ^ 31 := by
  have hlength := h.tiled.length_mul_le fun b hb => (h.block b hb).2.2
  rw [Layout.spans, List.length_append, List.length_map] at hlength
  omega

theorem Session.Legal.served {st : Session} {c : Call} {a : Layout} (h : st.Legal c) (hrep : Rep st.heap a) :
    st.Served a c := by
  cases c with
  | malloc n => exact a.servable_of_lt h
  | calloc num sz => exact Or.imp_left a.servable_of_lt h
  | realloc ptr sz => exact ⟨a.servable_of_lt h.1, h.2⟩
  | free ptr => exact h
  | defrag => trivial
  | heapInfo info => exact hrep.countFits_iff.1 h
  | write x v => exact h

/-- The live allocation of a block. -/
def Alloc.entry (b : Alloc) : Nat × Nat := (b.addr + HEADER, b.bytes)

/-- The heap holds the invariant layout `a`, and the live allocations are different blocks of it. -/
structure Session.Inv (b0 : Nat) (st : Session) (a : Layout) : Prop where
  rep : Rep st.heap a
  inv : a.Inv b0
  live : ∀ e ∈ st.live, ∃ b ∈ a.alloc, e = b.entry
  distinct : (st.live.map Prod.fst).Nodup

/-- In a heap that ends below `2 ^ 36` every proper call is legal. -/
theorem Session.legal_of_proper {b0 : Nat} {st : Session} {a : Layout} {c : Call} (h : st.Inv b0 a)
    (hlt : st.heap.brk.current < 2 ^ 36) (hc : c.Proper st.live) : st.Legal c := by
  rw [h.rep.brk] at hlt
  cases c with
  | heapInfo info => exact h.rep.countFits_iff.2 (h.inv.count_lt hlt)
  | malloc n => exact hc
  | calloc num sz => exact hc
  | realloc ptr sz => exact hc
  | free ptr => exact hc
  | defrag => exact hc
  | write x v => exact hc

section Steps

variable {b0 : Nat} {st : Session} {a : Layout}

theorem handOut_of_returned {n p : Nat} {fresh : List Alloc} (h : Returned n p fresh)
    (live : List (Nat × Nat)) : handOut p n live = fresh.map Alloc.entry ++ live := by
  rcases h with ⟨rfl, rfl⟩ | ⟨c, rfl, rfl, rfl⟩
  · rfl
  · exact if_neg (Nat.succ_ne_zero _)

namespace Session.Inv

theorem init {brk : Break} (h : HeapStart brk) (m : Mem) :
    Session.Inv brk.current (Session.start m brk) ⟨[], [], brk⟩ := by
  constructor
  · exact ⟨listRep_nil m, listRep_nil m, by simp, by simp, by simp, rfl⟩
  · exact Layout.Inv.init (Nat.pos_of_ne_zero h.nonnull) h.aligned h.lt
  · intro e he
    cases he
  · exact List.nodup_nil

/-- A live pointer is the payload of a block. -/
theorem block_of_live (h : st.Inv b0 a) {p n : Nat} (hp : (p, n) ∈ st.live) :
    ∃ b ∈ a.alloc, p = b.addr + HEADER ∧ n = b.bytes := by
  obtain ⟨b, hb, he⟩ := h.live _ hp
  exact ⟨b, hb, congrArg Prod.fst he, congrArg Prod.snd he⟩

theorem giveBack_null (h : st.Inv b0 a) : giveBack NULL st.live = st.live := by
  refine List.filter_eq_self.2 fun e he => ?_
  obtain ⟨b, -, rfl⟩ := h.live e he
  exact decide_eq_true (Nat.succ_ne_zero _)

/-- A live allocation whose block stays keeps its bytes and sizes. -/
theorem undisturbed (h : st.Inv b0 a) {s' : Heap} {a' : Layout} {dead fresh : List Alloc}
    (e : Effect b0 st.heap a s' a' dead fresh) {x : Nat × Nat} (hx : x ∈ st.live)
    (hdead : ∀ b ∈ dead, x.1 ≠ b.addr + HEADER) : Undisturbed st.heap.mem s'.mem x := by
  obtain ⟨b, hb, rfl⟩ := h.live x hx
  have hstay : b ∉ dead := fun hd => hdead b hd rfl
  have hb' := e.mem_alloc hb hstay
  have hfits := (h.inv.fits b hb).1
  have haddr : b.entry.1 - HEADER = b.addr := Nat.add_sub_cancel _ _
  constructor
  · intro y hy
    apply e.frame b hb hstay
    have h1 := hy.1
    have h2 := hy.2
    simp only [Alloc.entry, Alloc.Payload] at h1 h2 ⊢
    omega
  · rw [haddr, e.rep.allocSize b hb', h.rep.allocSize b hb]
  · rw [haddr, e.rep.allocBytes b hb', h.rep.allocBytes b hb]

/-- The invariant after a call that kills the blocks `dead` and hands out the blocks `handed`. -/
theorem of_effect (h : st.Inv b0 a) {s' : Heap} {a' : Layout} {dead fresh handed : List Alloc}
    (e : Effect b0 st.heap a s' a' dead fresh) (hfresh : ∀ c ∈ handed, c ∈ fresh)
    (hmem : ∀ c ∈ handed, c ∈ a'.alloc) (hnodup : handed.Nodup) :
    Session.Inv b0 ⟨s', handed.map Alloc.entry ++
      st.live.filter fun x => ∀ b ∈ dead, x.1 ≠ b.addr + HEADER⟩ a' := by
  have hold : ∀ x ∈ st.live.filter fun x => ∀ b ∈ dead, x.1 ≠ b.addr + HEADER,
      ∃ b ∈ a.alloc, b ∉ dead ∧ b ∈ a'.alloc ∧ x = b.entry := by
    intro x hx
    obtain ⟨hx, hdead⟩ := List.mem_filter.1 hx
    obtain ⟨b, hb, rfl⟩ := h.live x hx
    have hstay : b ∉ dead := fun hd => of_decide_eq_true hdead b hd rfl
    exact ⟨b, hb, hstay, e.mem_alloc hb hstay, rfl⟩
  constructor
  · exact e.rep
  · exact e.inv
  · intro x hx
    rcases List.mem_append.1 hx with hx | hx
    · obtain ⟨c, hc, rfl⟩ := List.mem_map.1 hx
      exact ⟨c, hmem c hc, rfl⟩
    · obtain ⟨b, -, -, hb, rfl⟩ := hold x hx
      exact ⟨b, hb, rfl⟩
  · rw [List.map_append, List.nodup_append]
    refine ⟨?_, h.distinct.sublist (List.filter_sublist.map _), ?_⟩
    · -- two handed blocks with one payload pointer would be one block
      rw [List.map_map]
      refine List.Nodup.map_on (fun c hc d hd hcd => ?_) hnodup
      exact e.inv.eq_of_addr (hmem c hc) (hmem d hd) (Nat.add_right_cancel hcd)
    · intro p hp q hq hpq
      simp only [List.map_map] at hp
      obtain ⟨c, hc, rfl⟩ := List.mem_map.1 hp
      obtain ⟨x, hx, rfl⟩ := List.mem_map.1 hq
      obtain ⟨b, hb, hstay, hb', rfl⟩ := hold x hx
      exact e.fresh_ne hb hstay (hfresh c hc)
        (e.inv.eq_of_addr (hmem c hc) hb' (Nat.add_right_cancel hpq))

/-- What a call `c` from `st` to `st'` must respect: the invariant, and every allocation it spares. -/
structure After (b0 : Nat) (st : Session) (c : Call) (st' : Session) : Prop where
  inv : ∃ a', st'.Inv b0 a'
  kept : ∀ x ∈ st.live, c.Spares x →
    x ∈ st'.live ∧ Undisturbed st.heap.mem st'.heap.mem x

theorem after_of_effect (h : st.Inv b0 a) {c : Call} {st' : Session} {a' : Layout}
    {dead fresh handed : List Alloc} (e : Effect b0 st.heap a st'.heap a' dead fresh)
    (hfresh : ∀ c ∈ handed, c ∈ fresh) (hmem : ∀ c ∈ handed, c ∈ a'.alloc) (hnodup : handed.Nodup)
    (hlive : st'.live = handed.map Alloc.entry ++
      st.live.filter fun x => ∀ b ∈ dead, x.1 ≠ b.addr + HEADER)
    (hspares : ∀ x, c.Spares x → ∀ b ∈ dead, x.1 ≠ b.addr + HEADER) : After b0 st c st' := by
  constructor
  · refine ⟨a', ?_⟩
    have := h.of_effect e hfresh hmem hnodup
    rw [← hlive] at this
    exact this
  · intro x hx hsp
    refine ⟨?_, h.undisturbed e hx (hspares x hsp)⟩
    rw [hlive]
    refine List.mem_append_right _ (List.mem_filter.2 ⟨hx, ?_⟩)
    exact decide_eq_true (hspares x hsp)

/-- What is returned joins the live allocations. -/
theorem of_returned (h : st.Inv b0 a) {s' : Heap} {a' : Layout} {n p : Nat} {fresh : List Alloc}
    (e : Effect b0 st.heap a s' a' [] fresh) (hret : Returned n p fresh) :
    Session.Inv b0 ⟨s', handOut p n st.live⟩ a' := by
  have hnodup : fresh.Nodup := by
    rcases hret with ⟨-, rfl⟩ | ⟨d, rfl, -, -⟩
    · exact List.nodup_nil
    · exact List.nodup_singleton d
  have hinv := h.of_effect e (fun _ hc => hc) e.fresh_mem hnodup
  rw [handOut_of_returned hret]
  simpa using hinv

/-- A call that kills no block and hands out what it allocates. -/
theorem after_of_returned (h : st.Inv b0 a) {c : Call} {s' : Heap} {a' : Layout} {n p : Nat}
    {fresh : List Alloc} (e : Effect b0 st.heap a s' a' [] fresh) (hret : Returned n p fresh) :
    After b0 st c ⟨s', handOut p n st.live⟩ := by
  refine h.after_of_effect e (fun _ hc => hc) e.fresh_mem ?_ ?_ (fun _ _ b hb => ?_)
  · rcases hret with ⟨-, rfl⟩ | ⟨d, rfl, -, -⟩
    · exact List.nodup_nil
    · exact List.nodup_singleton d
  · rw [handOut_of_returned hret]
    simp
  · cases hb

/-- A call that leaves the allocated blocks alone. -/
theorem after_of_same (h : st.Inv b0 a) {c : Call} {s' : Heap} {a' : Layout} {fresh : List Alloc}
    (e : Effect b0 st.heap a s' a' [] fresh) : After b0 st c ⟨s', st.live⟩ := by
  refine h.after_of_effect e (List.forall_mem_nil _) (List.forall_mem_nil _) List.nodup_nil ?_
    (fun _ _ b hb => ?_)
  · simp
  · cases hb

/-- A byte of a live payload is outside all headers, so writing it keeps the layout. -/
theorem write (h : st.Inv b0 a) {x : Nat} (hx : ∃ e ∈ st.live, InRange e.1 e.2 x) (v : UInt8) :
    Session.Inv b0 ⟨{ st.heap with mem := Function.update st.heap.mem x v }, st.live⟩ a ∧
      ∀ p ∈ a.nodes, ∀ y, InRange p 32 y → Function.update st.heap.mem x v y = st.heap.mem y := by
  obtain ⟨y, hy, hxy⟩ := hx
  obtain ⟨b, hb, rfl⟩ := h.live y hy
  have hfits := (h.inv.fits b hb).1
  have hout := h.inv.payload_outside (x := x) (Layout.Inv.mem_alloc hb) hxy.1 (by
    have := hxy.2
    simp only [Alloc.entry, Alloc.span] at this ⊢
    omega)
  have hheader : ∀ p ∈ a.nodes, ∀ y, InRange p 32 y →
      Function.update st.heap.mem x v y = st.heap.mem y := by
    intro p hp y hpy
    apply Function.update_of_ne
    rintro rfl
    exact hout p hp hpy
  exact ⟨⟨h.rep.congr hheader, h.inv, h.live, h.distinct⟩, hheader⟩

/-- Every call that is served ends, keeps the invariant, and respects the allocations it spares. -/
theorem serve (h : st.Inv b0 a) {c : Call} (hlegal : st.Served a c) :
    ∃ st', st.step c = some st' ∧ After b0 st c st' := by
  cases c with
  | malloc n =>
      obtain ⟨s', fresh, hcode, hret, e⟩ := h.rep.malloc_effect h.inv hlegal
      refine ⟨_, ?_, h.after_of_returned e hret⟩
      rw [Session.step, hcode]
      rfl
  | calloc num sz =>
      obtain ⟨s', a', p, fresh, hcode, hret, e, -⟩ := h.rep.calloc_effect h.inv hlegal
      refine ⟨_, ?_, h.after_of_returned e hret⟩
      rw [Session.step, hcode]
      rfl
  | realloc ptr sz =>
      obtain ⟨hsz, rfl | ⟨n, hlive⟩⟩ := hlegal
      · obtain ⟨s', fresh, hcode, hret, e⟩ := h.rep.malloc_effect h.inv hsz
        have hcode' : Malloc.realloc st.heap NULL sz = some (s', (a.malloc sz).2) := by
          rw [Malloc.realloc, if_pos rfl, hcode]
        refine ⟨_, ?_, h.after_of_returned e hret⟩
        rw [Session.step, hcode', Option.map_some, h.giveBack_null]
        split
        · rename_i hnull
          rw [hnull.2]
          rfl
        · rfl
      · obtain ⟨b, hb, rfl, rfl⟩ := h.block_of_live hlive
        obtain ⟨s', a', p, fresh, hcode, hret, hmem, e⟩ := h.rep.realloc_effect h.inv hb hsz
        rw [Session.step, hcode, Option.map_some]
        by_cases hfail : sz ≠ 0 ∧ p = NULL
        · simp only [if_pos hfail] at e ⊢
          exact ⟨_, rfl, h.after_of_same e⟩
        · simp only [if_neg hfail] at e ⊢
          refine ⟨_, rfl, h.after_of_effect e (fun _ hc => hc) hmem ?_ ?_ fun x hsp c hc => ?_⟩
          · rcases hret with ⟨-, rfl⟩ | ⟨d, rfl, -, -⟩
            · exact List.nodup_nil
            · exact List.nodup_singleton d
          · rw [handOut_of_returned hret]
            simp [giveBack]
          · rw [List.mem_singleton.1 hc]
            exact Ne.symm hsp
  | free ptr =>
      rcases hlegal with rfl | ⟨n, hlive⟩
      · have hcode : Malloc.free st.heap NULL = some st.heap := if_pos rfl
        refine ⟨_, ?_, h.after_of_same (Effect.refl h.rep h.inv)⟩
        rw [Session.step, hcode, Option.map_some, h.giveBack_null]
      · obtain ⟨b, hb, rfl, rfl⟩ := h.block_of_live hlive
        obtain ⟨s', hcode, e⟩ := h.rep.free_effect h.inv hb
        rw [Session.step, hcode, Option.map_some]
        refine ⟨_, rfl, h.after_of_effect e (List.forall_mem_nil _) (List.forall_mem_nil _)
          List.nodup_nil ?_ fun x hsp c hc => ?_⟩
        · simp [giveBack]
        · rw [List.mem_singleton.1 hc]
          exact Ne.symm hsp
  | defrag =>
      obtain ⟨s', hcode, e⟩ := h.rep.defrag_effect h.inv
      refine ⟨_, ?_, h.after_of_same e⟩
      rw [Session.step, hcode]
      rfl
  | heapInfo info =>
      obtain ⟨s', a', info', r, fresh, hcode, hret, e⟩ := h.rep.heapInfo_effect h.inv hlegal info
      rw [Session.step, hcode, Option.map_some]
      rcases hret with ⟨rfl, hnum, rfl⟩ | ⟨rfl, -⟩ | ⟨c, d, rfl, hnum, rfl, hsize, hptr, hc, hd⟩
      · rw [if_neg fun h => h.2 hnum]
        exact ⟨_, rfl, h.after_of_same e⟩
      · rw [if_neg fun h => absurd h.1 (by simp)]
        exact ⟨_, rfl, h.after_of_same e⟩
      · rw [if_pos ⟨rfl, Int.ne_of_gt hnum⟩]
        refine ⟨_, rfl, h.after_of_effect e (fun _ hc => hc) e.fresh_mem ?_ ?_ fun _ _ b hb => ?_⟩
        · have hnodup := (e.alloc.nodup_iff).2 e.inv.alloc_nodup
          exact (List.nodup_append.1 hnodup).1
        · show handOut info'.ptrArray _ (handOut info'.sizeArray _ st.live) = _
          rw [handOut_of_returned (Or.inr ⟨c, rfl, hsize, hc⟩),
            handOut_of_returned (Or.inr ⟨d, rfl, hptr, hd⟩)]
          simp
        · cases hb
  | write x v =>
      obtain ⟨hinv, hheader⟩ := h.write hlegal v
      refine ⟨_, rfl, ⟨a, hinv⟩, fun z hz hsp => ?_⟩
      obtain ⟨c, hc, rfl⟩ := h.live z hz
      have haddr : c.entry.1 - HEADER = c.addr := Nat.add_sub_cancel _ _
      have hnode : c.addr ∈ a.nodes := Layout.mem_nodes_alloc (List.mem_map_of_mem hc)
      refine ⟨hz, ⟨fun w hw => Function.update_of_ne ?_ _ _, ?_, ?_⟩⟩
      · rintro rfl
        exact hsp hw
      · rw [haddr]
        exact field_congr _ (hheader _ hnode)
      · rw [haddr]
        exact field_congr _ (hheader _ hnode)

/-- Every legal call ends, keeps the invariant, and respects the allocations it spares. -/
theorem step (h : st.Inv b0 a) {c : Call} (hlegal : st.Legal c) :
    ∃ st', st.step c = some st' ∧ After b0 st c st' :=
  h.serve (hlegal.served h.rep)

end Session.Inv

/-! ## Whole runs -/

/-- Every reachable state has an invariant layout. -/
theorem Reachable.inv {brk : Break} (hbrk : HeapStart brk) {st : Session} (h : Reachable brk st) :
    ∃ a, st.Inv brk.current a := by
  induction h with
  | start m => exact ⟨_, Session.Inv.init hbrk m⟩
  | step _ hlegal hstep ih =>
      obtain ⟨a, ha⟩ := ih
      obtain ⟨st', hstep', hafter⟩ := ha.step hlegal
      obtain rfl : _ = st' := Option.some.inj (hstep.symm.trans hstep')
      exact hafter.inv

/-- A heap that ends below `2 ^ 36` has few enough blocks for `heap_info`. -/
theorem Reachable.countFits {brk : Break} (hbrk : HeapStart brk) {st : Session} (h : Reachable brk st)
    (hlt : st.heap.brk.current < 2 ^ 36) : CountFits st.heap := by
  obtain ⟨a, ha⟩ := h.inv hbrk
  rw [ha.rep.brk] at hlt
  exact ha.rep.countFits_iff.2 (ha.inv.count_lt hlt)

/-- A legal run ends in a reachable state. -/
theorem Reachable.run {brk : Break} (hbrk : HeapStart brk) {st : Session} (h : Reachable brk st)
    (cs : List Call) (hlegal : st.LegalRun cs) :
    ∃ st', st.run cs = some st' ∧ Reachable brk st' := by
  induction cs generalizing st with
  | nil => exact ⟨st, rfl, h⟩
  | cons c cs ih =>
      obtain ⟨hc, hcs⟩ := hlegal
      obtain ⟨a, ha⟩ := h.inv hbrk
      obtain ⟨st', hstep, -⟩ := ha.step hc
      obtain ⟨st'', hrun, hreach⟩ := ih (h.step hc hstep) (hcs st' hstep)
      refine ⟨st'', ?_, hreach⟩
      rw [Session.run, hstep]
      exact hrun

end Steps

end MemoryManagement.Malloc
