import MemoryManagement.Malloc.InHeap
import MemoryManagement.Malloc.Requests

/-!
# Calls as programs

Each call of a session is a program that starts with the globals and the live allocations and ends with new ones
(`call`). It does what the call does to the session (`run_call`), and when the call is legal it stays inside the heap
(`stays_call`).
-/

set_option autoImplicit false

namespace MemoryManagement.Malloc.Code

open MemoryManagement.Library.ByteMemory
open MemoryManagement.Library.Accesses

/-- The program of a call. -/
def call (g : Globals) (live : List (Nat × Nat)) : Call → Program (Globals × List (Nat × Nat))
  | .malloc numbytes => do
      let r ← malloc g numbytes
      pure (r.1, handOut r.2 numbytes live)
  | .calloc num sz => do
      let r ← calloc g num sz
      pure (r.1, handOut r.2 (num * sz) live)
  | .realloc ptr sz => do
      let r ← realloc g ptr sz
      pure (r.1, if sz ≠ 0 ∧ r.2 = NULL then live else handOut r.2 sz (giveBack ptr live))
  | .free ptr => do
      let g ← free g ptr
      pure (g, giveBack ptr live)
  | .defrag => do
      let g ← defrag g
      pure (g, live)
  | .heapInfo info => do
      let r ← heapInfo g info
      pure (r.1, if r.2.2 = 0 ∧ r.2.1.numAllocs ≠ 0 then
        handOut r.2.1.ptrArray (8 * r.2.1.numAllocs.toNat)
          (handOut r.2.1.sizeArray (8 * r.2.1.numAllocs.toNat) live)
      else live)
  | .write x v => .store x v (pure (g, live))

/-- The session as what is left of a run. -/
def afterCall (st : Session) : (Globals × List (Nat × Nat)) × Mem × Break :=
  ((globals st.heap, st.live), st.heap.mem, st.heap.brk)

/-- The program of a call does what the call does. -/
theorem run_call (st : Session) (c : Call) :
    run sbrk (call (globals st.heap) st.live c) st.heap.mem st.heap.brk = (st.step c).map afterCall := by
  cases c with
  | malloc n =>
      rw [call, run_afterWith (run_malloc st.heap n), Session.step]
      cases Malloc.malloc st.heap n with
      | none => rfl
      | some r => rfl
  | calloc num sz =>
      rw [call, run_afterWith (run_calloc st.heap num sz), Session.step]
      cases Malloc.calloc st.heap num sz with
      | none => rfl
      | some r => rfl
  | realloc ptr sz =>
      rw [call, run_afterWith (run_realloc st.heap ptr sz), Session.step]
      cases Malloc.realloc st.heap ptr sz with
      | none => rfl
      | some r =>
          simp only [Option.bind_some, Option.map_some, run_pure]
          split
          · rfl
          · rfl
  | free ptr =>
      rw [call, run_after (run_free st.heap ptr), Session.step]
      cases Malloc.free st.heap ptr with
      | none => rfl
      | some s => rfl
  | defrag =>
      rw [call, run_after (run_defrag st.heap), Session.step]
      cases Malloc.defrag st.heap with
      | none => rfl
      | some s => rfl
  | heapInfo info =>
      rw [call, run_afterWith (run_heapInfo st.heap info), Session.step]
      cases Malloc.heapInfo st.heap info with
      | none => rfl
      | some r =>
          simp only [Option.bind_some, Option.map_some, run_pure]
          split
          · rfl
          · rfl
  | write x v => rfl

/-! ## Where the calls stay -/

/-- If the call is a `realloc`, it gets no block, or what it copies ends before the break as it is then. -/
def CopyEnds (st : Session) : Call → Prop
  | .realloc ptr sz => ptr = NULL ∨ ∀ r, Malloc.malloc st.heap sz = some r →
      r.2 = NULL ∨ ptr + min (field st.heap.mem (ptr - HEADER) .size) sz ≤ r.1.brk.current
  | _ => True

/-- If the call is a `realloc`, what it copies ends before the break. -/
def CopyFits (m : Mem) (brk : Nat) : Call → Prop
  | .realloc ptr sz => ptr = NULL ∨ ptr + min (field m (ptr - HEADER) .size) sz ≤ brk
  | _ => True

section Stays

variable {st : Session} {s : Heap} {a : Layout} {lo : Nat} {c : Call}

/-- What `realloc` copies, and the break then, on the layout. -/
theorem copyEnds_iff (h : Rep s a) (hinv : a.Inv lo) {b : Alloc} (hb : b ∈ a.alloc) {sz : Nat} (hsz : sz < 2 ^ 62)
    (live : List (Nat × Nat)) : CopyEnds ⟨s, live⟩ (.realloc (b.addr + HEADER) sz) ↔
      b.addr + HEADER + min b.size sz ≤ (a.malloc sz).1.brk.current ∨ (a.malloc sz).2 = NULL := by
  obtain ⟨s', fresh, hcode, -, e⟩ := h.malloc_effect hinv (a.servable_of_lt hsz)
  have hne : b.addr + HEADER ≠ NULL := Nat.succ_ne_zero _
  rw [CopyEnds, or_iff_right hne, hcode, Nat.add_sub_cancel, h.allocSize b hb, or_comm, ← e.rep.brk]
  exact ⟨fun hends => hends _ rfl, fun hends r hr => Option.some.inj hr ▸ hends⟩

/-- The break does not move down. -/
theorem CopyFits.ends (h : st.Inv lo a) (hlegal : st.Legal c) (hcopy : CopyFits st.heap.mem st.heap.brk.current c) :
    CopyEnds st c := by
  cases c with
  | realloc ptr sz =>
      obtain ⟨hsz, hptr⟩ := hlegal
      rcases hcopy with hnull | hcopy
      · exact Or.inl hnull
      refine Or.inr fun r hr => Or.inr (Nat.le_trans hcopy ?_)
      have hok : RequestOk st.heap sz := Or.inr (Or.inl ⟨by omega, Or.inr (by omega)⟩)
      obtain ⟨r', hr', hsafe⟩ := (h.rep.malloc_safe_iff h.inv (by omega)).2 hok
      rw [hr] at hr'
      obtain rfl := Option.some.inj hr'
      exact hsafe.break_le
  | malloc _ => trivial
  | calloc _ _ => trivial
  | free _ => trivial
  | defrag => trivial
  | heapInfo _ => trivial
  | write _ _ => trivial

theorem stays_call (h : st.Inv lo a) (hlegal : st.Legal c) (hcopy : CopyEnds st c) :
    Stays lo (call (globals st.heap) st.live c) st.heap.mem st.heap.brk := by
  cases c with
  | malloc n => exact within_bind (stays_malloc h.rep h.inv hlegal) fun _ _ => trivial
  | calloc num sz => exact within_bind (stays_calloc h.rep h.inv hlegal) fun _ _ => trivial
  | realloc ptr sz =>
      refine within_bind ?_ fun _ _ => trivial
      obtain ⟨hsz, rfl | ⟨n, hlive⟩⟩ := hlegal
      · rw [realloc, if_pos rfl]
        exact stays_malloc h.rep h.inv hsz
      · obtain ⟨b, hb, rfl, rfl⟩ := h.block_of_live hlive
        exact stays_realloc h.rep h.inv hb hsz ((copyEnds_iff h.rep h.inv hb hsz st.live).1 hcopy)
  | free ptr =>
      refine within_bind ?_ fun _ _ => trivial
      rcases hlegal with rfl | ⟨n, hlive⟩
      · rw [free, if_pos rfl]
        trivial
      · obtain ⟨b, hb, rfl, rfl⟩ := h.block_of_live hlive
        exact stays_free h.rep h.inv hb
  | defrag => exact within_bind (stays_defrag h.rep h.inv) fun _ _ => trivial
  | heapInfo info =>
      exact within_bind (stays_heapInfo h.rep h.inv (h.rep.countFits_iff.1 hlegal) info) fun _ _ => trivial
  | write x v =>
      refine ⟨?_, trivial⟩
      obtain ⟨y, hy, hx⟩ := hlegal
      obtain ⟨b, hb, rfl⟩ := h.live y hy
      have hfits := (h.inv.fits b hb).1
      have hbounds := h.inv.tiled.bounds (Layout.Inv.mem_alloc hb)
      simp only [Alloc.span, Alloc.entry] at hbounds hx
      rw [h.rep.brk]
      exact ⟨by omega, by omega⟩

/-- A `realloc` that stays in the heap copies nothing behind the break. -/
theorem copyEnds_of_stays (h : Rep s a) (hinv : a.Inv lo) {b : Alloc} (hb : b ∈ a.alloc) {sz : Nat} (hsz : sz < 2 ^ 62)
    (hstays : Stays lo (realloc (globals s) (b.addr + HEADER) sz) s.mem s.brk) :
    b.addr + HEADER + min b.size sz ≤ (a.malloc sz).1.brk.current ∨ (a.malloc sz).2 = NULL := by
  have hne : b.addr + HEADER ≠ NULL := Nat.succ_ne_zero _
  rw [realloc, if_neg hne] at hstays
  by_cases hzero : sz = 0
  · rw [hzero, Layout.malloc, if_pos rfl]
    exact Or.inr rfl
  rw [if_neg hzero] at hstays
  obtain ⟨s₁, fresh, hcode, hret, e⟩ := h.malloc_effect hinv (a.servable_of_lt hsz)
  have hmalloc := run_malloc s sz
  rw [hcode] at hmalloc
  have hrest := (within_of_bind hstays).2 _ hmalloc
  by_cases hp : (a.malloc sz).2 = NULL
  · exact Or.inr hp
  have hrest := (congrArg (Stays lo · s₁.mem s₁.brk) (if_neg hp)).mp hrest
  have hstay := e.mem_alloc hb List.not_mem_nil
  have hlow := e.inv.tiled.bounds (Layout.Inv.mem_alloc hstay)
  have hblock := (e.inv.block b.span (Layout.Inv.mem_alloc hstay)).2.2
  have hbounds := e.inv.bounds (Layout.Inv.mem_alloc hstay)
  simp only [Alloc.span] at hbounds hlow hblock
  have hentire : sub64 (b.addr + HEADER) HEADER = b.addr := by
    rw [sub64_of_le (by omega) (by simp only [HEADER]; omega), Nat.add_sub_cancel]
  rw [hentire] at hrest
  have hcopy := (within_of_bind hrest).2 _ (run_get s₁.mem s₁.brk b.addr .size)
  rw [e.rep.allocSize b hstay] at hcopy
  obtain ⟨n, hn⟩ : ∃ n, n = if b.size < sz then b.size else sz := ⟨_, rfl⟩
  have hnmin : n = min b.size sz := by
    rw [hn]
    split <;> omega
  rw [← hn] at hcopy
  have hsource := source_of_within_copy (within_of_bind hcopy).1
  refine Or.inl ?_
  rw [← hnmin, ← e.rep.brk]
  -- the last byte that is copied lies in the heap
  by_cases hn0 : n = 0
  · rw [hn0, e.rep.brk]
    simp only [HEADER]
    omega
  · have hlast : b.addr + HEADER + (n - 1) < s₁.brk.current :=
      (hsource (b.addr + HEADER + (n - 1)) ⟨Nat.le_add_right .., by omega⟩).2
    omega

end Stays

/-- Each legal call is a program that does what the call does, and all that it loads and stores in the heap lies between
its start and the break at that time, exactly when it is no `realloc` that copies beyond the break. The globals of the
allocator and the struct that `heap_info` fills in are no part of the heap: they are not among the accesses. -/
theorem calls_stay_iff {brk : Break} (hbrk : HeapStart brk) {st : Session} (h : Reachable brk st) {c : Call}
    (hlegal : st.Legal c) :
    (∃ st', st.step c = some st' ∧
      run sbrk (call (globals st.heap) st.live c) st.heap.mem st.heap.brk = some (afterCall st')) ∧
    (Stays brk.current (call (globals st.heap) st.live c) st.heap.mem st.heap.brk ↔ CopyEnds st c) := by
  obtain ⟨a, hinv⟩ := h.inv hbrk
  obtain ⟨st', hstep, -⟩ := hinv.step hlegal
  refine ⟨⟨st', hstep, ?_⟩, fun hstays => ?_, stays_call hinv hlegal⟩
  · rw [run_call, hstep]
    rfl
  · cases c with
    | realloc ptr sz =>
        obtain ⟨hsz, rfl | ⟨n, hlive⟩⟩ := hlegal
        · exact Or.inl rfl
        · obtain ⟨b, hb, rfl, rfl⟩ := hinv.block_of_live hlive
          exact (copyEnds_iff hinv.rep hinv.inv hb hsz st.live).2
            (copyEnds_of_stays hinv.rep hinv.inv hb hsz (within_of_bind hstays).1)
    | malloc _ => trivial
    | calloc _ _ => trivial
    | free _ => trivial
    | defrag => trivial
    | heapInfo _ => trivial
    | write _ _ => trivial

/-- A large block has been freed, and the last block of the heap takes up its whole chunk. A `realloc` of it to 24 bytes
copies 24 bytes; one to 17000 bytes moves it into the free block and copies the size with the header, 32 bytes beyond
the break. -/
theorem calls_stay_iff_first :
    ∃ st, (Session.start (fun _ => 0) ⟨0x103000, fun _ => true, []⟩).run
        [.malloc 40000, .malloc 16352, .free 0x103020] = some st ∧
      Stays 0x103000 (call (globals st.heap) st.live (.realloc 0x10F020 24)) st.heap.mem st.heap.brk ∧
      ¬ Stays 0x103000 (call (globals st.heap) st.live (.realloc 0x10F020 17000)) st.heap.mem st.heap.brk := by
  obtain ⟨start, hstart⟩ : ∃ start, start = Session.start (fun _ => 0) ⟨0x103000, fun _ => true, []⟩ := ⟨_, rfl⟩
  have hbrk : HeapStart ⟨0x103000, fun _ => true, []⟩ := ⟨by decide, by decide, by decide⟩
  have hlive : (start.run [.malloc 40000, .malloc 16352]).map (·.live) =
      some [(0x10F020, 16352), (0x103020, 40000)] := by
    rw [hstart]
    decide +kernel
  have hview : (start.run [.malloc 40000, .malloc 16352, .free 0x103020]).map (fun st =>
      (st.live, st.heap.brk.current, field st.heap.mem 0x10F000 .size,
        (Malloc.malloc st.heap 17000).map fun r => (r.2, r.1.brk.current))) =
      some ([(0x10F020, 16352)], 0x113000, 16384, some (0x103020, 0x113000)) := by
    rw [hstart]
    decide +kernel
  have hreach₀ : Reachable ⟨0x103000, fun _ => true, []⟩ start := hstart ▸ Reachable.start _
  obtain ⟨st, hrun, hreach⟩ := hreach₀.run hbrk [.malloc 40000, .malloc 16352, .free 0x103020]
    ⟨(by decide : 40000 < 2 ^ 62), fun st₁ hstep₁ => ⟨(by decide : 16352 < 2 ^ 62), fun st₂ hstep₂ =>
      ⟨Or.inr ⟨40000, by
        simp only [Session.run, hstep₁, hstep₂, Option.map_some, Option.some.injEq] at hlive
        simp [hlive]⟩, fun _ _ => trivial⟩⟩⟩
  rw [hrun, Option.map_some, Option.some.injEq] at hview
  simp only [Prod.mk.injEq] at hview
  obtain ⟨hlast, hcurrent, hsize, hmalloc⟩ := hview
  have hlegal : ∀ sz, sz < 2 ^ 62 → st.Legal (.realloc 0x10F020 sz) := fun sz hsz =>
    ⟨hsz, Or.inr ⟨16352, by simp [hlast]⟩⟩
  obtain ⟨a, hinv⟩ := hreach.inv hbrk
  rw [hstart] at hrun
  refine ⟨st, hrun, (calls_stay_iff hbrk hreach (hlegal 24 (by decide))).2.2 ?_, fun hstays => ?_⟩
  · refine CopyFits.ends hinv (hlegal 24 (by decide)) (Or.inr ?_)
    rw [show 0x10F020 - HEADER = 0x10F000 from rfl, hsize, hcurrent]
    decide
  · rcases (calls_stay_iff hbrk hreach (hlegal 17000 (by decide))).2.1 hstays with hnull | hends
    · exact absurd hnull (by decide)
    obtain ⟨r, hr, hpair⟩ := Option.map_eq_some_iff.1 hmalloc
    rw [Prod.mk.injEq] at hpair
    rcases hends r hr with hnull | hend
    · rw [hpair.1] at hnull
      exact absurd hnull (by decide)
    · rw [show 0x10F020 - HEADER = 0x10F000 from rfl, hsize, hpair.2] at hend
      exact absurd hend (by decide)

end MemoryManagement.Malloc.Code
