import MemoryManagement.Library.ByteMemory

/-!
# Programs over byte memory

A program is a tree of its accesses: it loads and stores single bytes, asks a service for a word, and goes on
with what it has got. `run` is its meaning on a memory of its own, and `Within` says that it touches only the
addresses that the state of the service allows, and asks for nothing but what may be asked for.

Word accesses and the byte loops of the C library are programs, and their meaning is the operation of
`ByteMemory` on the memory as a whole (`run_loadWord`, `run_storeWord`, `run_fill`, `run_copy`).
-/

set_option autoImplicit false

namespace MemoryManagement.Library.Accesses

open MemoryManagement.Library.ByteMemory

/-- A program with results in `α`. -/
inductive Program (α : Type) where
  | done (a : α)
  -- a loop that has not ended
  | stuck
  | load (x : Nat) (next : UInt8 → Program α)
  | store (x : Nat) (v : UInt8) (next : Program α)
  | ask (n : Nat) (next : Nat → Program α)

section Bind

variable {α β : Type}

/-- First `p`, then `f` with its result. -/
def Program.bind : Program α → (α → Program β) → Program β
  | .done a, f => f a
  | .stuck, _ => .stuck
  | .load x next, f => .load x fun v => (next v).bind f
  | .store x v next, f => .store x v (next.bind f)
  | .ask n next, f => .ask n fun r => (next r).bind f

instance : Monad Program where
  pure := .done
  bind := Program.bind

theorem bind_eq (p : Program α) (f : α → Program β) : p >>= f = p.bind f := rfl

end Bind

/-! ## Meaning -/

section Meaning

variable {α β σ : Type} (serve : σ → Nat → σ × Nat)

/-- The result, the memory and the service at the end; `none` when the program gets stuck. -/
def run : Program α → Mem → σ → Option (α × Mem × σ)
  | .done a, m, t => some (a, m, t)
  | .stuck, _, _ => none
  | .load x next, m, t => run (next (m x)) m t
  | .store x v next, m, t => run next (Function.update m x v) t
  | .ask n next, m, t => run (next (serve t n).2) m (serve t n).1

/-- Each access is allowed when it is made, and so is what the service is asked for. -/
def Within (allowed : σ → Nat → Prop) (asked : Nat → Prop) : Program α → Mem → σ → Prop
  | .done _, _, _ => True
  | .stuck, _, _ => True
  | .load x next, m, t => allowed t x ∧ Within allowed asked (next (m x)) m t
  | .store x v next, m, t => allowed t x ∧ Within allowed asked next (Function.update m x v) t
  | .ask n next, m, t => asked n ∧ Within allowed asked (next (serve t n).2) m (serve t n).1

@[simp] theorem run_pure (a : α) (m : Mem) (t : σ) : run serve (pure a) m t = some (a, m, t) := rfl

theorem run_bind (p : Program α) (f : α → Program β) (m : Mem) (t : σ) :
    run serve (p >>= f) m t = (run serve p m t).bind fun r => run serve (f r.1) r.2.1 r.2.2 := by
  rw [bind_eq]
  induction p generalizing m t with
  | done a => rfl
  | stuck => rfl
  | load x next ih => exact ih (m x) m t
  | store x v next ih => exact ih (Function.update m x v) t
  | ask n next ih => exact ih (serve t n).2 m (serve t n).1

/-- A program whose first part is known to end. -/
theorem run_bind_of_eq {p : Program α} {f : α → Program β} {m m' : Mem} {t t' : σ} {a : α}
    (h : run serve p m t = some (a, m', t')) : run serve (p >>= f) m t = run serve (f a) m' t' := by
  rw [run_bind, h, Option.bind_some]

variable {serve} {allowed : σ → Nat → Prop} {asked : Nat → Prop}

theorem within_bind {p : Program α} {f : α → Program β} {m : Mem} {t : σ}
    (hp : Within serve allowed asked p m t)
    (hf : ∀ r, run serve p m t = some r → Within serve allowed asked (f r.1) r.2.1 r.2.2) :
    Within serve allowed asked (p >>= f) m t := by
  rw [bind_eq]
  induction p generalizing m t with
  | done a => exact hf (a, m, t) rfl
  | stuck => trivial
  | load x next ih => exact ⟨hp.1, ih (m x) hp.2 hf⟩
  | store x v next ih => exact ⟨hp.1, ih hp.2 hf⟩
  | ask n next ih => exact ⟨hp.1, ih (serve t n).2 hp.2 hf⟩

/-- What the whole program touches, its parts touch. -/
theorem within_of_bind {p : Program α} {f : α → Program β} {m : Mem} {t : σ}
    (h : Within serve allowed asked (p >>= f) m t) :
    Within serve allowed asked p m t ∧
      ∀ r, run serve p m t = some r → Within serve allowed asked (f r.1) r.2.1 r.2.2 := by
  rw [bind_eq] at h
  induction p generalizing m t with
  | done a =>
      refine ⟨trivial, fun r hr => ?_⟩
      obtain rfl := Option.some.inj hr
      exact h
  | stuck =>
      refine ⟨trivial, fun r hr => ?_⟩
      cases hr
  | load x next ih => exact ⟨⟨h.1, (ih (m x) h.2).1⟩, (ih (m x) h.2).2⟩
  | store x v next ih => exact ⟨⟨h.1, (ih h.2).1⟩, (ih h.2).2⟩
  | ask n next ih => exact ⟨⟨h.1, (ih (serve t n).2 h.2).1⟩, (ih (serve t n).2 h.2).2⟩

/-- A program whose first part is known to end touches what both parts touch. -/
theorem within_bind_of_eq {p : Program α} {f : α → Program β} {m m' : Mem} {t t' : σ} {a : α}
    (h : run serve p m t = some (a, m', t')) (hp : Within serve allowed asked p m t)
    (hf : Within serve allowed asked (f a) m' t') : Within serve allowed asked (p >>= f) m t := by
  refine within_bind hp fun r hr => ?_
  rw [h] at hr
  obtain rfl := Option.some.inj hr
  exact hf

end Meaning

/-! ## Words and byte loops -/

/-- The little-endian word of `k` bytes at `a`. -/
def loadWord : Nat → Nat → Program Nat
  | _, 0 => pure 0
  | a, k + 1 => .load a fun v => do
      let rest ← loadWord (a + 1) k
      pure (v.toNat + 256 * rest)

/-- Stores the `k` low bytes of `v` at `a`. -/
def storeWord : Nat → Nat → Nat → Program Unit
  | _, 0, _ => pure ()
  | a, k + 1, v => .store a (UInt8.ofNat v) (storeWord (a + 1) k (v / 256))

/-- `memset(v, c, n)`. -/
def fill (c : UInt8) : Nat → Nat → Program Unit
  | _, 0 => pure ()
  | v, n + 1 => .store v c (fill c (v + 1) n)

/-- `memcpy(dst, src, n)`. -/
def copy : Nat → Nat → Nat → Program Unit
  | _, _, 0 => pure ()
  | dst, src, n + 1 => .load src fun v => .store dst v (copy (dst + 1) (src + 1) n)

section Words

variable {σ : Type} (serve : σ → Nat → σ × Nat)

@[simp] theorem run_loadWord (a k : Nat) (m : Mem) (t : σ) :
    run serve (loadWord a k) m t = some (loadLE m a k, m, t) := by
  induction k generalizing a with
  | zero => rfl
  | succ k ih =>
      rw [loadWord, run, run_bind_of_eq serve (ih (a + 1)), run_pure, loadLE]

theorem storeLE_succ (m : Mem) (a k v : Nat) :
    storeLE m a (k + 1) v = storeLE (Function.update m a (UInt8.ofNat v)) (a + 1) k (v / 256) := by
  funext x
  by_cases hx : x = a
  · subst hx
    rw [storeLE_of_inRange ⟨Nat.le_refl x, by omega⟩, storeLE_of_not_inRange (by omega), Function.update_self,
      Nat.sub_self, pow_zero, Nat.div_one]
  · by_cases hin : InRange (a + 1) k x
    · have hdigit : x - a = x - (a + 1) + 1 := by omega
      rw [storeLE_of_inRange hin, storeLE_of_inRange (by omega), hdigit, pow_succ', Nat.div_div_eq_div_mul]
    · rw [storeLE_of_not_inRange hin, storeLE_of_not_inRange (by omega), Function.update_of_ne hx]

@[simp] theorem run_storeWord (a k v : Nat) (m : Mem) (t : σ) :
    run serve (storeWord a k v) m t = some ((), storeLE m a k v, t) := by
  induction k generalizing a v m with
  | zero =>
      have hnone : storeLE m a 0 v = m := by
        funext x
        exact storeLE_of_not_inRange (by omega)
      rw [storeWord, run_pure, hnone]
  | succ k ih => rw [storeWord, run, ih, storeLE_succ]

@[simp] theorem run_fill (c : UInt8) (v n : Nat) (m : Mem) (t : σ) :
    run serve (fill c v n) m t = some ((), memset m v c n, t) := by
  induction n generalizing v m with
  | zero => rfl
  | succ n ih => rw [fill, run, ih, memset]

@[simp] theorem run_copy (dst src n : Nat) (m : Mem) (t : σ) :
    run serve (copy dst src n) m t = some ((), memcpy m dst src n, t) := by
  induction n generalizing dst src m with
  | zero => rfl
  | succ n ih => rw [copy, run, run, ih, memcpy]

variable {serve} {allowed : σ → Nat → Prop} {asked : Nat → Prop} {m : Mem} {t : σ}

theorem within_loadWord {a k : Nat} (h : ∀ x, InRange a k x → allowed t x) :
    Within serve allowed asked (loadWord a k) m t := by
  induction k generalizing a with
  | zero => trivial
  | succ k ih =>
      refine ⟨h a (by omega), within_bind_of_eq (run_loadWord serve ..) (ih fun x hx => h x (by omega)) ?_⟩
      trivial

theorem within_storeWord {a k v : Nat} (h : ∀ x, InRange a k x → allowed t x) :
    Within serve allowed asked (storeWord a k v) m t := by
  induction k generalizing a v m with
  | zero => trivial
  | succ k ih => exact ⟨h a (by omega), ih fun x hx => h x (by omega)⟩

theorem within_fill {c : UInt8} {v n : Nat} (h : ∀ x, InRange v n x → allowed t x) :
    Within serve allowed asked (fill c v n) m t := by
  induction n generalizing v m with
  | zero => trivial
  | succ n ih => exact ⟨h v (by omega), ih fun x hx => h x (by omega)⟩

theorem within_copy {dst src n : Nat} (hdst : ∀ x, InRange dst n x → allowed t x)
    (hsrc : ∀ x, InRange src n x → allowed t x) : Within serve allowed asked (copy dst src n) m t := by
  induction n generalizing dst src m with
  | zero => trivial
  | succ n ih =>
      exact ⟨hsrc src (by omega), hdst dst (by omega), ih (fun x hx => hdst x (by omega)) fun x hx =>
        hsrc x (by omega)⟩

/-- A copy loads each byte of its source. -/
theorem source_of_within_copy {dst src n : Nat} (h : Within serve allowed asked (copy dst src n) m t) :
    ∀ x, InRange src n x → allowed t x := by
  induction n generalizing dst src m with
  | zero => exact fun x hx => absurd hx.2 (Nat.not_lt.2 hx.1)
  | succ n ih =>
      obtain ⟨hload, -, hrest⟩ := h
      intro x hx
      by_cases hfirst : x = src
      · exact hfirst ▸ hload
      · exact ih hrest x (by omega)

end Words

end MemoryManagement.Library.Accesses
