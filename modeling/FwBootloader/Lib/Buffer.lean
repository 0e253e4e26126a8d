import FwBootloader.Lib.Bytes

/-!
## Code on a buffer, byte by byte

A `BufM` procedure reads and writes single bytes of a `Mem` and leaves a record of their indices.
`Ends n p m a m'` says that from the memory `m` on it touches indices below `n` only, and ends with
`a` and the memory `m'`; `Ends.bind` composes it.
-/

namespace Bytes

/-- A memory, and the indices that have been read or written so far. -/
structure Buffer where
  mem : Mem
  touched : List ℕ

/-- A procedure on a buffer. -/
abbrev BufM : Type → Type := StateM Buffer

namespace BufM

/-- Read one byte. -/
def read (i : ℕ) : BufM UInt8 :=
  fun s => (s.mem i, ⟨s.mem, s.touched ++ [i]⟩)

/-- Write one byte. -/
def write (i : ℕ) (b : UInt8) : BufM Unit :=
  fun s => ((), ⟨s.mem.write i [b], s.touched ++ [i]⟩)

/-- Read the `n` bytes from `i` on, one after the other. -/
def readBytes (i : ℕ) : ℕ → BufM (List UInt8)
  | 0 => return []
  | n + 1 => do
    let b ← read i
    let l ← readBytes (i + 1) n
    return b :: l

/-- Read a 16-bit word, low byte first. -/
def read16 (i : ℕ) : BufM UInt16 := do
  let lo ← read i
  let hi ← read (i + 1)
  return ofLe16 lo hi

variable {α β : Type} {n : ℕ}

/-- From the memory `m` on the procedure touches indices below `n` only, and ends with `a` and the
memory `m'`. -/
def Ends (n : ℕ) (p : BufM α) (m : Mem) (a : α) (m' : Mem) : Prop :=
  ∀ t, ∃ t', p.run ⟨m, t⟩ = (a, ⟨m', t ++ t'⟩) ∧ ∀ i ∈ t', i < n

theorem Ends.pure (a : α) (m : Mem) : Ends n (Pure.pure a) m a m :=
  fun t => ⟨[], by rw [List.append_nil]; rfl, fun _ hi => absurd hi List.not_mem_nil⟩

/-- The rule of sequence. -/
theorem Ends.bind {p : BufM α} {f : α → BufM β} {m m' m'' : Mem} {a : α} {b : β}
    (hp : Ends n p m a m') (hf : Ends n (f a) m' b m'') : Ends n (p >>= f) m b m'' := by
  intro t
  obtain ⟨t', hrun, hlt⟩ := hp t
  obtain ⟨t'', hrun', hlt'⟩ := hf (t ++ t')
  refine ⟨t' ++ t'', ?_, List.forall_mem_append.mpr ⟨hlt, hlt'⟩⟩
  rw [StateT.run_bind, hrun, ← List.append_assoc]
  exact hrun'

theorem ends_read {i : ℕ} (hi : i < n) (m : Mem) : Ends n (read i) m (m i) m :=
  fun _ => ⟨[i], rfl, List.forall_mem_singleton.mpr hi⟩

theorem ends_write {i : ℕ} (hi : i < n) (b : UInt8) (m : Mem) :
    Ends n (write i b) m () (m.write i [b]) :=
  fun _ => ⟨[i], rfl, List.forall_mem_singleton.mpr hi⟩

theorem ends_readBytes {i k : ℕ} (hi : i + k ≤ n) (m : Mem) :
    Ends n (readBytes i k) m (m.bytes i k) m := by
  induction k generalizing i with
  | zero => exact Ends.pure _ m
  | succ k ih =>
    rw [Mem.bytes_succ]
    exact (ends_read (by omega) m).bind ((ih (by omega)).bind (Ends.pure _ m))

theorem ends_read16 {i : ℕ} (hi : i + 2 ≤ n) (m : Mem) :
    Ends n (read16 i) m (ofLe16 (m i) (m (i + 1))) m :=
  (ends_read (by omega) m).bind ((ends_read (by omega) m).bind (Ends.pure _ m))

end BufM

end Bytes
