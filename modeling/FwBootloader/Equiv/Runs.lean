import FwBootloader.Hid.Main
import FwBootloader.Uart.UpdateThread

/-!
## A host's procedures against a server

`Runs` are the runs of a host's procedures, whatever its monad is: how a procedure ends, which
commands it has sent, and the state of everything around it then.  A property of a loop that all
hosts have is proved for any `Runs` and read off for the serial host (`Uart.runs`) and for the USB
hosts, whose buffers are part of the state (`Hid.runs`).
-/

namespace FwBootloader

open Dialog

/-- The runs of a host's procedures. -/
structure Runs (m : Type → Type) [Monad m] (τ : Type) where
  /-- How the procedure ends, with the state then, and the commands it has sent. -/
  run : m Bool → τ → Except HostFault (Bool × τ) × List Cmd
  run_pure : ∀ b t, run (pure b) t = (.ok (b, t), [])
  run_bind : ∀ {p : m Bool} {t t' : τ} {b : Bool} {cs : List Cmd}, run p t = (.ok (b, t'), cs) →
    ∀ f : Bool → m Bool, run (p >>= f) t = ((run (f b) t').1, cs ++ (run (f b) t').2)
  run_bind_error : ∀ {p : m Bool} {t : τ} {e : HostFault} {cs : List Cmd},
    run p t = (.error e, cs) → ∀ f : Bool → m Bool, run (p >>= f) t = (.error e, cs)

variable {σ : Type}

/-- The serial host's runs against a server. -/
def Uart.runs (srv : σ → Cmd → Option (List UInt8) × σ) : Runs HostM σ where
  run p s := ((result srv p s).map fun b => (b, final srv p s), requests srv p s)
  run_pure _ _ := rfl
  run_bind := by
    intro p s s' b cs h f
    rcases hres : result srv p s with e | a
    · rw [hres] at h
      cases h
    · rw [hres] at h
      cases h
      rw [result_bind hres, requests_bind hres, final_bind hres]
  run_bind_error := by
    intro p s e cs h f
    rcases hres : result srv p s with e' | a
    · rw [hres] at h
      cases h
      obtain ⟨hres', hreq⟩ := bind_of_error hres f
      rw [hres', hreq]
      rfl
    · rw [hres] at h
      cases h

theorem Uart.runs_run (srv : σ → Cmd → Option (List UInt8) × σ) (p : HostM Bool) (s : σ) :
    (runs srv).run p s = ((result srv p s).map fun b => (b, final srv p s), requests srv p s) := rfl

/-- What a run of the serial host says about its dialog. -/
theorem Uart.runs_iff {srv : σ → Cmd → Option (List UInt8) × σ} {p : HostM Bool} {s : σ} {b : Bool}
    {cs : List Cmd} :
    (∃ s', (runs srv).run p s = (.ok (b, s'), cs)) ↔
      result srv p s = .ok b ∧ requests srv p s = cs := by
  rw [runs_run]
  constructor
  · rintro ⟨s', h⟩
    rcases hres : result srv p s with e | a
    · rw [hres] at h
      cases h
    · rw [hres] at h
      cases h
      exact ⟨rfl, rfl⟩
  · rintro ⟨hres, rfl⟩
    rw [hres]
    exact ⟨_, rfl⟩

/-- The USB hosts' runs against a server. -/
def Hid.runs (srv : σ → Cmd → List (List UInt8) × σ) : Runs HidM (State × σ) where
  run q t :=
    ((result srv (q.run t.1) t.2).map fun r => (r.1, (r.2, final srv (q.run t.1) t.2)),
      requests srv (q.run t.1) t.2)
  run_pure _ _ := rfl
  run_bind := by
    rintro q ⟨st, s⟩ t' b cs h f
    dsimp only at h
    rcases hres : result srv (q.run st) s with e | r
    · rw [hres] at h
      cases h
    · rw [hres] at h
      cases h
      rw [StateT.run_bind, result_bind hres, requests_bind hres, final_bind hres]
  run_bind_error := by
    rintro q ⟨st, s⟩ e cs h f
    dsimp only at h
    rcases hres : result srv (q.run st) s with e' | r
    · rw [hres] at h
      cases h
      obtain ⟨hres', hreq⟩ := bind_of_error hres fun r => (f r.1).run r.2
      rw [StateT.run_bind, hres', hreq]
      rfl
    · rw [hres] at h
      cases h

theorem Hid.runs_run (srv : σ → Cmd → List (List UInt8) × σ) (q : HidM Bool) (st : State) (s : σ) :
    (runs srv).run q (st, s)
      = ((result srv (q.run st) s).map fun r => (r.1, (r.2, final srv (q.run st) s)),
        requests srv (q.run st) s) := rfl

/-- What a run of a USB host says about its dialog. -/
theorem Hid.runs_iff {srv : σ → Cmd → List (List UInt8) × σ} {q : HidM Bool} {st : State} {s : σ}
    {b : Bool} {cs : List Cmd} :
    (∃ t', (runs srv).run q (st, s) = (.ok (b, t'), cs)) ↔
      (∃ st', result srv (q.run st) s = .ok (b, st')) ∧ requests srv (q.run st) s = cs := by
  rw [runs_run]
  constructor
  · rintro ⟨t', h⟩
    rcases hres : result srv (q.run st) s with e | ⟨a, st'⟩
    · rw [hres] at h
      cases h
    · rw [hres] at h
      cases h
      exact ⟨⟨st', rfl⟩, rfl⟩
  · rintro ⟨⟨st', hres⟩, rfl⟩
    rw [hres]
    exact ⟨_, rfl⟩

end FwBootloader
