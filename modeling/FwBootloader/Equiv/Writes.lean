import FwBootloader.Equiv.Runs
import Mathlib.Data.List.Forall2

/-!
## The loop of `writeFlash`

Both `writeFlash` functions cut their buffer into pieces and send one write command for each.
`writeLoop` is their loop over the length of the next piece; `Tiles` says that pieces lie one behind
the other.  `writeLoop_tiles`: however the device answers, what has been sent are pieces of the
buffer from its start on, and all of it if the loop returns `true`.  `writeLoop_ends`: it does end.
-/

namespace FwBootloader

/-- The pieces lie one behind the other from the address on, none is empty, and together they are
the bytes. -/
inductive Tiles : UInt32 → List UInt8 → List (UInt32 × List UInt8) → Prop where
  | nil (address : UInt32) : Tiles address [] []
  | cons {address : UInt32} {piece rest : List UInt8} {ps : List (UInt32 × List UInt8)}
      (hpiece : piece ≠ []) (hrest : Tiles (address + UInt32.ofNat piece.length) rest ps) :
      Tiles address (piece ++ rest) ((address, piece) :: ps)

section Loop

variable {m : Type → Type} [Monad m]

/-- The loop of `writeFlash`; `stuck` stands for not leaving it. -/
def writeLoop (stuck : m Bool) (doWriteFlash : List UInt8 → UInt32 → UInt32 → m Bool)
    (writeLen : UInt32 → UInt32) (fuel : ℕ) (buffer : List UInt8) (address len : UInt32) : m Bool :=
  if len = 0 then return true
  else
    match fuel with
    | 0 => stuck
    | fuel + 1 => do
      if ← doWriteFlash buffer address (writeLen len) then
        writeLoop stuck doWriteFlash writeLen fuel (buffer.drop (writeLen len).toNat)
          (address + writeLen len) (len - writeLen len)
      else return false

theorem readBuf_zero_iff {buffer content : List UInt8} {len : UInt32} :
    readBuf buffer 0 len = some content ↔
      len.toNat ≤ buffer.length ∧ content = buffer.take len.toNat := by
  have hzero : (0 : UInt32).toNat = 0 := UInt32.toNat_zero
  rw [readBuf, hzero, Nat.zero_add, List.drop_zero]
  split_ifs with h
  · rw [Option.some_inj, and_iff_right h]
    exact eq_comm
  · exact iff_of_false (fun hnone => by cases hnone) fun hle => h hle.1

/-- The piece that is cut off is neither empty nor longer than what is left. -/
def Cuts (writeLen : UInt32 → UInt32) : Prop :=
  ∀ len, len ≠ 0 → 0 < (writeLen len).toNat ∧ (writeLen len).toNat ≤ len.toNat

theorem Cuts.toNat_sub {writeLen : UInt32 → UInt32} (hcuts : Cuts writeLen) {len : UInt32}
    (h : len ≠ 0) : (len - writeLen len).toNat = len.toNat - (writeLen len).toNat :=
  UInt32.toNat_sub_of_le _ _ (UInt32.le_iff_toNat_le.mpr (hcuts len h).2)

namespace Runs

variable {τ : Type} (T : Runs m τ) {stuck : m Bool}
  {doWriteFlash : List UInt8 → UInt32 → UInt32 → m Bool}

/-- One write sends one command, unless the buffer is too short. -/
structure SendsWrites (doWriteFlash : List UInt8 → UInt32 → UInt32 → m Bool) : Prop where
  short : ∀ buffer address len t, readBuf buffer 0 len = none →
    ∃ e, T.run (doWriteFlash buffer address len) t = (.error e, [])
  sent : ∀ buffer address len content t, readBuf buffer 0 len = some content →
    ∃ r, T.run (doWriteFlash buffer address len) t = (r, [.write address len content])

variable {T}

/-- **What has been sent are pieces of the buffer**, one behind the other, and all of it if the loop
returns `true`. -/
theorem writeLoop_tiles (hdo : T.SendsWrites doWriteFlash)
    (hstuck : ∀ t, ∃ e, T.run stuck t = (.error e, [])) {writeLen : UInt32 → UInt32}
    (hcuts : Cuts writeLen) (fuel : ℕ) (buffer : List UInt8) (address len : UInt32) {most : ℕ}
    (hmost : ∀ l, l.toNat ≤ len.toNat → (writeLen l).toNat ≤ most)
    (Received : Cmd → UInt32 × List UInt8 → Prop)
    (hreceived : ∀ address len content, content.length = len.toNat → 0 < len.toNat →
      len.toNat ≤ most → Received (.write address len content) (address, content)) (t : τ) :
    ∃ ps k, k ≤ len.toNat ∧ k ≤ buffer.length ∧ Tiles address (buffer.take k) ps ∧
      List.Forall₂ Received
        (T.run (writeLoop stuck doWriteFlash writeLen fuel buffer address len) t).2 ps ∧
      ∀ t', (T.run (writeLoop stuck doWriteFlash writeLen fuel buffer address len) t).1
        = .ok (true, t') → k = len.toNat := by
  -- over the turns: what the first one sends, in front of what the others send
  induction fuel generalizing buffer address len t with
  | zero =>
    unfold writeLoop
    by_cases h0 : len = 0
    · rw [if_pos h0, T.run_pure, h0]
      exact ⟨[], 0, le_rfl, Nat.zero_le _, Tiles.nil address, List.Forall₂.nil, fun _ _ => rfl⟩
    · obtain ⟨e, he⟩ := hstuck t
      rw [if_neg h0, he]
      exact ⟨[], 0, Nat.zero_le _, Nat.zero_le _, Tiles.nil address, List.Forall₂.nil,
        fun _ h => by cases h⟩
  | succ fuel ih =>
    rw [writeLoop]
    by_cases h0 : len = 0
    · rw [if_pos h0, T.run_pure, h0]
      exact ⟨[], 0, le_rfl, Nat.zero_le _, Tiles.nil address, List.Forall₂.nil, fun _ _ => rfl⟩
    rw [if_neg h0]
    obtain ⟨hpos, hle⟩ := hcuts len h0
    set n := writeLen len with hn
    rcases hbuf : readBuf buffer 0 n with _ | content
    · -- the buffer is too short for the next piece
      obtain ⟨e, he⟩ := hdo.short buffer address n t hbuf
      rw [T.run_bind_error he]
      exact ⟨[], 0, Nat.zero_le _, Nat.zero_le _, Tiles.nil address, List.Forall₂.nil,
        fun _ h => by cases h⟩
    obtain ⟨hlong, hcontent⟩ := readBuf_zero_iff.mp hbuf
    have hlen : content.length = n.toNat := by
      rw [hcontent, List.length_take, Nat.min_eq_left hlong]
    have hne : content ≠ [] := List.length_pos_iff.mp (by omega)
    have hsent : Received (.write address n content) (address, content) :=
      hreceived address n content hlen hpos (hmost len le_rfl)
    have hone : Tiles address (buffer.take n.toNat) [(address, content)] := by
      have h := Tiles.cons hne (Tiles.nil (address + UInt32.ofNat content.length))
      rw [List.append_nil] at h
      rwa [← hcontent]
    -- the write fails, is refused, or succeeds; only then the loop goes on
    obtain ⟨r, hr⟩ := hdo.sent buffer address n content t hbuf
    rcases r with e | ⟨_ | _, t'⟩
    · rw [T.run_bind_error hr]
      exact ⟨_, n.toNat, hle, hlong, hone, List.Forall₂.cons hsent List.Forall₂.nil,
        fun _ h => by cases h⟩
    · rw [T.run_bind hr, if_neg Bool.false_ne_true, T.run_pure]
      exact ⟨_, n.toNat, hle, hlong, hone, List.Forall₂.cons hsent List.Forall₂.nil,
        fun _ h => by cases h⟩
    · rw [T.run_bind hr, if_pos rfl]
      have hsub := hcuts.toNat_sub h0
      rw [← hn] at hsub
      obtain ⟨ps, k, hk, hk', htiles, hrec, htrue⟩ := ih (buffer.drop n.toNat) (address + n)
        (len - n) (fun l hl => hmost l (by omega)) t'
      rw [List.length_drop] at hk'
      refine ⟨(address, content) :: ps, n.toNat + k, by omega, by omega, ?_,
        List.Forall₂.cons hsent hrec, fun t'' ht => ?_⟩
      · rw [List.take_add, ← hcontent]
        refine Tiles.cons hne ?_
        rw [hlen, UInt32.ofNat_toNat]
        exact htiles
      · have hrest := htrue t'' ht
        omega

/-- **The loop ends**, with what its writes give, if the buffer is long enough. -/
theorem writeLoop_ends {P : Bool → Prop} (hP : P true)
    (hdo : ∀ buffer address len content t, readBuf buffer 0 len = some content →
      ∃ b t', (T.run (doWriteFlash buffer address len) t).1 = .ok (b, t') ∧ P b)
    {writeLen : UInt32 → UInt32} (hcuts : Cuts writeLen) {fuel : ℕ} {buffer : List UInt8}
    {address len : UInt32} (hfuel : len.toNat ≤ fuel) (hbuffer : len.toNat ≤ buffer.length)
    (t : τ) :
    ∃ b t', (T.run (writeLoop stuck doWriteFlash writeLen fuel buffer address len) t).1
      = .ok (b, t') ∧ P b := by
  induction fuel generalizing buffer address len t with
  | zero =>
    obtain rfl : len = 0 := UInt32.toNat_inj.mp (Nat.le_zero.mp hfuel)
    unfold writeLoop
    rw [if_pos rfl, T.run_pure]
    exact ⟨true, t, rfl, hP⟩
  | succ fuel ih =>
    rw [writeLoop]
    by_cases h0 : len = 0
    · rw [if_pos h0, T.run_pure]
      exact ⟨true, t, rfl, hP⟩
    rw [if_neg h0]
    obtain ⟨hpos, hle⟩ := hcuts len h0
    -- every turn takes at least one byte away
    have hsub := hcuts.toNat_sub h0
    set n := writeLen len
    obtain ⟨b, t', hres, hb⟩ := hdo buffer address n _ t (readBuf_zero_iff.mpr ⟨by omega, rfl⟩)
    rcases hrun : T.run (doWriteFlash buffer address n) t with ⟨r, cs⟩
    rw [hrun] at hres
    obtain rfl : r = .ok (b, t') := hres
    rw [T.run_bind hrun]
    cases b with
    | false =>
      rw [if_neg Bool.false_ne_true, T.run_pure]
      exact ⟨false, t', rfl, hb⟩
    | true =>
      rw [if_pos rfl]
      exact ih (by omega) (by rw [List.length_drop]; omega) t'

end Runs

end Loop

end FwBootloader
