import FwBootloader.Lib.Bytes

/-!
## Frames on a byte stream: marker, length, payload, checksum

A `Format` fixes two marker bytes and a 16-bit checksum.  A frame is the marker, the payload's
length as a little-endian word, the payload, and the checksum of all of these, low byte first
(`Format.encode`).

`Format.scan` is the reference reading of a whole stream: the payloads a left-to-right scanner
delivers.  `scan_encode_append` and `scan_flatMap_encode` are the round trip.  The rules
`scan_of_short`, `scan_of_unmarked`, `scan_of_partial`, `scan_of_intact` and `scan_of_broken` say
what it does at one position; an incremental parser is compared with it one of its steps at a
time, with any bytes still to come behind what it holds.  `scan_noise` says what becomes of a frame
behind bytes in which no frame begins.
-/

namespace Framing

open Bytes

/-- What a frame format fixes; the marker's bytes differ, so that two markers never overlap. -/
structure Format where
  m0 : UInt8
  m1 : UInt8
  crc : List UInt8 → UInt16
  markers_ne : m0 ≠ m1

namespace Format

variable (f : Format)

/-- Marker and length field. -/
def header (len : ℕ) : List UInt8 :=
  f.m0 :: f.m1 :: le16 (UInt16.ofNat len)

/-- The frame of a payload. -/
def encode (payload : List UInt8) : List UInt8 :=
  f.header payload.length ++ payload ++ le16 (f.crc (f.header payload.length ++ payload))

/-- The first two bytes are the marker. -/
def Marked (s : List UInt8) : Prop :=
  s.getD 0 0 = f.m0 ∧ s.getD 1 0 = f.m1

instance (s : List UInt8) : Decidable (f.Marked s) := inferInstanceAs (Decidable (_ ∧ _))

/-- The length field of what starts as a frame. -/
def declared (s : List UInt8) : ℕ :=
  (ofLe16 (s.getD 2 0) (s.getD 3 0)).toNat

/-- The checksum field of what starts as a frame is that of the bytes before it. -/
def Intact (s : List UInt8) : Prop :=
  ofLe16 (s.getD (4 + declared s) 0) (s.getD (5 + declared s) 0) = f.crc (s.take (4 + declared s))

instance (s : List UInt8) : Decidable (f.Intact s) := inferInstanceAs (Decidable (_ = _))

/-- The payloads of a stream, read from left to right: at most six bytes are no frame, a byte that
does not start a marker is passed over, an incomplete frame ends the reading, an intact one is
delivered and a broken one is passed over by its marker. -/
def scan (s : List UInt8) : List (List UInt8) :=
  if s.length ≤ 6 then []
  else if f.Marked s then
    if s.length < 6 + declared s then []
    else if f.Intact s then (s.drop 4).take (declared s) :: scan (s.drop (6 + declared s))
    else scan (s.drop 2)
  else scan (s.drop 1)
termination_by s.length
decreasing_by all_goals simp only [List.length_drop]; omega

/-! ### One position -/

theorem scan_of_short {s : List UInt8} (h : s.length ≤ 6) : f.scan s = [] := by
  rw [scan, if_pos h]

theorem scan_nil : f.scan [] = [] :=
  f.scan_of_short (Nat.zero_le 6)

theorem scan_of_partial {s : List UInt8} (hm : f.Marked s) (h : s.length < 6 + declared s) :
    f.scan s = [] := by
  rw [scan]
  by_cases hs : s.length ≤ 6
  · rw [if_pos hs]
  · rw [if_neg hs, if_pos hm, if_pos h]

/-- A byte that starts no marker is passed over, whether or not six bytes follow it. -/
theorem scan_of_unmarked {s : List UInt8} (h : ¬ f.Marked s) : f.scan s = f.scan (s.drop 1) := by
  rw [scan]
  by_cases hs : s.length ≤ 6
  · rw [if_pos hs, scan_of_short]
    rw [List.length_drop]
    omega
  · rw [if_neg hs, if_neg h]

theorem scan_of_intact {s : List UInt8} (hs : 6 < s.length) (hm : f.Marked s)
    (hl : 6 + declared s ≤ s.length) (hi : f.Intact s) :
    f.scan s = (s.drop 4).take (declared s) :: f.scan (s.drop (6 + declared s)) := by
  rw [scan, if_neg (by omega), if_pos hm, if_neg (by omega), if_pos hi]

theorem scan_of_broken {s : List UInt8} (hs : 6 < s.length) (hm : f.Marked s)
    (hl : 6 + declared s ≤ s.length) (hi : ¬ f.Intact s) :
    f.scan s = f.scan (s.drop 2) := by
  rw [scan, if_neg (by omega), if_pos hm, if_neg (by omega), if_neg hi]

/-- Bytes that start no marker are passed over. -/
theorem scan_drop_of_unmarked {s : List UInt8} {n : ℕ} (h : ∀ k < n, ¬ f.Marked (s.drop k)) :
    f.scan s = f.scan (s.drop n) := by
  induction n with
  | zero => rw [List.drop_zero]
  | succ n ih =>
    rw [ih fun k hk => h k (Nat.lt_succ_of_lt hk), f.scan_of_unmarked (h n (Nat.lt_succ_self n)),
      List.drop_drop]

/-- What is delivered was in the stream, with the six bytes around it. -/
theorem length_of_mem_scan {s p : List UInt8} (h : p ∈ f.scan s) : p.length + 6 ≤ s.length := by
  fun_induction f.scan s with
  | case1 => cases h
  | case2 => cases h
  | case3 s hlong hm hfull hintact ih =>
    rcases List.mem_cons.mp h with rfl | hmem
    · rw [List.length_take, List.length_drop]
      omega
    · have hrest := ih hmem
      rw [List.length_drop] at hrest
      omega
  | case4 s hlong hm hfull hbroken ih =>
    have hrest := ih h
    rw [List.length_drop] at hrest
    omega
  | case5 s hlong hm ih =>
    have hrest := ih h
    rw [List.length_drop] at hrest
    omega

/-! ### More bytes behind a position

What is read at a position depends only on the bytes of the frame there. -/

theorem marked_append {s : List UInt8} (t : List UInt8) (h : 2 ≤ s.length) :
    f.Marked (s ++ t) ↔ f.Marked s := by
  rw [Marked, Marked, List.getD_append _ _ _ _ (by omega), List.getD_append _ _ _ _ (by omega)]

theorem declared_append {s : List UInt8} (t : List UInt8) (h : 4 ≤ s.length) :
    declared (s ++ t) = declared s := by
  rw [declared, declared, List.getD_append _ _ _ _ (by omega), List.getD_append _ _ _ _ (by omega)]

theorem intact_append {s : List UInt8} (t : List UInt8) (h : 6 + declared s ≤ s.length) :
    f.Intact (s ++ t) ↔ f.Intact s := by
  rw [Intact, Intact, declared_append t (by omega), List.getD_append _ _ _ _ (by omega),
    List.getD_append _ _ _ _ (by omega), List.take_append_of_le_length (by omega)]

/-! ### The round trip -/

@[simp] theorem length_header (n : ℕ) : (f.header n).length = 4 := rfl

@[simp] theorem length_encode (p : List UInt8) : (f.encode p).length = 6 + p.length := by
  simp only [encode, List.length_append, length_header, length_le16]
  omega

theorem marked_encode (p : List UInt8) : f.Marked (f.encode p) := ⟨rfl, rfl⟩

theorem declared_encode {p : List UInt8} (h : p.length < 2 ^ 16) :
    declared (f.encode p) = p.length := by
  have hf : declared (f.encode p) = (UInt16.ofNat p.length).toNat := by
    rw [← ofLe16_le16 (UInt16.ofNat p.length)]
    rfl
  rw [hf, UInt16.toNat_ofNat_of_lt' h]

theorem intact_encode {p : List UInt8} (h : p.length < 2 ^ 16) : f.Intact (f.encode p) := by
  set body := f.header p.length ++ p with hbody
  have hlen : body.length = 4 + p.length := by simp [hbody]
  have hcrc : f.encode p = body ++ le16 (f.crc body) := rfl
  rw [Intact, declared_encode f h, hcrc, ← hlen, List.take_left, show 5 + p.length = body.length + 1
    by omega, List.getD_append_right _ _ _ _ le_rfl, List.getD_append_right _ _ _ _ (by omega)]
  simp only [Nat.sub_self, Nat.add_sub_cancel_left]
  exact ofLe16_le16 _

theorem payload_encode (p s : List UInt8) :
    ((f.encode p ++ s).drop 4).take p.length = p := by
  rw [encode, List.append_assoc, List.append_assoc, List.drop_append_of_le_length (by simp),
    List.drop_of_length_le (by simp), List.nil_append, List.take_left]

/-- **A frame at the front of a stream is delivered, and the reading goes on behind it.** -/
theorem scan_encode_append {p : List UInt8} (hp : p ≠ []) (h : p.length < 2 ^ 16)
    (s : List UInt8) : f.scan (f.encode p ++ s) = p :: f.scan s := by
  have hpos : 0 < p.length := List.length_pos_iff.mpr hp
  have hlen := f.length_encode p
  have hdecl : declared (f.encode p ++ s) = p.length := by
    rw [declared_append s (by omega), declared_encode f h]
  rw [scan_of_intact f (by rw [List.length_append]; omega)
    ((marked_append f s (by omega)).mpr (marked_encode f p))
    (by rw [List.length_append, hdecl]; omega)
    ((intact_append f s (by rw [declared_encode f h]; omega)).mpr (intact_encode f h)), hdecl]
  rw [payload_encode, ← hlen, List.drop_left]

/-- A stream of frames is read as their payloads, in order. -/
theorem scan_flatMap_encode {ps : List (List UInt8)}
    (h : ∀ p ∈ ps, p ≠ [] ∧ p.length < 2 ^ 16) : f.scan (ps.flatMap f.encode) = ps := by
  induction ps with
  | nil => exact f.scan_nil
  | cons p ps ih =>
    obtain ⟨hp, hlen⟩ := h p (List.mem_cons_self ..)
    rw [List.flatMap_cons, scan_encode_append f hp hlen,
      ih fun q hq => h q (List.mem_cons_of_mem _ hq)]

/-! ### Noise before a frame -/

/-- No frame begins in the first `n` bytes of the stream. -/
def Quiet (s : List UInt8) (n : ℕ) : Prop :=
  ∀ i < n, f.Marked (s.drop i) → 6 + declared (s.drop i) ≤ (s.drop i).length → ¬ f.Intact (s.drop i)

/-- No marker in the first `n` bytes of the stream announces more bytes than there are. -/
def Settled (s : List UInt8) (n : ℕ) : Prop :=
  ∀ i < n, f.Marked (s.drop i) → 6 + declared (s.drop i) ≤ (s.drop i).length

theorem Quiet.drop {s : List UInt8} {n : ℕ} (h : f.Quiet s n) (k : ℕ) :
    f.Quiet (s.drop k) (n - k) := by
  intro i hi
  rw [List.drop_drop]
  exact h (k + i) (by omega)

/-- Bytes that are passed over do not matter. -/
theorem settled_drop_iff {s : List UInt8} {n k : ℕ}
    (h : ∀ i < k, f.Marked (s.drop i) → 6 + declared (s.drop i) ≤ (s.drop i).length) :
    f.Settled s n ↔ f.Settled (s.drop k) (n - k) := by
  constructor
  · intro hs i hi
    rw [List.drop_drop]
    exact hs (k + i) (by omega)
  · intro hs i hi
    rcases Nat.lt_or_ge i k with hlt | hge
    · exact h i hlt
    · have hi' := hs (i - k) (by omega)
      rwa [List.drop_drop, Nat.add_sub_cancel' hge] at hi'

/-- Behind a marker's first byte no marker begins. -/
theorem not_marked_drop_one {s : List UInt8} (h : f.Marked s) : ¬ f.Marked (s.drop 1) := by
  rintro ⟨h0, -⟩
  have h1 := h.2
  rw [List.getD_eq_getElem?_getD, List.getElem?_drop, ← List.getD_eq_getElem?_getD] at h0
  exact f.markers_ne (h0.symm.trans h1)

/-- A frame does not complete a marker that is cut off in front of it. -/
theorem not_marked_cons_encode (b : UInt8) (p : List UInt8) : ¬ f.Marked (b :: f.encode p) :=
  fun h => f.markers_ne h.2

/-- **A frame behind noise** is delivered, and nothing else, unless a marker in the noise announces
more bytes than there are; then nothing is. -/
theorem scan_noise {p : List UInt8} (hp : p ≠ []) (hlt : p.length < 2 ^ 16) {noise : List UInt8}
    (hquiet : f.Quiet (noise ++ f.encode p) noise.length) :
    (f.Settled (noise ++ f.encode p) noise.length → f.scan (noise ++ f.encode p) = [p]) ∧
      (¬ f.Settled (noise ++ f.encode p) noise.length → f.scan (noise ++ f.encode p) = []) := by
  induction hn : noise.length using Nat.strong_induction_on generalizing noise with
  | _ n ih =>
    subst hn
    rcases noise with _ | ⟨b, noise⟩
    · refine ⟨fun _ => ?_, fun h => absurd (fun i hi => absurd hi (Nat.not_lt_zero i)) h⟩
      have h := f.scan_encode_append hp hlt []
      rwa [List.append_nil, f.scan_nil] at h
    set s := b :: noise ++ f.encode p with hs
    have hpos := List.length_pos_iff.mpr hp
    have hlen : s.length = noise.length + 1 + (6 + p.length) := by
      rw [hs, List.length_append, List.length_cons, f.length_encode]
    -- what is left behind `k` bytes of the noise
    have hrest {k : ℕ} (hk : 0 < k) (hk' : k ≤ noise.length + 1)
        (hscan : f.scan s = f.scan (s.drop k))
        (hpass : ∀ i < k, f.Marked (s.drop i) → 6 + declared (s.drop i) ≤ (s.drop i).length) :
        (f.Settled s (noise.length + 1) → f.scan s = [p]) ∧
          (¬ f.Settled s (noise.length + 1) → f.scan s = []) := by
      have hdrop : s.drop k = (b :: noise).drop k ++ f.encode p :=
        List.drop_append_of_le_length hk'
      have hlen' : ((b :: noise).drop k).length = noise.length + 1 - k := List.length_drop
      have hquiet' := Quiet.drop f hquiet k
      rw [hdrop, List.length_cons, ← hlen'] at hquiet'
      have h := ih _ (by rw [hlen', List.length_cons]; omega) hquiet' rfl
      rw [← hdrop, hlen', ← hscan] at h
      rw [f.settled_drop_iff hpass]
      exact h
    by_cases hm : f.Marked s
    · have hne : noise ≠ [] := by
        rintro rfl
        exact f.not_marked_cons_encode b p hm
      have hpos' := List.length_pos_iff.mpr hne
      by_cases hfit : 6 + declared s ≤ s.length
      · -- a broken frame
        have hbroken : ¬ f.Intact s := hquiet 0 (Nat.succ_pos _) hm hfit
        refine hrest (Nat.succ_pos 1) (by omega) (f.scan_of_broken (by omega) hm hfit hbroken) ?_
        intro i hi hmark
        obtain rfl | rfl : i = 0 ∨ i = 1 := by omega
        · exact hfit
        · exact absurd hmark (f.not_marked_drop_one hm)
      · refine ⟨fun h => absurd (h 0 (Nat.succ_pos _) hm) hfit, fun _ => ?_⟩
        exact f.scan_of_partial hm (by omega)
    · refine hrest Nat.one_pos (by omega) (f.scan_of_unmarked hm) ?_
      intro i hi hmark
      obtain rfl : i = 0 := by omega
      exact absurd hmark hm

end Format

end Framing
