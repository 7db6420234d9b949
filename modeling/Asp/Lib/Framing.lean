import Mathlib.Tactic

/-! Length-prefixed frames. A frame is a big-endian length, an optional
checksum and a payload. Reading a frame that was written gives it back; reading
a strict prefix of one reports a torn frame; what reads as a frame is one. -/

namespace Framing

variable {bytes : Bytes} {n : ℕ}

abbrev Bytes := List UInt8

def be16 (n : ℕ) : Bytes := [UInt8.ofNat (n / 2 ^ 8), UInt8.ofNat n]

def be32 (n : ℕ) : Bytes :=
  [UInt8.ofNat (n / 2 ^ 24), UInt8.ofNat (n / 2 ^ 16), UInt8.ofNat (n / 2 ^ 8), UInt8.ofNat n]

/-- The number that bytes write in base 256. -/
def ofBe (bytes : Bytes) : ℕ := bytes.foldl (fun n byte => n * 2 ^ 8 + byte.toNat) 0

@[simp] theorem be16_length (n : ℕ) : (be16 n).length = 2 := rfl

@[simp] theorem be32_length (n : ℕ) : (be32 n).length = 4 := rfl

theorem ofBe_be16 (h : n < 2 ^ 16) : ofBe (be16 n) = n := by
  simp only [ofBe, be16, List.foldl_cons, List.foldl_nil, UInt8.toNat_ofNat']
  omega

theorem ofBe_be32 (h : n < 2 ^ 32) : ofBe (be32 n) = n := by
  simp only [ofBe, be32, List.foldl_cons, List.foldl_nil, UInt8.toNat_ofNat']
  omega

theorem be32_ofBe (h : bytes.length = 4) : be32 (ofBe bytes) = bytes := by
  obtain ⟨a, b, c, d, rfl⟩ := List.length_eq_four.mp h
  have ha := a.toNat_lt
  have hb := b.toNat_lt
  have hc := c.toNat_lt
  have hd := d.toNat_lt
  simp only [ofBe, be32, List.foldl_cons, List.foldl_nil, List.cons.injEq, and_true]
  refine ⟨?_, ?_, ?_, ?_⟩ <;> rw [← UInt8.toNat_inj, UInt8.toNat_ofNat'] <;> omega

def be : ℕ → ℕ → Bytes
  | 0, _ => []
  | k + 1, n => UInt8.ofNat (n / 256 ^ k) :: be k n

@[simp] theorem be_length (k n : ℕ) : (be k n).length = k := by
  induction k with
  | zero => rfl
  | succ k ih => rw [be, List.length_cons, ih]

theorem foldl_be (k n acc : ℕ) :
    (be k n).foldl (fun n byte => n * 2 ^ 8 + byte.toNat) acc = acc * 256 ^ k + n % 256 ^ k := by
  induction k generalizing acc with
  | zero => simp [be, Nat.mod_one]
  | succ k ih =>
    have hmod : n % 256 ^ (k + 1) = n % 256 ^ k + 256 ^ k * (n / 256 ^ k % 2 ^ 8) :=
      Nat.mod_pow_succ
    rw [be, List.foldl_cons, ih, UInt8.toNat_ofNat', hmod]
    ring

theorem ofBe_be {k : ℕ} (h : n < 256 ^ k) : ofBe (be k n) = n := by
  rw [ofBe, foldl_be, Nat.mod_eq_of_lt h, Nat.zero_mul, Nat.zero_add]

def readExact (n : ℕ) (bytes : Bytes) : Option (Bytes × Bytes) :=
  if n ≤ bytes.length then some (bytes.take n, bytes.drop n) else none

theorem readExact_append {front : Bytes} (h : front.length = n) (rest : Bytes) :
    readExact n (front ++ rest) = some (front, rest) := by
  subst h
  simp [readExact]

theorem readExact_eq_some {front rest : Bytes} (h : readExact n bytes = some (front, rest)) :
    bytes = front ++ rest ∧ front.length = n := by
  unfold readExact at h
  split_ifs at h with hn
  cases h
  exact ⟨(List.take_append_drop n bytes).symm, List.length_take_of_le hn⟩

theorem readExact_eq_none : readExact n bytes = none ↔ bytes.length < n := by
  simp [readExact]

/-- The checksum part: absent in the format that has none. -/
def sumBytes (crc : Option (Bytes → UInt32)) (payload : Bytes) : Bytes :=
  crc.elim [] fun sum => be32 (sum payload).toNat

def frame (crc : Option (Bytes → UInt32)) (payload : Bytes) : Bytes :=
  be32 payload.length ++ sumBytes crc payload ++ payload

inductive Stage where
  | length
  | checksum
  | payload
  deriving DecidableEq

inductive Read where
  | torn (stage : Stage)
  | oversized
  | mismatch
  | frame (payload rest : Bytes)
  deriving DecidableEq

/-- The checksum that precedes the payload, when the format has one. -/
def readSum (crc : Option (Bytes → UInt32)) (bytes : Bytes) : Option (Bytes × Bytes) :=
  match crc with
  | none => some ([], bytes)
  | some _ => readExact 4 bytes

def sumMatches (crc : Option (Bytes → UInt32)) (sum payload : Bytes) : Bool :=
  match crc with
  | none => true
  | some f => (f payload).toNat == ofBe sum

/-- Read one frame whose payload has at most `limit` bytes. -/
def readFrame (limit : ℕ) (crc : Option (Bytes → UInt32)) (bytes : Bytes) : Read :=
  match readExact 4 bytes with
  | none => .torn .length
  | some (len, bytes) =>
      if limit < ofBe len then .oversized
      else
        match readSum crc bytes with
        | none => .torn .checksum
        | some (sum, bytes) =>
            match readExact (ofBe len) bytes with
            | none => .torn .payload
            | some (payload, rest) =>
                if sumMatches crc sum payload then .frame payload rest else .mismatch

section Frame

variable {limit : ℕ} {crc : Option (Bytes → UInt32)} {payload rest : Bytes}

theorem frame_length :
    (frame crc payload).length = 4 + (sumBytes crc payload).length + payload.length := by
  simp [frame, Nat.add_assoc]

theorem frame_length_pos (crc : Option (Bytes → UInt32)) (payload : Bytes) :
    0 < (frame crc payload).length := by
  rw [frame_length]
  omega

theorem readSum_append (rest : Bytes) :
    readSum crc (sumBytes crc payload ++ rest) = some (sumBytes crc payload, rest) := by
  cases crc with
  | none => rfl
  | some f => exact readExact_append (be32_length _) rest

theorem sumMatches_sumBytes : sumMatches crc (sumBytes crc payload) payload = true := by
  cases crc with
  | none => rfl
  | some f => simp [sumMatches, sumBytes, ofBe_be32 (f payload).toNat_lt]

theorem sumMatches_iff (payload : Bytes) {sum : Bytes} (h : readSum crc bytes = some (sum, rest)) :
    bytes = sum ++ rest ∧ (sumMatches crc sum payload = true → sum = sumBytes crc payload) := by
  cases crc with
  | none =>
    cases h
    exact ⟨rfl, fun _ => rfl⟩
  | some f =>
    obtain ⟨rfl, hlen⟩ := readExact_eq_some h
    refine ⟨rfl, fun hmatch => ?_⟩
    simp only [sumMatches, beq_iff_eq] at hmatch
    simp only [sumBytes, Option.elim_some]
    rw [hmatch, be32_ofBe hlen]

theorem readFrame_frame (hlimit : payload.length ≤ limit) (hlen : payload.length < 2 ^ 32)
    (rest : Bytes) : readFrame limit crc (frame crc payload ++ rest) = .frame payload rest := by
  have hof := ofBe_be32 hlen
  rw [readFrame, frame, List.append_assoc, List.append_assoc,
    readExact_append (be32_length payload.length)]
  simp only [hof]
  rw [if_neg (by omega), readSum_append]
  dsimp only
  rw [readExact_append rfl]
  dsimp only
  rw [sumMatches_sumBytes, if_pos rfl]

theorem readFrame_eq_frame (h : readFrame limit crc bytes = .frame payload rest) :
    bytes = frame crc payload ++ rest ∧ payload.length ≤ limit := by
  unfold readFrame at h
  split at h
  · cases h
  rename_i len bytes1 hlen
  obtain ⟨rfl, hfour⟩ := readExact_eq_some hlen
  split_ifs at h with hlimit
  split at h
  · cases h
  rename_i sum bytes2 hsum
  split at h
  · cases h
  rename_i p rest' hp
  obtain ⟨rfl, hplen⟩ := readExact_eq_some hp
  split_ifs at h with hmatch
  obtain ⟨rfl, rfl⟩ := Read.frame.inj h
  obtain ⟨rfl, hsame⟩ := sumMatches_iff p hsum
  refine ⟨?_, by omega⟩
  rw [frame, ← hsame hmatch, hplen, be32_ofBe hfour]
  simp only [List.append_assoc]

theorem readFrame_torn {torn : Bytes} (hlimit : payload.length ≤ limit)
    (hlen : payload.length < 2 ^ 32) (hpre : torn <+: frame crc payload)
    (hne : torn ≠ frame crc payload) : ∃ stage, readFrame limit crc torn = .torn stage := by
  obtain ⟨missing, hmissing⟩ := hpre
  have hpos : 0 < missing.length := by
    rw [List.length_pos_iff]
    rintro rfl
    exact hne (by simpa using hmissing)
  have htotal := congrArg List.length hmissing
  rw [List.length_append, frame_length] at htotal
  unfold readFrame
  split
  · exact ⟨_, rfl⟩
  rename_i len bytes1 hread
  obtain ⟨rfl, hfour⟩ := readExact_eq_some hread
  have hprefix : len = be32 payload.length ∧ bytes1 ++ missing = sumBytes crc payload ++ payload := by
    rw [List.append_assoc, frame, List.append_assoc] at hmissing
    exact List.append_inj hmissing (by rw [hfour, be32_length])
  obtain ⟨rfl, hbody⟩ := hprefix
  rw [ofBe_be32 hlen, if_neg (by omega)]
  split
  · exact ⟨_, rfl⟩
  rename_i sum bytes2 hsum
  have hsplit := (sumMatches_iff payload hsum).1
  have hsumlen : sum.length = (sumBytes crc payload).length := by
    cases crc with
    | none =>
      cases hsum
      rfl
    | some f => exact (readExact_eq_some hsum).2
  have hnone : readExact payload.length bytes2 = none := by
    rw [readExact_eq_none]
    have := congrArg List.length hsplit
    rw [List.length_append] at this
    simp only [List.length_append, hfour] at htotal
    omega
  rw [hnone]
  exact ⟨_, rfl⟩

end Frame

end Framing
