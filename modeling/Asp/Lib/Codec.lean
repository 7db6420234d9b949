import Asp.Lib.Framing

/-! Self-delimiting serializers: a decoder consumes exactly what its encoder
wrote. Numbers are base-128 varints, sequences are prefixed by their length. -/

open Framing Std

structure Codec (α : Type) where
  encode : α → Bytes
  decode : Bytes → Option (α × Bytes)
  decode_encode : ∀ x rest, decode (encode x ++ rest) = some (x, rest)

namespace Codec

variable {α β κ : Type}

def via (C : Codec β) (there : α → β) (back : β → α) (h : ∀ x, back (there x) = x) : Codec α where
  encode x := C.encode (there x)
  decode bytes := (C.decode bytes).map fun (y, rest) => (back y, rest)
  decode_encode x rest := by simp [C.decode_encode, h]

def varint : ℕ → ℕ → Bytes
  | 0, n => [UInt8.ofNat n]
  | fuel + 1, n =>
      if n < 128 then [UInt8.ofNat n] else UInt8.ofNat (n % 128 + 128) :: varint fuel (n / 128)

def readVarint : Bytes → Option (ℕ × Bytes)
  | [] => none
  | b :: rest =>
      if b.toNat < 128 then some (b.toNat, rest)
      else (readVarint rest).map fun (n, rest) => (b.toNat - 128 + 128 * n, rest)

theorem readVarint_varint {fuel n : ℕ} (h : n ≤ fuel) (rest : Bytes) :
    readVarint (varint fuel n ++ rest) = some (n, rest) := by
  induction fuel generalizing n with
  | zero =>
    obtain rfl : n = 0 := Nat.le_zero.mp h
    rfl
  | succ fuel ih =>
    unfold varint
    split_ifs with hn
    · have hb : (UInt8.ofNat n).toNat = n := by
        rw [UInt8.toNat_ofNat']
        omega
      simp [readVarint, hb, hn]
    · have hb : (UInt8.ofNat (n % 128 + 128)).toNat = n % 128 + 128 := by
        rw [UInt8.toNat_ofNat']
        omega
      rw [List.cons_append, readVarint, hb, if_neg (by omega), ih (by omega)]
      simp only [Option.map_some, Option.some.injEq, Prod.mk.injEq, and_true]
      omega

def nat : Codec ℕ where
  encode n := varint n n
  decode := readVarint
  decode_encode _ rest := readVarint_varint le_rfl rest

theorem varint_length (fuel n : ℕ) :
    1 ≤ (varint fuel n).length ∧ (varint fuel n).length ≤ fuel + 1 := by
  induction fuel generalizing n with
  | zero => exact ⟨le_rfl, le_rfl⟩
  | succ fuel ih =>
    unfold varint
    split_ifs
    · exact ⟨le_rfl, by simp⟩
    · have := ih (n / 128)
      simp only [List.length_cons]
      omega

theorem nat_encode_length (n : ℕ) :
    1 ≤ (nat.encode n).length ∧ (nat.encode n).length ≤ n + 1 := varint_length n n

def int : Codec ℤ :=
  nat.via (fun | .ofNat n => 2 * n | .negSucc n => 2 * n + 1)
    (fun n => if n % 2 = 0 then .ofNat (n / 2) else .negSucc (n / 2))
    (fun
      | .ofNat n => by simp
      | .negSucc n => by
        have h : (2 * n + 1) / 2 = n := by omega
        simp [h])

def bool : Codec Bool := nat.via Bool.toNat (· == 1) (by decide)

def unit : Codec Unit where
  encode _ := []
  decode bytes := some ((), bytes)
  decode_encode _ _ := rfl

def pair (A : Codec α) (B : Codec β) : Codec (α × β) where
  encode x := A.encode x.1 ++ B.encode x.2
  decode bytes :=
    match A.decode bytes with
    | none => none
    | some (x, bytes) => (B.decode bytes).map fun (y, rest) => ((x, y), rest)
  decode_encode x rest := by simp [A.decode_encode, B.decode_encode]

def sum (A : Codec α) (B : Codec β) : Codec (α ⊕ β) where
  encode
    | .inl x => 0 :: A.encode x
    | .inr y => 1 :: B.encode y
  decode
    | [] => none
    | tag :: bytes =>
        if tag = 0 then (A.decode bytes).map fun (x, rest) => (.inl x, rest)
        else (B.decode bytes).map fun (y, rest) => (.inr y, rest)
  decode_encode x rest := by cases x <;> simp [A.decode_encode, B.decode_encode]

def option (A : Codec α) : Codec (Option α) :=
  (sum unit A).via (fun x => x.elim (.inl ()) .inr) (Sum.elim (fun _ => none) some)
    (fun x => by cases x <;> rfl)

def decodeAll (A : Codec α) : ℕ → Bytes → Option (List α × Bytes)
  | 0, bytes => some ([], bytes)
  | n + 1, bytes =>
      match A.decode bytes with
      | none => none
      | some (x, bytes) => (decodeAll A n bytes).map fun (xs, rest) => (x :: xs, rest)

theorem decodeAll_flatMap (A : Codec α) (xs : List α) (rest : Bytes) :
    A.decodeAll xs.length (xs.flatMap A.encode ++ rest) = some (xs, rest) := by
  induction xs with
  | nil => rfl
  | cons x xs ih => simp [decodeAll, A.decode_encode, ih]

def list (A : Codec α) : Codec (List α) where
  encode xs := nat.encode xs.length ++ xs.flatMap A.encode
  decode bytes :=
    match nat.decode bytes with
    | none => none
    | some (n, bytes) => A.decodeAll n bytes
  decode_encode xs rest := by
    rw [List.append_assoc, nat.decode_encode]
    exact A.decodeAll_flatMap xs rest

def byte : Codec UInt8 where
  encode b := [b]
  decode
    | [] => none
    | b :: rest => some (b, rest)
  decode_encode _ _ := rfl

def text : Codec String :=
  (list nat).via (fun s => s.toList.map Char.toNat) (fun ns => String.ofList (ns.map Char.ofNat))
    (fun s => by simp [Function.comp_def])

theorem text_encode_length (n : ℕ) :
    (text.encode (String.ofList (List.replicate n 'a'))).length = (nat.encode n).length + n := by
  have hone : (nat.encode 'a'.toNat).length = 1 := by decide
  simp only [text, via, list, String.toList_ofList, List.map_replicate, List.length_append,
    List.length_replicate, List.length_flatMap, hone, List.sum_replicate, smul_eq_mul, mul_one]

section Map

variable [Ord κ] [TransOrd κ] [BEq κ] [LawfulBEqOrd κ] [LawfulEqOrd κ]

theorem ofList_toList (m : ExtTreeMap κ β) : ExtTreeMap.ofList m.toList compare = m := by
  refine ExtTreeMap.ext_getElem? fun k => ?_
  cases hk : m[k]? with
  | none =>
    refine ExtTreeMap.getElem?_ofList_of_contains_eq_false ?_
    rw [ExtTreeMap.map_fst_toList_eq_keys, ExtTreeMap.contains_keys]
    exact ExtTreeMap.contains_eq_isSome_getElem?.trans (by rw [hk]; rfl)
  | some v =>
    exact ExtTreeMap.getElem?_ofList_of_mem ReflCmp.compare_self ExtTreeMap.distinct_keys_toList
      (ExtTreeMap.mem_toList_iff_getElem?_eq_some.mpr hk)

def map (K : Codec κ) (V : Codec β) : Codec (ExtTreeMap κ β) :=
  (list (pair K V)).via ExtTreeMap.toList (ExtTreeMap.ofList · compare) ofList_toList

theorem map_encode_length (K : Codec κ) (V : Codec β) (m : ExtTreeMap κ β) :
    ((map K V).encode m).length = (nat.encode m.size).length +
      (m.toList.map fun entry => (K.encode entry.1).length + (V.encode entry.2).length).sum := by
  simp only [map, via, list, pair, List.length_append, List.length_flatMap,
    ExtTreeMap.length_toList]

theorem le_map_encode_length (K : Codec κ) (V : Codec β) {m : ExtTreeMap κ β} {bound : ℕ}
    (h : ∀ (k : κ) (v : β), m[k]? = some v → bound ≤ (V.encode v).length) :
    m.size * bound ≤ ((map K V).encode m).length := by
  rw [map_encode_length, ← ExtTreeMap.length_toList]
  have hsum := List.card_nsmul_le_sum (m.toList.map fun entry =>
    (K.encode entry.1).length + (V.encode entry.2).length) bound fun n hn => by
      obtain ⟨entry, hentry, rfl⟩ := List.mem_map.mp hn
      exact (h _ _ (ExtTreeMap.mem_toList_iff_getElem?_eq_some.mp hentry)).trans
        (Nat.le_add_left _ _)
  rw [List.length_map, smul_eq_mul] at hsum
  omega

theorem map_encode_length_le (K : Codec κ) (V : Codec β) {m : ExtTreeMap κ β} {bound : ℕ}
    (h : ∀ (k : κ) (v : β), m[k]? = some v → (K.encode k).length + (V.encode v).length ≤ bound) :
    ((map K V).encode m).length ≤ m.size + 1 + m.size * bound := by
  rw [map_encode_length, ← ExtTreeMap.length_toList]
  have hsum := List.sum_le_card_nsmul (m.toList.map fun entry =>
    (K.encode entry.1).length + (V.encode entry.2).length) bound fun n hn => by
      obtain ⟨entry, hentry, rfl⟩ := List.mem_map.mp hn
      exact h _ _ (ExtTreeMap.mem_toList_iff_getElem?_eq_some.mp hentry)
  have hcount := (nat_encode_length m.toList.length).2
  rw [List.length_map, smul_eq_mul] at hsum
  omega

end Map

end Codec
