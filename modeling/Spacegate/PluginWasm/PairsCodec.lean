import Spacegate.PluginWasm.Config

/-!
# The layout of header pairs

A list of pairs is handed over as bytes: how many pairs there are, the two lengths of each pair,
then the texts themselves with a separator byte behind each.  The sizes all come before the data,
so a decoder walks the bytes twice.  The separators are not looked at; apart from them the bytes
that are accepted are those of an encoding, possibly with more behind.
-/

namespace Spacegate.PluginWasm

open List Option

abbrev Pairs := List (Bytes × Bytes)

/-! ## Numbers of four bytes -/

/-- `(n as u32).to_le_bytes`. -/
def toLeBytes (n : Nat) : Bytes :=
  [UInt8.ofNat n, UInt8.ofNat (n / 2 ^ 8), UInt8.ofNat (n / 2 ^ 16), UInt8.ofNat (n / 2 ^ 24)]

/-- `u32::from_le_bytes`. -/
def fromLeBytes (a b c d : UInt8) : Nat :=
  a.toNat + 2 ^ 8 * b.toNat + 2 ^ 16 * c.toNat + 2 ^ 24 * d.toNat

def u32FromSlice (bytes : Bytes) (pos : Nat) : Option Nat :=
  match (bytes.drop pos).take 4 with
  | [a, b, c, d] => some (fromLeBytes a b c d)
  | _ => none

/-! ## Pairs -/

def encodePairs (pairs : Pairs) : Bytes :=
  toLeBytes pairs.length ++ pairs.flatMap (fun p => toLeBytes p.1.length ++ toLeBytes p.2.length) ++
    pairs.flatMap fun p => p.1 ++ 0 :: (p.2 ++ [0])

/-- The loop over the sizes. -/
def decodeSizes (bytes : Bytes) : Nat → Nat → Option (List (Nat × Nat))
  | 0, _ => some []
  | count + 1, pos => do
    let k ← u32FromSlice bytes pos
    let v ← u32FromSlice bytes (pos + 4)
    let sizes ← decodeSizes bytes count (pos + 8)
    some ((k, v) :: sizes)

/-- The loop over the data. -/
def decodeData (bytes : Bytes) : List (Nat × Nat) → Nat → Option Pairs
  | [], _ => some []
  | (ks, vs) :: sizes, pos =>
    if pos + ks + 1 + vs + 1 > bytes.length then none
    else do
      let key := (bytes.drop pos).take ks
      let val := (bytes.drop (pos + ks + 1)).take vs
      let out ← decodeData bytes sizes (pos + ks + 1 + vs + 1)
      some ((key, val) :: out)

def decodePairs (bytes : Bytes) : Option Pairs :=
  if bytes = [] then some []
  else if bytes = [0] then some []
  else if bytes.length < 4 then none
  else do
    let count ← u32FromSlice bytes 0
    if bytes.length < 4 + count * 8 then none
    else do
      let sizes ← decodeSizes bytes count 4
      decodeData bytes sizes (4 + count * 8)

/-! ## Encodings with any separators -/

/-- The lengths, as they are stored. -/
def sizeBytes (sizes : List (Nat × Nat)) : Bytes :=
  sizes.flatMap fun size => toLeBytes size.1 ++ toLeBytes size.2

def sizesOf (pairs : Pairs) : List (Nat × Nat) :=
  pairs.map fun p => (p.1.length, p.2.length)

variable (separators : List (UInt8 × UInt8))

/-- The data, with the given bytes behind the keys and the values. -/
def dataWith (pairs : Pairs) : Bytes :=
  (pairs.zip separators).flatMap fun x => x.1.1 ++ x.2.1 :: (x.1.2 ++ [x.2.2])

/-- `encode_pairs` with other bytes in the place of the separators. -/
def encodeWith (pairs : Pairs) : Bytes :=
  toLeBytes pairs.length ++ sizeBytes (sizesOf pairs) ++ dataWith separators pairs

theorem encodePairs_eq (pairs : Pairs) :
    encodePairs pairs = encodeWith (List.replicate pairs.length (0, 0)) pairs := by
  have hData : dataWith (List.replicate pairs.length (0, 0)) pairs =
      pairs.flatMap fun p => p.1 ++ 0 :: (p.2 ++ [0]) := by
    induction pairs with
    | nil => rfl
    | cons p pairs ih =>
      simp only [dataWith, length_cons, replicate_succ, zip_cons_cons, flatMap_cons] at ih ⊢
      rw [ih]
  rw [encodePairs, encodeWith, hData, sizeBytes, sizesOf, flatMap_map]

variable {separators : List (UInt8 × UInt8)} {pairs : Pairs}

theorem length_dataWith (h : separators.length = pairs.length) :
    (dataWith separators pairs).length =
      (pairs.map fun p => p.1.length + 1 + p.2.length + 1).sum := by
  induction pairs generalizing separators with
  | nil => rfl
  | cons p pairs ih =>
    cases separators with
    | nil => cases h
    | cons separator separators =>
      have hRest := ih (Nat.succ.inj h)
      simp only [dataWith, zip_cons_cons, flatMap_cons, length_append,
        length_cons, length_nil, map_cons, sum_cons] at hRest ⊢
      omega

theorem length_encodeWith (h : separators.length = pairs.length) :
    (encodeWith separators pairs).length = (encodePairs pairs).length := by
  simp [encodePairs_eq, encodeWith, length_dataWith h, length_dataWith length_replicate]

/-! ## What an encoding is decoded to -/

theorem fromLeBytes_toLeBytes {n : Nat} (h : n < 2 ^ 32) :
    fromLeBytes (UInt8.ofNat n) (UInt8.ofNat (n / 2 ^ 8)) (UInt8.ofNat (n / 2 ^ 16))
      (UInt8.ofNat (n / 2 ^ 24)) = n := by
  simp only [fromLeBytes, UInt8.toNat_ofNat']
  omega

theorem u32FromSlice_append {n : Nat} (h : n < 2 ^ 32) (before after : Bytes) :
    u32FromSlice (before ++ (toLeBytes n ++ after)) before.length = some n := by
  rw [u32FromSlice, drop_left]
  simp only [toLeBytes, cons_append, nil_append, take_succ_cons, take_zero]
  rw [fromLeBytes_toLeBytes h]

variable {sizes : List (Nat × Nat)}

theorem decodeSizes_append
    (h : ∀ size ∈ sizes, size.1 < 2 ^ 32 ∧ size.2 < 2 ^ 32) (before after : Bytes) :
    decodeSizes (before ++ (sizeBytes sizes ++ after)) sizes.length before.length = some sizes := by
  induction sizes generalizing before with
  | nil => rfl
  | cons size sizes ih =>
    obtain ⟨k, v⟩ := size
    obtain ⟨hk, hv⟩ := h (k, v) mem_cons_self
    have hKey : u32FromSlice (before ++ (sizeBytes ((k, v) :: sizes) ++ after)) before.length =
        some k := by
      simp only [sizeBytes, flatMap_cons, append_assoc]
      exact u32FromSlice_append hk before _
    have hVal : u32FromSlice (before ++ (sizeBytes ((k, v) :: sizes) ++ after))
        (before.length + 4) = some v := by
      have := u32FromSlice_append hv (before ++ toLeBytes k) (sizeBytes sizes ++ after)
      simpa [sizeBytes, toLeBytes] using this
    have hRest := ih (fun size hMem => h size (mem_cons_of_mem _ hMem))
      (before ++ (toLeBytes k ++ toLeBytes v))
    have hSame : before ++ (toLeBytes k ++ toLeBytes v) ++ (sizeBytes sizes ++ after) =
        before ++ (sizeBytes ((k, v) :: sizes) ++ after) := by
      simp [sizeBytes]
    rw [hSame, length_append] at hRest
    rw [length_cons, decodeSizes, hKey, hVal]
    simp only [toLeBytes, length_append, length_cons, length_nil] at hRest
    simp only [bind_eq_bind, bind_some]
    rw [hRest]
    rfl

theorem decodeData_append (h : separators.length = pairs.length) (before after : Bytes) :
    decodeData (before ++ (dataWith separators pairs ++ after)) (sizesOf pairs) before.length =
      some pairs := by
  induction pairs generalizing separators before with
  | nil => rfl
  | cons p pairs ih =>
    cases separators with
    | nil => cases h
    | cons separator separators =>
      obtain ⟨key, value⟩ := p
      set record := key ++ separator.1 :: (value ++ [separator.2])
      set rest := dataWith separators pairs ++ after
      have hData : before ++ (dataWith (separator :: separators) ((key, value) :: pairs) ++ after) =
          before ++ record ++ rest := by
        simp [dataWith, record, rest]
      have hRest := ih (Nat.succ.inj h) (before ++ record)
      have hLen : (before ++ record).length =
          before.length + key.length + 1 + value.length + 1 := by
        simp only [record, length_append, length_cons, length_nil]
        omega
      rw [hLen] at hRest
      have hValue : (before ++ record ++ rest).drop (before.length + key.length + 1) =
          value ++ ([separator.2] ++ rest) := by
        have hl : before.length + key.length + 1 = (before ++ (key ++ [separator.1])).length := by
          simp only [length_append, length_cons, length_nil]
          omega
        have hParts : before ++ record ++ rest =
            before ++ (key ++ [separator.1]) ++ (value ++ ([separator.2] ++ rest)) := by
          simp [record]
        rw [hl, hParts, drop_left]
      rw [hData, sizesOf, map_cons, decodeData, if_neg, ← sizesOf, hRest]
      · simp only [bind_eq_bind, bind_some, hValue, take_left]
        rw [append_assoc, drop_left, append_assoc, take_left]
      · rw [length_append, hLen]
        show ¬ before.length + key.length + 1 + value.length + 1 > _
        omega

theorem decodePairs_encodeWith
    (hs : separators.length = pairs.length) (hCount : pairs.length < 2 ^ 32)
    (hSizes : ∀ p ∈ pairs, p.1.length < 2 ^ 32 ∧ p.2.length < 2 ^ 32) :
    decodePairs (encodeWith separators pairs) = some pairs := by
  have hSizes' : ∀ size ∈ sizesOf pairs, size.1 < 2 ^ 32 ∧ size.2 < 2 ^ 32 := by
    intro size hMem
    obtain ⟨p, hp, rfl⟩ := mem_map.mp hMem
    exact hSizes p hp
  have hLength : (sizesOf pairs).length = pairs.length := length_map _
  have hBytes : (sizeBytes (sizesOf pairs)).length = pairs.length * 8 := by
    rw [← hLength, sizeBytes, length_flatMap]
    simp [toLeBytes]
  have hFour : (encodeWith separators pairs).length = 4 + pairs.length * 8 +
      (dataWith separators pairs).length := by
    simp only [encodeWith, length_append, hBytes]
    rfl
  have hRead : u32FromSlice (encodeWith separators pairs) 0 = some pairs.length := by
    rw [encodeWith, append_assoc]
    exact u32FromSlice_append hCount [] _
  have hMiddle : decodeSizes (encodeWith separators pairs) pairs.length 4 =
      some (sizesOf pairs) := by
    rw [encodeWith, append_assoc, ← hLength]
    exact decodeSizes_append hSizes' (toLeBytes _) _
  have hData : decodeData (encodeWith separators pairs) (sizesOf pairs) (4 + pairs.length * 8) =
      some pairs := by
    have hd := decodeData_append hs (toLeBytes pairs.length ++ sizeBytes (sizesOf pairs)) []
    rw [append_nil, length_append, hBytes] at hd
    exact hd
  rw [decodePairs, if_neg, if_neg, if_neg, hRead]
  · simp only [bind_eq_bind, bind_some]
    rw [if_neg (by omega), hMiddle]
    exact hData
  · omega
  · intro h
    rw [h] at hFour
    simp at hFour
    omega
  · intro h
    rw [h] at hFour
    simp at hFour
    omega

/-! ## What is accepted -/

theorem toLeBytes_fromLeBytes (a b c d : UInt8) :
    toLeBytes (fromLeBytes a b c d) = [a, b, c, d] := by
  have ha := a.toNat_lt
  have hb := b.toNat_lt
  have hc := c.toNat_lt
  have hd := d.toNat_lt
  simp only [toLeBytes, fromLeBytes, List.cons.injEq, and_true, ← UInt8.toNat_inj,
    UInt8.toNat_ofNat']
  omega

variable {bytes : Bytes}

theorem drop_of_u32FromSlice {pos n : Nat} (h : u32FromSlice bytes pos = some n) :
    bytes.drop pos = toLeBytes n ++ bytes.drop (pos + 4) := by
  unfold u32FromSlice at h
  split at h
  · rename_i a b c d hTake
    cases h
    rw [toLeBytes_fromLeBytes, ← hTake, ← drop_drop, take_append_drop]
  · cases h

theorem drop_of_decodeSizes {count pos : Nat} (h : decodeSizes bytes count pos = some sizes) :
    sizes.length = count ∧ bytes.drop pos = sizeBytes sizes ++ bytes.drop (pos + count * 8) := by
  induction count generalizing pos sizes with
  | zero =>
    cases h
    exact ⟨rfl, by simp [sizeBytes]⟩
  | succ count ih =>
    simp only [decodeSizes, bind_eq_bind, bind_eq_some_iff] at h
    obtain ⟨k, hk, v, hv, rest, hRest, hSizes⟩ := h
    cases hSizes
    obtain ⟨hLength, hDrop⟩ := ih hRest
    refine ⟨by rw [length_cons, hLength], ?_⟩
    have hNext : pos + 8 + count * 8 = pos + (count + 1) * 8 := by omega
    rw [drop_of_u32FromSlice hk, drop_of_u32FromSlice hv, hDrop, hNext]
    simp [sizeBytes]

theorem drop_eq_take_append {pos n : Nat} (h : pos + n < bytes.length) :
    bytes.drop pos = (bytes.drop pos).take n ++ bytes[pos + n] :: bytes.drop (pos + n + 1) := by
  rw [← drop_eq_getElem_cons h, ← drop_drop, take_append_drop]

theorem drop_of_decodeData {pos : Nat} (h : decodeData bytes sizes pos = some pairs) :
    ∃ separators rest, separators.length = pairs.length ∧ sizes = sizesOf pairs ∧
      bytes.drop pos = dataWith separators pairs ++ rest := by
  induction sizes generalizing pos pairs with
  | nil =>
    cases h
    exact ⟨[], bytes.drop pos, rfl, rfl, rfl⟩
  | cons size sizes ih =>
    obtain ⟨ks, vs⟩ := size
    simp only [decodeData] at h
    split_ifs at h with hFits
    simp only [bind_eq_bind, bind_eq_some_iff] at h
    obtain ⟨out, hOut, hPairs⟩ := h
    cases hPairs
    obtain ⟨separators, rest, hLength, hSizes, hDrop⟩ := ih hOut
    -- the bytes behind the key and behind the value
    have hKey : pos + ks < bytes.length := by omega
    have hVal : pos + ks + 1 + vs < bytes.length := by omega
    refine ⟨(bytes[pos + ks], bytes[pos + ks + 1 + vs]) :: separators, rest, ?_, ?_, ?_⟩
    · rw [length_cons, length_cons, hLength]
    · rw [sizesOf, map_cons, ← sizesOf, ← hSizes, length_take, length_take,
        length_drop, length_drop, Nat.min_eq_left (by omega),
        Nat.min_eq_left (by omega)]
    · rw [dataWith, zip_cons_cons, flatMap_cons, ← dataWith, append_assoc, ← hDrop,
        drop_eq_take_append hKey]
      conv => lhs; rw [drop_eq_take_append hVal]
      simp

theorem take_of_decodePairs (hne : pairs ≠ []) (h : decodePairs bytes = some pairs) :
    ∃ separators, separators.length = pairs.length ∧
      bytes.take (encodePairs pairs).length = encodeWith separators pairs := by
  unfold decodePairs at h
  split_ifs at h with hEmpty hZero hShort
  · cases h
    exact absurd rfl hne
  · cases h
    exact absurd rfl hne
  simp only [bind_eq_bind, bind_eq_some_iff] at h
  obtain ⟨count, hCount, h⟩ := h
  split_ifs at h with hRoom
  obtain ⟨sizes, hSizes, hData⟩ := bind_eq_some_iff.mp h
  obtain ⟨hLength, hMiddle⟩ := drop_of_decodeSizes hSizes
  obtain ⟨separators, rest, hSeparators, rfl, hLast⟩ := drop_of_decodeData hData
  have hFirst := drop_of_u32FromSlice hCount
  have hPairs : pairs.length = count := by rw [← hLength, sizesOf, length_map]
  refine ⟨separators, hSeparators, ?_⟩
  have hAll : bytes = encodeWith separators pairs ++ rest := by
    rw [encodeWith, append_assoc, append_assoc, ← hLast, ← hMiddle, hPairs]
    exact hFirst
  rw [← length_encodeWith hSeparators]
  conv => lhs; rw [hAll]
  exact take_left

/-! ## The codec -/

/-- Pairs are read back as they were written, and what is read as pairs is, up to the separators,
how they are written. -/
theorem pairsCodec :
    (∀ pairs : Pairs, pairs.length < 2 ^ 32 →
      (∀ p ∈ pairs, p.1.length < 2 ^ 32 ∧ p.2.length < 2 ^ 32) →
      decodePairs (encodePairs pairs) = some pairs) ∧
    ∀ (bytes : Bytes) (pairs : Pairs), pairs ≠ [] → decodePairs bytes = some pairs →
      ∃ separators, separators.length = pairs.length ∧
        bytes.take (encodePairs pairs).length = encodeWith separators pairs := by
  refine ⟨?_, fun bytes pairs hne h => take_of_decodePairs hne h⟩
  intro pairs hCount hSizes
  rw [encodePairs_eq]
  exact decodePairs_encodeWith length_replicate hCount hSizes

theorem pairsCodec_nul :
    decodePairs (encodePairs [([0], []), ([], [1, 0])]) = some [([0], []), ([], [1, 0])] ∧
      ∃ separators, separators.length = [(([7] : Bytes), ([] : Bytes))].length ∧
        ([1, 0, 0, 0, 1, 0, 0, 0, 0, 0, 0, 0, 7, 5, 6, 9] : Bytes).take
          (encodePairs [([7], [])]).length = encodeWith separators [([7], [])] :=
  ⟨pairsCodec.1 _ (by decide) (by decide), pairsCodec.2 _ _ (by decide) (by decide)⟩

end Spacegate.PluginWasm
