import ReticulumProtocols.Wire.Sha256Resume

/-! Hashing many stamps after one workblock. The state of SHA-256 after the whole blocks of the workblock is
kept, and each stamp is hashed from there with a compression function of its own. -/

namespace ReticulumProtocols.Lxmf
open Wire Sha256 List

/-- `bits.RotateLeft32`, which rotates to the right by a negative count. -/
def rotateLeft32 (x : Word) (k : Int) : Word :=
  let s := UInt32.ofNat (k % 32).toNat
  (x <<< s) ||| (x >>> (32 - s))

/-- The sixteen words of a block, and then the rest of the schedule. -/
def sha256Schedule (block : Bytes) : List Word :=
  (List.range' 16 48).foldl (fun w i =>
    let v1 := w.getD (i - 2) 0
    let s1 := rotateLeft32 v1 (-17) ^^^ rotateLeft32 v1 (-19) ^^^ (v1 >>> 10)
    let v0 := w.getD (i - 15) 0
    let s0 := rotateLeft32 v0 (-7) ^^^ rotateLeft32 v0 (-18) ^^^ (v0 >>> 3)
    w ++ [s1 + w.getD (i - 7) 0 + s0 + w.getD (i - 16) 0])
    ((range 16).map fun i => UInt32.ofNat (beNat ((block.drop (i * 4)).take 4)))

def sha256Turn (s : State) (k w : Word) : State :=
  let s1 := rotateLeft32 s.e (-6) ^^^ rotateLeft32 s.e (-11) ^^^ rotateLeft32 s.e (-25)
  let ch := (s.e &&& s.f) ^^^ (~~~s.e &&& s.g)
  let t1 := s.h + s1 + ch + k + w
  let s0 := rotateLeft32 s.a (-2) ^^^ rotateLeft32 s.a (-13) ^^^ rotateLeft32 s.a (-22)
  let maj := (s.a &&& s.b) ^^^ (s.a &&& s.c) ^^^ (s.b &&& s.c)
  let t2 := s0 + maj
  ⟨t1 + t2, s.a, s.b, s.c, s.d + t1, s.e, s.f, s.g⟩

def sha256Compress (h : State) (block : Bytes) : State :=
  let w := sha256Schedule block
  h.add ((range 64).foldl (fun s i => sha256Turn s (roundConstants.getD i 0) (w.getD i 0)) h)

theorem rotateLeft32_eq (x count : Word) (k : Int) (turns : UInt32.ofNat (k % 32).toNat = 32 - count) :
    rotateLeft32 x k = rotateRight x count := by
  have back : 32 - (32 - count) = count := by grind
  rw [rotateLeft32, turns, Sha256.rotateRight, UInt32.or_comm, back]

theorem sha256Turn_eq_round (s : State) (k w : Word) : sha256Turn s k w = round s k w := by
  have s1 : rotateLeft32 s.e (-6) ^^^ rotateLeft32 s.e (-11) ^^^ rotateLeft32 s.e (-25) = upperSigma1 s.e := by
    rw [upperSigma1, rotateLeft32_eq s.e 6 (-6) (by decide), rotateLeft32_eq s.e 11 (-11) (by decide),
      rotateLeft32_eq s.e 25 (-25) (by decide)]
  have s0 : rotateLeft32 s.a (-2) ^^^ rotateLeft32 s.a (-13) ^^^ rotateLeft32 s.a (-22) = upperSigma0 s.a := by
    rw [upperSigma0, rotateLeft32_eq s.a 2 (-2) (by decide), rotateLeft32_eq s.a 13 (-13) (by decide),
      rotateLeft32_eq s.a 22 (-22) (by decide)]
  rw [sha256Turn, s1, s0]
  rfl

/-- A loop that appends one word in each turn, at the index it has come to. -/
theorem foldl_range'_grow {turn : List Word → Nat → List Word} (grows : ∀ w : List Word, turn w w.length = grow w)
    (count : Nat) (w : List Word) : (List.range' w.length count).foldl turn w = grow^[count] w := by
  induction count generalizing w with
  | zero => rfl
  | succ count ih =>
    rw [range'_succ, foldl_cons, grows, Function.iterate_succ_apply, ← ih (grow w), length_grow]

theorem sha256Schedule_eq (block : Bytes) : sha256Schedule block = grow^[48] (words 16 block) := by
  have start : (words 16 block).length = 16 := length_words 16 block
  rw [sha256Schedule, ← words_eq_map, ← foldl_range'_grow _ 48 (words 16 block), start]
  intro w
  simp only [grow, lowerSigma1, lowerSigma0]
  rw [rotateLeft32_eq _ 17 (-17) (by decide), rotateLeft32_eq _ 19 (-19) (by decide),
    rotateLeft32_eq _ 7 (-7) (by decide), rotateLeft32_eq _ 18 (-18) (by decide)]

/-- A loop over the indices of two lists goes through their pairs. -/
theorem foldl_range_getD {α : Type} (turn : α → Word → Word → α) {ks ws : List Word} (same : ks.length = ws.length)
    (start : α) :
    (range ks.length).foldl (fun s i => turn s (ks.getD i 0) (ws.getD i 0)) start =
      (ks.zip ws).foldl (fun s entry => turn s entry.1 entry.2) start := by
  have pairs : ks.zip ws = (range ks.length).map fun i => (ks.getD i 0, ws.getD i 0) := by
    apply ext_getElem
    · rw [length_zip, length_map, length_range, ← same, min_self]
    · intro i inZip inRange
      rw [length_map, length_range] at inRange
      rw [getElem_zip, getElem_map, getElem_range, getD_eq_getElem _ _ inRange,
        getD_eq_getElem _ _ (same ▸ inRange)]
  rw [pairs, foldl_map]

theorem sha256Compress_eq (h : State) (block : Bytes) : sha256Compress h block = compress h block := by
  have long : roundConstants.length = (grow^[48] (words 16 block)).length := by
    rw [length_iterate_grow, length_words]
    rfl
  have pairs := foldl_range_getD sha256Turn long h
  rw [sha256Compress, compress_schedule, sha256Schedule_eq]
  simp only [sha256Turn_eq_round] at pairs ⊢
  exact congrArg h.add pairs

structure Sha256Midstate where
  h : State
  rem : Bytes
  prefixLen : Nat
  marshaled : Bytes

inductive MidstateError where
  | truncated
  deriving DecidableEq, Repr

/-- `midstateOfPrefix`, where `MarshalBinary` of the standard library fails in no case. -/
def midstateOfPrefix (data : Bytes) : Except MidstateError Sha256Midstate :=
  let n := data.length / 64 * 64
  let raw := marshalBinary (data.take n)
  if raw.length < 4 + 32 then .error .truncated
  else
    let word := fun i => UInt32.ofNat (beNat ((raw.drop (4 + 4 * i)).take 4))
    let h : State := ⟨word 0, word 1, word 2, word 3, word 4, word 5, word 6, word 7⟩
    let rem := data.drop n
    .ok { h, rem, prefixLen := data.length
          marshaled := [0x73, 0x68, 0x61, 0x03] ++ h.bytes ++ (rem ++ replicate 64 0).take 64 ++
            be 8 data.length }

/-- `copy(buf[off:], src)`: what the buffer holds then, and how much was copied. -/
def copyAt (buf : Bytes) (off : Nat) (src : Bytes) : Bytes × Nat :=
  let n := min (buf.length - off) src.length
  (buf.take off ++ (src.take n ++ buf.drop (off + n)), n)

def compressBlocks (buf : Bytes) (n off : Nat) (h : State) : State × Nat :=
  if off + 64 ≤ n then compressBlocks buf n (off + 64) (sha256Compress h ((buf.drop off).take 64)) else (h, off)
termination_by n - off

/-- The last block, or two if the length does not fit behind the rest. -/
def compressLast (h : State) (rest : Bytes) (bitLen : Nat) : State :=
  let remn := rest.length
  let block := (copyAt (replicate 64 0) 0 rest).1.set remn 0x80
  let (h, block) := if remn ≥ 56 then (sha256Compress h block, replicate 64 0) else (h, block)
  sha256Compress h (copyAt block 56 (be 8 bitLen)).1

def hashMidstateStamp (ms : Sha256Midstate) (stamp : Bytes) : Bytes :=
  let (buf, n) := copyAt (replicate 128 0) 0 ms.rem
  let (buf, m) := copyAt buf n stamp
  let n := n + m
  let (h, off) := compressBlocks buf n 0 ms.h
  (compressLast h ((buf.drop off).take (n - off)) ((ms.prefixLen + stamp.length) * 8)).bytes

theorem midstateOfPrefix_ok (data : Bytes) : midstateOfPrefix data = .ok
    { h := absorb (data.length / 64) (data.take (data.length / 64 * 64)) initialState
      rem := data.drop (data.length / 64 * 64), prefixLen := data.length
      marshaled := [0x73, 0x68, 0x61, 0x03] ++
        (absorb (data.length / 64) (data.take (data.length / 64 * 64)) initialState).bytes ++
        (data.drop (data.length / 64 * 64) ++ replicate 64 0).take 64 ++ be 8 data.length } := by
  have count : (data.take (data.length / 64 * 64)).length / 64 = data.length / 64 := by
    rw [length_take, Nat.min_eq_left (Nat.div_mul_le_self _ _), Nat.mul_div_cancel _ (by decide)]
  rw [midstateOfPrefix, marshalBinary, count]
  generalize absorb (data.length / 64) (data.take (data.length / 64 * 64)) initialState = h
  have long (rest : Bytes) : ¬([0x73, 0x68, 0x61, 0x03] ++ h.bytes ++ rest).length < 4 + 32 := by
    rw [length_append, length_append, State.length_bytes]
    exact Nat.not_lt.2 (Nat.le_add_right 36 rest.length)
  dsimp only
  rw [if_neg (long _), state_of_words]

theorem copyAt_append {front back src : Bytes} {off : Nat} (start : front.length = off) (fits : src.length ≤ back.length) :
    copyAt (front ++ back) off src = (front ++ (src ++ back.drop src.length), src.length) := by
  have copied : min ((front ++ back).length - front.length) src.length = src.length := by
    rw [length_append, Nat.add_sub_cancel_left, Nat.min_eq_right fits]
  rw [← start, copyAt, copied, take_left, take_length, drop_length_add_append]

theorem copyAt_zeros {src : Bytes} {size : Nat} (fits : src.length ≤ size) :
    copyAt (replicate size 0) 0 src = (src ++ replicate (size - src.length) 0, src.length) := by
  have whole := copyAt_append (length_nil) (fits.trans (length_replicate (a := (0 : UInt8))).ge)
  rwa [nil_append, nil_append, drop_replicate] at whole

theorem compressBlocks_eq (buf : Bytes) (n off : Nat) (h : State) :
    compressBlocks buf n off h = (absorb ((n - off) / 64) (buf.drop off) h, off + 64 * ((n - off) / 64)) := by
  fun_induction compressBlocks buf n off h with
  | case1 off h more ih =>
    have count : (n - off) / 64 = (n - (off + 64)) / 64 + 1 := by omega
    rw [ih, count, absorb_succ, sha256Compress_eq, drop_drop, Nat.mul_succ, Nat.add_assoc, Nat.add_comm 64]
  | case2 off h done =>
    have count : (n - off) / 64 = 0 := by omega
    rw [count]
    rfl

theorem absorb_one (bytes : Bytes) (long : bytes.length = 64) (h : State) : absorb 1 bytes h = compress h bytes := by
  rw [absorb_succ, take_of_length_le long.le]
  rfl

/-- The code writes the padding in place. -/
theorem compressLast_eq (h : State) {rest : Bytes} (short : rest.length < 64) (bitLen : Nat) :
    compressLast h rest bitLen = absorb (if rest.length < 56 then 1 else 2)
      (rest ++ 0x80 :: (replicate ((119 - rest.length) % 64) 0 ++ be 8 bitLen)) h := by
  have block : (copyAt (replicate 64 0) 0 rest).1.set rest.length 0x80 =
      rest ++ 0x80 :: replicate (63 - rest.length) 0 := by
    have room : 64 - rest.length = 63 - rest.length + 1 := by omega
    rw [copyAt_zeros short.le, set_append_right _ _ le_rfl, Nat.sub_self, room, replicate_succ]
    rfl
  rw [compressLast, block]
  by_cases one : rest.length < 56
  · have zeros : (119 - rest.length) % 64 = 55 - rest.length := by omega
    have split : rest ++ 0x80 :: replicate (63 - rest.length) 0 =
        (rest ++ 0x80 :: replicate (55 - rest.length) 0) ++ replicate 8 0 := by
      rw [append_assoc, cons_append, replicate_append_replicate]
      congr 3
      omega
    have front : (rest ++ 0x80 :: replicate (55 - rest.length) (0 : UInt8)).length = 56 := by
      rw [length_append, length_cons, length_replicate]
      omega
    have long : (rest ++ 0x80 :: (replicate (55 - rest.length) 0 ++ be 8 bitLen)).length = 64 := by
      rw [length_append, length_cons, length_append, length_replicate, be_length]
      omega
    rw [if_neg (Nat.not_le.2 one), if_pos one, zeros, absorb_one _ long]
    dsimp only
    rw [sha256Compress_eq, split, copyAt_append front (be_length 8 bitLen).le]
    dsimp only
    rw [be_length, drop_replicate, Nat.sub_self, replicate_zero, append_nil, append_assoc,
      cons_append]
  · have first : (rest ++ 0x80 :: replicate (63 - rest.length) (0 : UInt8)).length = 64 * 1 := by
      rw [length_append, length_cons, length_replicate]
      omega
    have second : (replicate 56 0 ++ be 8 bitLen).length = 64 := by
      rw [length_append, length_replicate, be_length]
    have written : (copyAt (replicate 64 0) 56 (be 8 bitLen)).1 = replicate 56 0 ++ be 8 bitLen := by
      have whole := copyAt_append (length_replicate (n := 56) (a := (0 : UInt8)))
        ((be_length 8 bitLen).trans (length_replicate (n := 8) (a := (0 : UInt8))).symm).le
      rw [replicate_append_replicate, be_length, drop_replicate, Nat.sub_self, replicate_zero,
        append_nil] at whole
      exact congrArg Prod.fst whole
    have split : rest ++ 0x80 :: (replicate ((119 - rest.length) % 64) 0 ++ be 8 bitLen) =
        (rest ++ 0x80 :: replicate (63 - rest.length) 0) ++ (replicate 56 0 ++ be 8 bitLen) := by
      have zeros : (119 - rest.length) % 64 = 63 - rest.length + 56 := by omega
      rw [zeros, ← replicate_append_replicate, append_assoc, append_assoc, cons_append]
    rw [if_pos (Nat.not_lt.1 one), if_neg one, split]
    dsimp only
    rw [written, sha256Compress_eq, sha256Compress_eq, absorb_append first 1, absorb_one _ first, absorb_one _ second]

/-- The buffer holds the rest of the workblock and the stamp, of which whole blocks are taken first. -/
theorem hashMidstateStamp_split {ms : Sha256Midstate} {stamp front rest : Bytes} {full : Nat}
    (split : ms.rem ++ stamp = front ++ rest) (whole : front.length = 64 * full) (short : rest.length < 64)
    (fits : ms.rem.length + stamp.length ≤ 128) :
    hashMidstateStamp ms stamp =
      (compressLast (absorb full front ms.h) rest ((ms.prefixLen + stamp.length) * 8)).bytes := by
  have first : ms.rem.length ≤ 128 := by omega
  have room : stamp.length ≤ (replicate (128 - ms.rem.length) (0 : UInt8)).length := by
    rw [length_replicate]
    omega
  have total : ms.rem.length + stamp.length = 64 * full + rest.length := by
    rw [← length_append, split, length_append, whole]
  have blocks : (64 * full + rest.length - 0) / 64 = full := by omega
  rw [hashMidstateStamp, copyAt_zeros first]
  dsimp only
  rw [copyAt_append rfl room]
  dsimp only
  rw [← append_assoc, split, compressBlocks_eq, total, blocks]
  generalize (replicate (128 - ms.rem.length) (0 : UInt8)).drop stamp.length = zeros
  have absorbed : absorb full (front ++ (rest ++ zeros)) ms.h = absorb full front ms.h := absorb_append whole 0 _ ms.h
  dsimp only
  rw [drop_zero, Nat.zero_add, Nat.add_sub_cancel_left, append_assoc, absorbed, ← whole, drop_left,
    take_left]

/-- The hash of a stamp from the midstate is the hash of the whole. -/
theorem hashMidstateStamp_eq_sha256 (data stamp : Bytes) (fits : data.length % 64 + stamp.length ≤ 128) :
    ∃ ms, midstateOfPrefix data = .ok ms ∧ hashMidstateStamp ms stamp = sha256 (data ++ stamp) := by
  refine ⟨_, midstateOfPrefix_ok data, ?_⟩
  have parts : data.take (data.length / 64 * 64) ++ data.drop (data.length / 64 * 64) = data := take_append_drop _ _
  have whole : (data.take (data.length / 64 * 64)).length = 64 * (data.length / 64) := by
    rw [length_take]
    omega
  have left : (data.drop (data.length / 64 * 64)).length = data.length % 64 := by
    rw [length_drop]
    omega
  generalize data.take (data.length / 64 * 64) = blocks at *
  generalize data.drop (data.length / 64 * 64) = rem at *
  -- the rest of the workblock and the stamp, cut where the last whole block ends
  have cut : rem ++ stamp = (rem ++ stamp).take (64 * ((rem ++ stamp).length / 64)) ++
      (rem ++ stamp).drop (64 * ((rem ++ stamp).length / 64)) := (take_append_drop _ _).symm
  have full : ((rem ++ stamp).take (64 * ((rem ++ stamp).length / 64))).length = 64 * ((rem ++ stamp).length / 64) := by
    rw [length_take]
    omega
  have short : ((rem ++ stamp).drop (64 * ((rem ++ stamp).length / 64))).length < 64 := by
    rw [length_drop]
    omega
  generalize (rem ++ stamp).take (64 * ((rem ++ stamp).length / 64)) = front at *
  generalize (rem ++ stamp).drop (64 * ((rem ++ stamp).length / 64)) = rest at *
  have together : data ++ stamp = (blocks ++ front) ++ rest := by
    rw [← parts, append_assoc, cut, append_assoc]
  have aligned : (blocks ++ front).length = 64 * (data.length / 64 + (rem ++ stamp).length / 64) := by
    rw [length_append, whole, full, Nat.mul_add]
  have length : (data.length + stamp.length) * 8 = 8 * (blocks ++ front ++ rest).length := by
    rw [← together, length_append, Nat.mul_comm]
  rw [hashMidstateStamp_split cut full short (left ▸ fits), compressLast_eq _ short, together, sha256_append aligned short,
    absorb_append whole, length]

/-- A buffer filled to its end, whose padding takes a block of its own. -/
theorem hashMidstateStamp_filled :
    ∃ ms, midstateOfPrefix (replicate 124 0x2a) = .ok ms ∧
      hashMidstateStamp ms (replicate 68 0x17) = sha256 (replicate 124 0x2a ++ replicate 68 0x17) :=
  hashMidstateStamp_eq_sha256 _ _ (by simp)

end ReticulumProtocols.Lxmf
