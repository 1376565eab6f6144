import ReticulumProtocols.Wire.BigEndian

/-! SHA-256 over byte strings, and HMAC over it. The hash is executable, so a digest of a
concrete input can be computed where a result depends on two digests being different. -/

namespace ReticulumProtocols.Wire.Sha256
open List

abbrev Word := UInt32

structure State where
  a : Word
  b : Word
  c : Word
  d : Word
  e : Word
  f : Word
  g : Word
  h : Word
  deriving DecidableEq, Repr

def rotateRight (word count : Word) : Word := (word >>> count) ||| (word <<< (32 - count))

def upperSigma0 (x : Word) : Word := rotateRight x 2 ^^^ rotateRight x 13 ^^^ rotateRight x 22
def upperSigma1 (x : Word) : Word := rotateRight x 6 ^^^ rotateRight x 11 ^^^ rotateRight x 25
def lowerSigma0 (x : Word) : Word := rotateRight x 7 ^^^ rotateRight x 18 ^^^ (x >>> 3)
def lowerSigma1 (x : Word) : Word := rotateRight x 17 ^^^ rotateRight x 19 ^^^ (x >>> 10)

def choose (x y z : Word) : Word := (x &&& y) ^^^ (~~~x &&& z)
def majority (x y z : Word) : Word := (x &&& y) ^^^ (x &&& z) ^^^ (y &&& z)

def roundConstants : List Word := [
  0x428a2f98, 0x71374491, 0xb5c0fbcf, 0xe9b5dba5, 0x3956c25b, 0x59f111f1, 0x923f82a4, 0xab1c5ed5,
  0xd807aa98, 0x12835b01, 0x243185be, 0x550c7dc3, 0x72be5d74, 0x80deb1fe, 0x9bdc06a7, 0xc19bf174,
  0xe49b69c1, 0xefbe4786, 0x0fc19dc6, 0x240ca1cc, 0x2de92c6f, 0x4a7484aa, 0x5cb0a9dc, 0x76f988da,
  0x983e5152, 0xa831c66d, 0xb00327c8, 0xbf597fc7, 0xc6e00bf3, 0xd5a79147, 0x06ca6351, 0x14292967,
  0x27b70a85, 0x2e1b2138, 0x4d2c6dfc, 0x53380d13, 0x650a7354, 0x766a0abb, 0x81c2c92e, 0x92722c85,
  0xa2bfe8a1, 0xa81a664b, 0xc24b8b70, 0xc76c51a3, 0xd192e819, 0xd6990624, 0xf40e3585, 0x106aa070,
  0x19a4c116, 0x1e376c08, 0x2748774c, 0x34b0bcb5, 0x391c0cb3, 0x4ed8aa4a, 0x5b9cca4f, 0x682e6ff3,
  0x748f82ee, 0x78a5636f, 0x84c87814, 0x8cc70208, 0x90befffa, 0xa4506ceb, 0xbef9a3f7, 0xc67178f2]

def initialState : State :=
  ⟨0x6a09e667, 0xbb67ae85, 0x3c6ef372, 0xa54ff53a, 0x510e527f, 0x9b05688c, 0x1f83d9ab, 0x5be0cd19⟩

def round (s : State) (constant word : Word) : State :=
  let first := s.h + upperSigma1 s.e + choose s.e s.f s.g + constant + word
  let second := upperSigma0 s.a + majority s.a s.b s.c
  ⟨first + second, s.a, s.b, s.c, s.d + first, s.e, s.f, s.g⟩

/-- One round per constant; the sixteen-word window slides along the message schedule. -/
def rounds : List Word → List Word → State → State
  | [], _, s => s
  | _ :: _, [], s => s
  | constant :: constants, word :: window, s =>
    let next := lowerSigma1 (window.getD 13 0) + window.getD 8 0 +
      lowerSigma0 (window.getD 0 0) + word
    rounds constants (window ++ [next]) (round s constant word)

def words : Nat → Bytes → List Word
  | 0, _ => []
  | count + 1, bytes => UInt32.ofNat (beNat (bytes.take 4)) :: words count (bytes.drop 4)

def State.add (s t : State) : State :=
  ⟨s.a + t.a, s.b + t.b, s.c + t.c, s.d + t.d, s.e + t.e, s.f + t.f, s.g + t.g, s.h + t.h⟩

def compress (s : State) (block : Bytes) : State :=
  s.add (rounds roundConstants (words 16 block) s)

def absorb : Nat → Bytes → State → State
  | 0, _, s => s
  | count + 1, bytes, s => absorb count (bytes.drop 64) (compress s (bytes.take 64))

def pad (message : Bytes) : Bytes :=
  message ++ 0x80 :: (replicate ((119 - message.length % 64) % 64) 0 ++
    be 8 (8 * message.length))

def State.bytes (s : State) : Bytes :=
  [s.a, s.b, s.c, s.d, s.e, s.f, s.g, s.h].flatMap fun word => be 4 word.toNat

theorem State.length_bytes (s : State) : s.bytes.length = 32 := by simp [State.bytes]

def sha256 (message : Bytes) : Bytes :=
  (absorb ((pad message).length / 64) (pad message) initialState).bytes

/-- The message schedule by one word more. -/
def grow (schedule : List Word) : List Word :=
  let i := schedule.length
  schedule ++ [lowerSigma1 (schedule.getD (i - 2) 0) + schedule.getD (i - 7) 0 +
    lowerSigma0 (schedule.getD (i - 15) 0) + schedule.getD (i - 16) 0]

theorem length_grow (schedule : List Word) : (grow schedule).length = schedule.length + 1 := length_append

theorem length_iterate_grow (count : Nat) (schedule : List Word) :
    (grow^[count] schedule).length = schedule.length + count := by
  induction count generalizing schedule with
  | zero => rfl
  | succ count ih => rw [Function.iterate_succ_apply, ih, length_grow, Nat.add_right_comm, Nat.add_assoc]

theorem iterate_grow (count : Nat) (schedule : List Word) : ∃ more, grow^[count] schedule = schedule ++ more := by
  induction count generalizing schedule with
  | zero => exact ⟨[], (append_nil schedule).symm⟩
  | succ count ih =>
    obtain ⟨more, grown⟩ := ih (grow schedule)
    rw [Function.iterate_succ_apply, grown, grow, append_assoc]
    exact ⟨_, rfl⟩

/-- The window slides along the schedule. -/
theorem rounds_drop (constants schedule : List Word) (done : Nat) (long : schedule.length = done + 16) (s : State) :
    rounds constants (schedule.drop done) s =
      (constants.zip ((grow^[constants.length] schedule).drop done)).foldl (fun s entry => round s entry.1 entry.2) s := by
  induction constants generalizing schedule done s with
  | nil => rw [rounds, zip_nil_left, foldl_nil]
  | cons constant constants ih =>
    have inside : done < schedule.length := by omega
    -- the first word of the window is the one the fold meets next
    have first {whole : List Word} (rest : List Word) (prolonged : whole = schedule ++ rest) :
        whole.drop done = schedule.get ⟨done, inside⟩ :: whole.drop (done + 1) := by
      have inside' : done < whole.length := by
        rw [prolonged, length_append]
        omega
      rw [drop_eq_getElem_cons inside', get_eq_getElem]
      congr 1
      exact (getElem_of_eq prolonged inside').trans (getElem_append_left inside)
    have window (k : Nat) : (schedule.drop (done + 1)).getD k 0 = schedule.getD (done + 1 + k) 0 := by
      rw [getD_eq_getElem?_getD, List.getElem?_drop, getD_eq_getElem?_getD]
    have next : (grow schedule).drop (done + 1) = schedule.drop (done + 1) ++
        [lowerSigma1 ((schedule.drop (done + 1)).getD 13 0) + (schedule.drop (done + 1)).getD 8 0 +
          lowerSigma0 ((schedule.drop (done + 1)).getD 0 0) + schedule.get ⟨done, inside⟩] := by
      rw [grow, drop_append_of_le_length inside]
      simp only [window, long, Nat.add_sub_cancel, get_eq_getElem, getD_eq_getElem schedule 0 inside]
      rfl
    obtain ⟨more, grown⟩ := iterate_grow (constants.length + 1) schedule
    rw [length_cons, first more grown, zip_cons_cons, foldl_cons, Function.iterate_succ_apply,
      ← ih (grow schedule) (done + 1) (by rw [length_grow, long]), next, first [] (append_nil _).symm, rounds]

theorem length_words (count : Nat) (bytes : Bytes) : (words count bytes).length = count := by
  induction count generalizing bytes with
  | zero => rfl
  | succ count ih => rw [words, length_cons, ih]

theorem words_eq_map (count : Nat) (bytes : Bytes) :
    words count bytes = (range count).map fun i => UInt32.ofNat (beNat ((bytes.drop (i * 4)).take 4)) := by
  induction count generalizing bytes with
  | zero => rfl
  | succ count ih =>
    rw [words, ih, range_succ_eq_map, map_cons, map_map, Nat.zero_mul, drop_zero]
    congr 2
    funext i
    rw [Function.comp_apply, drop_drop, Nat.succ_mul, Nat.add_comm]

/-- A block is compressed with the words of the schedule written out. -/
theorem compress_schedule (s : State) (block : Bytes) :
    compress s block = s.add ((roundConstants.zip (grow^[48] (words 16 block))).foldl
      (fun s entry => round s entry.1 entry.2) s) := by
  have slides := rounds_drop roundConstants (words 16 block) 0 (length_words 16 block) s
  rw [drop_zero, drop_zero] at slides
  obtain ⟨more, grown⟩ := iterate_grow 16 (grow^[48] (words 16 block))
  have long : roundConstants.length = (grow^[48] (words 16 block)).length := by
    rw [length_iterate_grow, length_words]
    rfl
  have split : grow^[roundConstants.length] (words 16 block) = grow^[48] (words 16 block) ++ more :=
    (Function.iterate_add_apply grow 16 48 (words 16 block)).trans grown
  have shorter : roundConstants.zip (grow^[48] (words 16 block) ++ more) =
      roundConstants.zip (grow^[48] (words 16 block)) := by
    have parts : (roundConstants ++ []).zip (grow^[48] (words 16 block) ++ more) =
        roundConstants.zip (grow^[48] (words 16 block)) ++ List.zip [] more := zip_append long
    rwa [append_nil, zip_nil_left, append_nil] at parts
  rw [compress, slides, split, shorter]

theorem absorb_succ (count : Nat) (bytes : Bytes) (s : State) :
    absorb (count + 1) bytes s = absorb count (bytes.drop 64) (compress s (bytes.take 64)) := by
  -- unfolded first, so that no attempt is made to compare the two states
  delta absorb
  rfl

/-- Whole blocks in front are absorbed first. -/
theorem absorb_append {first : Nat} {blocks : Bytes} (whole : blocks.length = 64 * first) (second : Nat) (rest : Bytes)
    (s : State) : absorb (first + second) (blocks ++ rest) s = absorb second rest (absorb first blocks s) := by
  induction first generalizing blocks s with
  | zero =>
    have empty : blocks = [] := length_eq_zero_iff.1 whole
    rw [empty, Nat.zero_add]
    rfl
  | succ first ih =>
    have long : 64 ≤ blocks.length := by omega
    have tail : (blocks.drop 64).length = 64 * first := by
      rw [length_drop]
      omega
    calc absorb (first + 1 + second) (blocks ++ rest) s
        = absorb (first + second + 1) (blocks ++ rest) s := by rw [Nat.add_right_comm]
      _ = absorb (first + second) (blocks.drop 64 ++ rest) (compress s (blocks.take 64)) := by
        rw [absorb_succ, take_append_of_le_length long, drop_append_of_le_length long]
      _ = absorb second rest (absorb (first + 1) blocks s) := by rw [ih tail, absorb_succ]

/-- The digest of a message by its whole blocks and the rest, whose padding fills one block or two. -/
theorem sha256_append {count : Nat} {blocks rest : Bytes} (whole : blocks.length = 64 * count) (short : rest.length < 64) :
    sha256 (blocks ++ rest) =
      (absorb (if rest.length < 56 then 1 else 2)
        (rest ++ 0x80 :: (replicate ((119 - rest.length) % 64) 0 ++ be 8 (8 * (blocks ++ rest).length)))
        (absorb count blocks initialState)).bytes := by
  have remainder : (blocks ++ rest).length % 64 = rest.length := by
    rw [length_append, whole, Nat.mul_add_mod, Nat.mod_eq_of_lt short]
  have padded : pad (blocks ++ rest) = blocks ++
      (rest ++ 0x80 :: (replicate ((119 - rest.length) % 64) 0 ++ be 8 (8 * (blocks ++ rest).length))) := by
    rw [pad, remainder, append_assoc]
  have length : (pad (blocks ++ rest)).length / 64 = count + if rest.length < 56 then 1 else 2 := by
    rw [padded]
    simp only [length_append, length_cons, length_replicate, be_length, whole]
    split <;> omega
  rw [sha256, length, padded, absorb_append whole]

/-- What Go's `MarshalBinary` writes once a message has been hashed in part: the chaining value after its whole
blocks, the bytes left over in a buffer of one block, and the length. -/
def marshalBinary (message : Bytes) : Bytes :=
  let count := message.length / 64
  let buffered := message.drop (64 * count)
  [0x73, 0x68, 0x61, 0x03] ++ (absorb count message initialState).bytes ++
    (buffered ++ replicate (64 - buffered.length) 0 ++ be 8 message.length)

@[simp] theorem sha256_length (message : Bytes) : (sha256 message).length = 32 :=
  State.length_bytes _

example : (sha256 [0x61, 0x62, 0x63]).take 4 = [0xba, 0x78, 0x16, 0xbf] := by decide +kernel

/-- An HMAC key fills one block; a longer key is hashed first. -/
def hmacKey (key : Bytes) : Bytes :=
  let short := if key.length ≤ 64 then key else sha256 key
  short ++ replicate (64 - short.length) 0

def hmac (key message : Bytes) : Bytes :=
  sha256 ((hmacKey key).map (· ^^^ 0x5c) ++ sha256 ((hmacKey key).map (· ^^^ 0x36) ++ message))

end ReticulumProtocols.Wire.Sha256
