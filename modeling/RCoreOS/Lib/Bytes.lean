import Mathlib

/-!
# Fixed-size byte buffers and little-endian words

A buffer of `size` bytes is read and written through three total accessors:
one byte, a run of bytes, and a little-endian word of any width.  Reading
outside a buffer gives zero and writing outside has no effect, so callers
state bounds only where they matter.

The two round trips of the word codec are exact for every width that is a
whole number of bytes: decoding the bytes of a word gives the word back, and
encoding a decoded word gives the bytes back.
-/

namespace RCoreOS.Lib.Bytes

/-- A buffer of exactly `size` bytes. -/
abbrev Buffer (size : Nat) := Vector UInt8 size

variable {size : Nat}

/-! ## Single bytes -/

/-- The byte at `index`, or zero past the end. -/
def byteAt (buffer : Buffer size) (index : Nat) : UInt8 :=
  if inside : index < size then buffer[index] else 0

/-- The buffer whose byte at `index` is `bytes index`. -/
def ofBytes (bytes : Nat → UInt8) : Buffer size :=
  Vector.ofFn fun index => bytes index

variable {index bits offset count : Nat}

@[simp]
theorem byteAt_ofBytes (bytes : Nat → UInt8) (inside : index < size) :
    byteAt (ofBytes bytes : Buffer size) index = bytes index := by
  simp [byteAt, ofBytes, inside]

theorem byteAt_outside (buffer : Buffer size) (outside : size ≤ index) :
    byteAt buffer index = 0 := by
  simp [byteAt, Nat.not_lt.mpr outside]

/-- Two buffers with the same bytes are equal. -/
theorem buffer_ext {left right : Buffer size}
    (agree : ∀ index, index < size → byteAt left index = byteAt right index) :
    left = right := by
  apply Vector.ext
  intro index inside
  have equal := agree index inside
  simpa [byteAt, inside] using equal

/-- The all-zero buffer. -/
def zeros : Buffer size := ofBytes fun _ => 0

@[simp]
theorem byteAt_zeros (index : Nat) :
    byteAt (zeros : Buffer size) index = 0 := by
  by_cases inside : index < size
  · simp [zeros, inside]
  · exact byteAt_outside _ (Nat.not_lt.mp inside)

/-! ## Runs of bytes -/

/-- Overwrite the bytes from `offset` on with `source`. -/
def splice (buffer : Buffer size) (offset : Nat) (source : List UInt8) :
    Buffer size :=
  ofBytes fun index =>
    if offset ≤ index ∧ index < offset + source.length then
      source.getD (index - offset) 0
    else
      byteAt buffer index

theorem byteAt_splice (buffer : Buffer size) (offset : Nat)
    (source : List UInt8) (inside : index < size) :
    byteAt (splice buffer offset source) index =
      if offset ≤ index ∧ index < offset + source.length then
        source.getD (index - offset) 0
      else
        byteAt buffer index := by
  simp [splice, inside]

@[simp]
theorem splice_nil (buffer : Buffer size) (offset : Nat) :
    splice buffer offset [] = buffer := by
  apply buffer_ext
  intro index inside
  rw [byteAt_splice buffer offset [] inside]
  have empty : ¬ (offset ≤ index ∧ index < offset + ([] : List UInt8).length) := by
    simp
  rw [if_neg empty]

/-- The `count` bytes from `offset` on. -/
def slice (buffer : Buffer size) (offset count : Nat) : List UInt8 :=
  (List.range count).map fun index => byteAt buffer (offset + index)

@[simp]
theorem length_slice (buffer : Buffer size) (offset count : Nat) :
    (slice buffer offset count).length = count := by
  simp [slice]

theorem getD_slice (buffer : Buffer size) (offset count : Nat)
    (inside : index < count) :
    (slice buffer offset count).getD index 0 =
      byteAt buffer (offset + index) := by
  simp [slice, inside]

/-! ## Little-endian words -/

/-- The little-endian word of `bits` bits made of the bytes `bytes`. -/
def leWord (bits : Nat) (bytes : Nat → UInt8) : BitVec bits :=
  BitVec.ofFnLE fun index : Fin bits =>
    (bytes (index / 8)).toBitVec.getLsbD (index % 8)

/-- Byte `index` of the little-endian encoding of `word`. -/
def leByte {bits : Nat} (word : BitVec bits) (index : Nat) : UInt8 :=
  UInt8.ofBitVec
    (BitVec.ofFnLE fun position : Fin 8 => word.getLsbD (8 * index + position))

theorem getLsbD_leWord (bytes : Nat → UInt8) (inside : index < bits) :
    (leWord bits bytes).getLsbD index =
      (bytes (index / 8)).toBitVec.getLsbD (index % 8) := by
  simp [leWord, inside]

theorem getLsbD_leByte (word : BitVec bits) (index : Nat) {position : Nat}
    (inside : position < 8) :
    (leByte word index).toBitVec.getLsbD position =
      word.getLsbD (8 * index + position) := by
  simp [leByte, inside]

/-- Decoding depends only on the bytes that the word covers. -/
theorem leWord_congr {left right : Nat → UInt8}
    (agree : ∀ index, 8 * index < bits → left index = right index) :
    leWord bits left = leWord bits right := by
  apply BitVec.eq_of_getLsbD_eq
  intro index inside
  have covered : 8 * (index / 8) < bits := by omega
  rw [getLsbD_leWord left inside, getLsbD_leWord right inside,
    agree (index / 8) covered]

/-- Decoding the encoded bytes of a word gives the word. -/
@[simp]
theorem leWord_leByte (word : BitVec bits) :
    leWord bits (leByte word) = word := by
  apply BitVec.eq_of_getLsbD_eq
  intro index inside
  have inByte : index % 8 < 8 := Nat.mod_lt _ (by decide)
  rw [getLsbD_leWord _ inside, getLsbD_leByte word _ inByte, Nat.div_add_mod]

/-- Encoding a decoded word gives back each byte that lies inside it. -/
theorem leByte_leWord (bytes : Nat → UInt8) (covered : 8 * index + 8 ≤ bits) :
    leByte (leWord bits bytes) index = bytes index := by
  apply UInt8.toBitVec_inj.mp
  apply BitVec.eq_of_getLsbD_eq
  intro position inside
  have wordIndex : 8 * index + position < bits := by omega
  have byteIndex : (8 * index + position) / 8 = index := by omega
  have bitIndex : (8 * index + position) % 8 = position := by omega
  rw [getLsbD_leByte _ _ inside, getLsbD_leWord _ wordIndex, byteIndex, bitIndex]

/-- The word of `bits` bits stored from byte `offset` on. -/
def wordAt (bits : Nat) (buffer : Buffer size) (offset : Nat) : BitVec bits :=
  leWord bits fun index => byteAt buffer (offset + index)

theorem wordAt_congr {left right : Buffer size}
    (agree :
      ∀ index, 8 * index < bits →
        byteAt left (offset + index) = byteAt right (offset + index)) :
    wordAt bits left offset = wordAt bits right offset :=
  leWord_congr agree

/-- A word is read back when its bytes are the encoding of a known word. -/
theorem wordAt_eq_of_bytes {buffer : Buffer size} {word : BitVec bits}
    (bytes :
      ∀ index, 8 * index < bits →
        byteAt buffer (offset + index) = leByte word index) :
    wordAt bits buffer offset = word := by
  rw [wordAt, leWord_congr bytes, leWord_leByte]

@[simp]
theorem wordAt_zeros (bits offset : Nat) :
    wordAt bits (zeros : Buffer size) offset = 0 := by
  apply BitVec.eq_of_getLsbD_eq
  intro index inside
  rw [wordAt, getLsbD_leWord _ inside]
  simp

/-! ## Arrays of words -/

/-- The `count` words of `bits` bits stored from byte `offset` on. -/
def loadWords (bits count : Nat) (buffer : Buffer size) (offset : Nat) :
    Vector (BitVec bits) count :=
  Vector.ofFn fun index => wordAt bits buffer (offset + bits / 8 * index)

/-- Overwrite the bytes from `offset` on with the encoding of `words`. -/
def storeWords {bits count : Nat} (buffer : Buffer size) (offset : Nat)
    (words : Vector (BitVec bits) count) : Buffer size :=
  ofBytes fun index =>
    if inside : offset ≤ index ∧ (index - offset) / (bits / 8) < count then
      leByte words[(index - offset) / (bits / 8)]
        ((index - offset) % (bits / 8))
    else
      byteAt buffer index

theorem getElem_loadWords (buffer : Buffer size) (offset : Nat)
    (inside : index < count) :
    (loadWords bits count buffer offset)[index] =
      wordAt bits buffer (offset + bits / 8 * index) := by
  simp [loadWords]

theorem byteAt_storeWords_inside {buffer : Buffer size}
    {words : Vector (BitVec bits) count} {byte : Nat}
    (inWords : index < count) (inWord : byte < bits / 8)
    (fits : offset + bits / 8 * count ≤ size) :
    byteAt (storeWords buffer offset words)
        (offset + bits / 8 * index + byte) =
      leByte words[index] byte := by
  have inBuffer : offset + bits / 8 * index + byte < size := by
    have wordEnd : bits / 8 * (index + 1) ≤ bits / 8 * count :=
      Nat.mul_le_mul_left _ inWords
    rw [Nat.mul_add] at wordEnd
    omega
  have distance :
      offset + bits / 8 * index + byte - offset = bits / 8 * index + byte := by
    omega
  have quotient : (bits / 8 * index + byte) / (bits / 8) = index := by
    rw [Nat.mul_add_div (by omega), Nat.div_eq_of_lt inWord, Nat.add_zero]
  have remainder : (bits / 8 * index + byte) % (bits / 8) = byte := by
    rw [Nat.mul_add_mod, Nat.mod_eq_of_lt inWord]
  rw [storeWords, byteAt_ofBytes _ inBuffer, dif_pos]
  · simp only [distance, quotient, remainder]
  · constructor
    · omega
    · rw [distance, quotient]
      exact inWords

theorem byteAt_storeWords_outside {buffer : Buffer size}
    {words : Vector (BitVec bits) count}
    (outside : index < offset ∨ offset + bits / 8 * count ≤ index)
    (positive : 0 < bits / 8) :
    byteAt (storeWords buffer offset words) index = byteAt buffer index := by
  by_cases inBuffer : index < size
  · rw [storeWords, byteAt_ofBytes _ inBuffer, dif_neg]
    rintro ⟨afterOffset, inWords⟩
    rw [Nat.div_lt_iff_lt_mul positive, Nat.mul_comm] at inWords
    omega
  · rw [byteAt_outside _ (Nat.not_lt.mp inBuffer),
      byteAt_outside _ (Nat.not_lt.mp inBuffer)]

section

variable (whole : bits / 8 * 8 = bits)

include whole

/-- Words depend only on the bytes that they cover. -/
theorem loadWords_congr {left right : Buffer size}
    (agree :
      ∀ index, offset ≤ index → index < offset + bits / 8 * count →
        byteAt left index = byteAt right index) :
    loadWords bits count left offset = loadWords bits count right offset := by
  apply Vector.ext
  intro index inside
  rw [getElem_loadWords _ _ inside, getElem_loadWords _ _ inside]
  apply wordAt_congr
  intro byte covered
  have wordEnd : bits / 8 * (index + 1) ≤ bits / 8 * count :=
    Nat.mul_le_mul_left _ inside
  rw [Nat.mul_add] at wordEnd
  exact agree _ (by omega) (by omega)

/-- Stored words are read back, when a word is a whole number of bytes. -/
theorem loadWords_storeWords
    (buffer : Buffer size) (offset : Nat) (words : Vector (BitVec bits) count)
    (fits : offset + bits / 8 * count ≤ size) :
    loadWords bits count (storeWords buffer offset words) offset = words := by
  apply Vector.ext
  intro index inside
  rw [getElem_loadWords _ _ inside]
  apply wordAt_eq_of_bytes
  intro byte covered
  exact byteAt_storeWords_inside inside (by omega) fits

/-- Storing the words that are already there changes nothing. -/
theorem storeWords_loadWords
    (positive : 0 < bits) (buffer : Buffer size) (offset : Nat) :
    storeWords buffer offset (loadWords bits count buffer offset) = buffer := by
  apply buffer_ext
  intro index inside
  rw [storeWords, byteAt_ofBytes _ inside]
  split
  · next covered =>
      have inWord : (index - offset) % (bits / 8) < bits / 8 :=
        Nat.mod_lt _ (by omega)
      rw [getElem_loadWords _ _ covered.2, wordAt, leByte_leWord]
      · congr 1
        have split := Nat.div_add_mod (index - offset) (bits / 8)
        omega
      · omega
  · rfl

end

end RCoreOS.Lib.Bytes
