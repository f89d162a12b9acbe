import RCoreOS.EasyFs.Vfs
import RCoreOS.Kernel.Exec

/-!
# Strings of a program

`translated_str` of `os/src/mm/page_table.rs` reads the bytes of a program's
string up to its NUL and pushes each of them, as a character, to a `String`.  A
byte from 128 on is one character there and two bytes of UTF-8, so only strings
of ASCII arrive as they were passed.
-/

namespace RCoreOS.Kernel

open EasyFs.DirEntry List

open EasyFs (DirEntry Inode EasyFileSystem Disk)

/-! ## The call -/

/--
The loop of `translated_str`.  A loop that has not ended after `fuel` turns
gives `none`.
-/
def strLoop (memory : Nat → Page) (token : Nat) :
    Nat → Nat → String → Option (Except Stop String)
  | 0, _, _ => none
  | fuel + 1, va, string =>
    match translatedRefmut memory token va with
    | .error stop => some (.error stop)
    | .ok pa =>
      let ch := physByte memory pa
      if ch = 0 then
        some (.ok string)
      else
        strLoop memory token fuel ((va + 1) % 2 ^ 64)
          (string.push (Char.ofUInt8 ch))

/-- `translated_str` -/
def translatedStr (memory : Nat → Page) (fuel token ptr : Nat) :
    Option (Except Stop String) :=
  strLoop memory token fuel ptr ""

/-! ## What should arrive -/

/-- The address space has these bytes and a NUL at an address. -/
def HoldsString (memory : Nat → Page) (token ptr : Nat)
    (bytes : List UInt8) : Prop :=
  ∀ k < bytes.length + 1,
    ∃ pa, translatedRefmut memory token ((ptr + k) % 2 ^ 64) = .ok pa ∧
      physByte memory pa = (bytes ++ [0]).getD k 0

/--
The string `path` stands for `name`: it has the same bytes, a lookup in a
directory finds the same file, and as an argument of a program it is seen in
`argv` with the bytes of `name`.
-/
structure Arrives (name path : String) : Prop where
  bytes : nameBytes path = nameBytes name
  opened :
    ∀ (efs : EasyFileSystem) (directory : Inode) (disk : Disk),
      (Inode.find efs directory path).onDisk [] disk =
        (Inode.find efs directory name).onDisk [] disk
  passed :
    ∀ (state : ThreadAreas) (args : List (List UInt8)) (argvBase sp : Nat)
      (pointer : Nat → Nat), state.ArgvLayout args argvBase sp pointer →
        ∀ i < args.length, args.getD i [] = nameBytes path →
          state.memorySet.HoldsBytes state.phys (pointer i)
            (nameBytes name ++ [0])

/-! ## The encodings -/

/-- The bytes of the `String` that the loop makes from bytes. -/
def encoded (bytes : List UInt8) : List UInt8 :=
  bytes.flatMap fun byte => String.utf8EncodeChar (Char.ofUInt8 byte)

theorem nameBytes_push (string : String) (ch : Char) :
    nameBytes (string.push ch) =
      nameBytes string ++ String.utf8EncodeChar ch := by
  simp [nameBytes, String.toByteArray_push, List.utf8Encode]

variable {byte : UInt8} {bytes : List UInt8}

/-- A byte below 128 is encoded as itself. -/
theorem utf8EncodeChar_ascii (ascii : byte < 128) :
    String.utf8EncodeChar (Char.ofUInt8 byte) = [byte] := by
  have small : (Char.ofUInt8 byte).val ≤ 127 := by
    show byte.toUInt32 ≤ 127
    rw [UInt32.le_iff_toNat_le, UInt8.toNat_toUInt32]
    exact Nat.le_of_lt_succ (UInt8.lt_iff_toNat_lt.mp ascii)
  rw [String.utf8EncodeChar_eq_singleton (Char.utf8Size_eq_one_iff.mpr small)]
  simp [Char.ofUInt8]

/-- A byte from 128 on is encoded by more than one byte. -/
theorem length_utf8EncodeChar_high (high : ¬ byte < 128) :
    2 ≤ (String.utf8EncodeChar (Char.ofUInt8 byte)).length := by
  rw [String.length_utf8EncodeChar]
  have notOne : (Char.ofUInt8 byte).utf8Size ≠ 1 := by
    intro one
    have small := Char.utf8Size_eq_one_iff.mp one
    apply high
    rw [UInt8.lt_iff_toNat_lt]
    rw [UInt32.le_iff_toNat_le] at small
    change byte.toUInt32.toNat ≤ 127 at small
    rw [UInt8.toNat_toUInt32] at small
    exact Nat.lt_succ_of_le small
  have positive := Char.utf8Size_pos (Char.ofUInt8 byte)
  omega

theorem encoded_ascii
    (ascii : ∀ byte ∈ bytes, byte < 128) : encoded bytes = bytes := by
  induction bytes with
  | nil => rfl
  | cons byte rest ih =>
    have later := ih fun other member => ascii other (mem_cons_of_mem _ member)
    rw [encoded, flatMap_cons, utf8EncodeChar_ascii (ascii byte mem_cons_self),
      ← encoded, later, singleton_append]

theorem length_le_encoded (bytes : List UInt8) :
    bytes.length ≤ (encoded bytes).length := by
  induction bytes with
  | nil => exact Nat.le_refl 0
  | cons byte rest ih =>
    rw [encoded, flatMap_cons, ← encoded, length_append, length_cons]
    by_cases ascii : byte < 128
    · rw [utf8EncodeChar_ascii ascii, length_singleton]
      omega
    · have longer := length_utf8EncodeChar_high ascii
      omega

/-- Bytes arrive as they are exactly if they are ASCII. -/
theorem encoded_eq_iff :
    encoded bytes = bytes ↔ ∀ byte ∈ bytes, byte < 128 := by
  constructor
  · intro same
    have lengths := congrArg List.length same
    clear same
    induction bytes with
    | nil => exact nofun
    | cons byte rest ih =>
      have tail := length_le_encoded rest
      rw [encoded, flatMap_cons, ← encoded, length_append,
        length_cons] at lengths
      have ascii : byte < 128 := by
        by_contra high
        have longer := length_utf8EncodeChar_high high
        omega
      rw [utf8EncodeChar_ascii ascii, length_singleton] at lengths
      intro other member
      rcases mem_cons.mp member with rfl | member
      · exact ascii
      · exact ih (by omega) other member
  · exact encoded_ascii

/-! ## The loop -/

variable {memory : Nat → Page} {token : Nat}

variable {ptr : Nat} {name path : String}

theorem HoldsString.tail {byte : UInt8} {rest : List UInt8}
    (held : HoldsString memory token ptr (byte :: rest)) :
    HoldsString memory token ((ptr + 1) % 2 ^ 64) rest := by
  intro k kLt
  obtain ⟨pa, translated, byteEq⟩ := held (k + 1) (Nat.succ_lt_succ kLt)
  refine ⟨pa, ?_, ?_⟩
  · rw [← translated, Nat.mod_add_mod, Nat.add_assoc, Nat.add_comm 1]
  · rw [byteEq, cons_append, getD_cons_succ]

/-- The loop on a string that the address space has. -/
theorem strLoop_returns {bytes : List UInt8} (nulFree : 0 ∉ bytes)
    (small : ptr < 2 ^ 64)
    (held : HoldsString memory token ptr bytes) (string : String) :
    ∃ path,
      (∀ fuel, bytes.length < fuel →
        strLoop memory token fuel ptr string = some (.ok path)) ∧
        nameBytes path =
          nameBytes string ++ encoded bytes := by
  induction bytes generalizing ptr string with
  | nil =>
    obtain ⟨pa, translated, byteEq⟩ := held 0 (Nat.succ_pos _)
    rw [Nat.add_zero, Nat.mod_eq_of_lt small] at translated
    refine ⟨string, ?_, (append_nil _).symm⟩
    intro fuel enough
    cases fuel with
    | zero => cases enough
    | succ fuel =>
      rw [strLoop, translated]
      exact if_pos byteEq
  | cons byte rest ih =>
    obtain ⟨pa, translated, byteEq⟩ := held 0 (Nat.succ_pos _)
    rw [Nat.add_zero, Nat.mod_eq_of_lt small] at translated
    have notNul : byte ≠ 0 := by
      rintro rfl
      exact nulFree mem_cons_self
    have byteIs : physByte memory pa = byte := byteEq
    obtain ⟨path, looped, pathBytes⟩ :=
      ih (fun member => nulFree (mem_cons_of_mem _ member))
        (Nat.mod_lt _ (by decide)) held.tail
        (string.push (Char.ofUInt8 byte))
    refine ⟨path, ?_, ?_⟩
    · intro fuel enough
      cases fuel with
      | zero => cases enough
      | succ fuel =>
        rw [strLoop, translated]
        dsimp only
        rw [byteIs, if_neg notNul]
        exact looped fuel (Nat.lt_of_succ_lt_succ enough)
    · rw [pathBytes, nameBytes_push, append_assoc, encoded, encoded,
        flatMap_cons]

theorem eq_of_nameBytes (same : nameBytes path = nameBytes name) :
    path = name := by
  apply String.toByteArray_inj.mp
  apply ByteArray.ext
  exact Array.toList_inj.mp same

/-- A string with the same bytes arrives. -/
theorem Arrives.of_bytes (same : nameBytes path = nameBytes name) :
    Arrives name path where
  bytes := same
  opened := by
    rw [eq_of_nameBytes same]
    exact fun _ _ _ => rfl
  passed := by
    intro state args argvBase sp pointer layout i iLt isPath
    have held := layout.strings i iLt
    rw [isPath, same] at held
    exact held

/--
`translated_str` returns on every string of the address space.  A string that is
UTF-8 arrives exactly if it is ASCII.
-/
theorem user_string_arrives_iff
    (memory : Nat → Page) (token ptr : Nat) (small : ptr < 2 ^ 64)
    (bytes : List UInt8) (nulFree : 0 ∉ bytes)
    (held : HoldsString memory token ptr bytes) :
    ∃ path,
      (∀ fuel, bytes.length < fuel →
        translatedStr memory fuel token ptr = some (.ok path)) ∧
        ∀ name, nameBytes name = bytes →
          (Arrives name path ↔ ∀ byte ∈ bytes, byte < 128) := by
  obtain ⟨path, returned, pathBytes⟩ := strLoop_returns nulFree small held ""
  have pathEncoded : nameBytes path = encoded bytes := pathBytes
  refine ⟨path, returned, ?_⟩
  intro name nameEq
  constructor
  · intro arrives
    apply encoded_eq_iff.mp
    rw [← pathEncoded, arrives.bytes, nameEq]
  · intro ascii
    apply Arrives.of_bytes
    rw [pathEncoded, encoded_ascii ascii, nameEq]

/-! ## One page -/

/-- Page tables in the pages 1 to 3 that map the page 4 at `0x1000`. -/
def onePageMemory (word : Nat) : Nat → Page := fun ppn entry =>
  if ppn = 1 ∧ entry = 0 then .new 2 PTEFlags.v
  else if ppn = 2 ∧ entry = 0 then .new 3 PTEFlags.v
  else if ppn = 3 ∧ entry = 1 then
    .new 4 (PTEFlags.r ||| PTEFlags.w ||| PTEFlags.u ||| PTEFlags.v)
  else if ppn = 4 ∧ entry = 0 then ⟨word⟩
  else .empty

/-- The token of the page table whose root is the page 1. -/
def onePageToken : Nat := 8 <<< 60 ||| 1

/-- The string `ls` arrives. -/
theorem user_string_arrives_iff_ls :
    ∃ path,
      translatedStr (onePageMemory 0x736c) 3 onePageToken 0x1000 =
          some (.ok path) ∧
        Arrives "ls" path := by
  have held :
      HoldsString (onePageMemory 0x736c) onePageToken 0x1000
        [0x6c, 0x73] := by
    intro k kLt
    refine ⟨0x4000 + k, ?_⟩
    change k < 3 at kLt
    interval_cases k <;> exact ⟨rfl, rfl⟩
  obtain ⟨path, returned, arrives⟩ :=
    user_string_arrives_iff (onePageMemory 0x736c) onePageToken 0x1000
      (by decide) [0x6c, 0x73] (by decide) held
  exact ⟨path, returned 3 (by decide),
    (arrives "ls" (by decide)).mpr (by decide +kernel)⟩

/--
The two bytes of the name are valid UTF-8 and stand for the letter `é`.  The
string that arrives has four bytes.
-/
theorem user_string_not_ascii :
    nameBytes "é" = [0xc3, 0xa9] ∧
      HoldsString (onePageMemory 0xa9c3) onePageToken 0x1000
        [0xc3, 0xa9] ∧
      ∃ path,
        translatedStr (onePageMemory 0xa9c3) 3 onePageToken 0x1000 =
            some (.ok path) ∧
          nameBytes path = [0xc3, 0x83, 0xc2, 0xa9] ∧
          ¬ Arrives "é" path := by
  have held :
      HoldsString (onePageMemory 0xa9c3) onePageToken 0x1000
        [0xc3, 0xa9] := by
    intro k kLt
    refine ⟨0x4000 + k, ?_⟩
    change k < 3 at kLt
    interval_cases k <;> exact ⟨rfl, rfl⟩
  have nulFree : (0 : UInt8) ∉ [(0xc3 : UInt8), 0xa9] := by decide
  have small : 0x1000 < 2 ^ 64 := by decide
  obtain ⟨path, returned, pathBytes⟩ := strLoop_returns nulFree small held ""
  have pathIs :
      nameBytes path = [0xc3, 0x83, 0xc2, 0xa9] := by
    rw [pathBytes]
    decide
  refine ⟨by decide, held, path, returned 3 (by decide), pathIs, ?_⟩
  intro arrives
  have same := arrives.bytes
  rw [pathIs] at same
  exact absurd same (by decide)

end RCoreOS.Kernel
