import RCoreOS.Kernel.PhysicalBytes
import RCoreOS.Kernel.StackBase

/-!
# The arguments of a program

`ProcessControlBlock::exec` of `os/src/task/process.rs` replaces the address
space of a process of one thread by that of another program and pushes the
arguments on its stack: the array `argv` at the top, then the strings one below
the other.  Every word and every byte goes through a translation of its own.
-/

namespace RCoreOS.Kernel

open Lib.FallibleRuns List

/-! ## The call -/

/-- The drop of a `PageTable`: its trackers give their frames back. -/
def PageTable.drop (self : PageTable) (phys : KernelMemory) :
    Except Stop KernelMemory :=
  self.frames.foldlM (fun phys frame => phys.frameDealloc frame) phys

/-- The drop of a `MemorySet`: first its page table, then its areas. -/
def MemorySet.drop (self : MemorySet) (phys : KernelMemory) :
    Except Stop KernelMemory := do
  let phys ← self.pageTable.drop phys
  self.areas.foldlM (fun phys area => area.drop phys) phys

/-- `TrapContext` -/
structure TrapContext where
  x : Fin 32 → Nat
  sstatus : Nat
  sepc : Nat
  kernelSatp : Nat
  kernelSp : Nat
  trapHandler : Nat

namespace TrapContext

/-- `TrapContext::set_sp` -/
def setSp (self : TrapContext) (sp : Nat) : TrapContext :=
  { self with x := Function.update self.x 2 sp }

/--
`TrapContext::app_init_context`; `sstatus` is what the register holds, and its
bit 8 is `SPP`.
-/
def appInitContext (sstatus entry sp kernelSatp kernelSp trapHandler : Nat) :
    TrapContext :=
  setSp
    ⟨fun _ => 0, sstatus &&& (2 ^ 64 - 1 - 2 ^ 8), entry, kernelSatp,
      kernelSp, trapHandler⟩ sp

/-- The assignments to `x[10]` and `x[11]` in `exec`. -/
def setArgs (self : TrapContext) (argc argvBase : Nat) : TrapContext :=
  { self with
    x := Function.update (Function.update self.x 10 argc) 11 argvBase }

/-- The words of the structure, in the order of its fields. -/
def words (self : TrapContext) : List Nat :=
  List.ofFn self.x ++
    [self.sstatus, self.sepc, self.kernelSatp, self.kernelSp, self.trapHandler]

/-- The structure in memory. -/
def bytes (self : TrapContext) : List UInt8 := self.words.flatMap (leBytes 8)

end TrapContext

/-- What `exec` reads from the kernel for the trap context. -/
structure KernelContext where
  sstatus : Nat
  kernelSatp : Nat
  kernelSp : Nat
  trapHandler : Nat

/-- The loop over the bytes of an argument, and the pointer behind them. -/
def pushBytes (text token : Nat) (phys : KernelMemory) (p : Nat) :
    List UInt8 → Except Stop (Nat × KernelMemory)
  | [] => .ok (p, phys)
  | c :: rest => do
      let pa ← translatedRefmut phys.memory token p
      let phys ← phys.put text pa [c]
      pushBytes text token phys ((p + 1) % 2 ^ 64) rest

/-- The bytes of an argument and the zero behind them. -/
def pushString (text token : Nat) (phys : KernelMemory) (userSp : Nat)
    (arg : List UInt8) : Except Stop KernelMemory := do
  let (p, phys) ← pushBytes text token phys userSp arg
  let pa ← translatedRefmut phys.memory token p
  phys.put text pa [0]

/-- The loop over the arguments; `argv` are the addresses of their slots. -/
def pushArgs (text token : Nat) (phys : KernelMemory) (userSp : Nat) :
    List Nat → List (List UInt8) → Except Stop (Nat × KernelMemory)
  | _, [] => .ok (userSp, phys)
  | [], _ :: _ => .error .panicked
  | slot :: argv, arg :: rest => do
      let userSp := usizeSub userSp (arg.length + 1)
      let phys ← phys.put text slot (leBytes 8 userSp)
      let phys ← pushString text token phys userSp arg
      pushArgs text token phys userSp argv rest

namespace ThreadAreas

/-- `TaskUserRes::trap_cx_ppn` -/
def trapCxPpn (state : ThreadAreas) (tid : Nat) : Except Stop Nat := do
  let vpn ← pageNum (virtAddr (trapCxBottomFromTid tid))
  match state.memorySet.pageTable.translate state.phys.memory vpn with
  | none => .error .panicked
  | some entry => .ok entry.ppn

/-- `TaskUserRes::ustack_top` -/
def ustackTop (state : ThreadAreas) (tid : Nat) : Nat :=
  (ustackBottomFromTid state.ustackBase tid + userStackSize) % 2 ^ 64

/--
The first half of `exec`: the new address space with the areas of the main
thread, the entry point and the page of the trap context.
-/
def execLoad (state : ThreadAreas) (threadCount strampoline : Nat)
    (elf : ElfFile) : Except Stop (ThreadAreas × Nat × Nat) :=
  if threadCount = 1 then do
    let (memorySet, ustackBase, entryPoint, phys) ←
      MemorySet.fromElf state.phys strampoline elf
    let phys ← state.memorySet.drop phys
    let state ← { state with memorySet, phys, ustackBase }.allocUserRes 0
    let trapCxPpn ← state.trapCxPpn 0
    return (state, entryPoint, trapCxPpn)
  else
    .error .panicked

/-- The second half of `exec`: the arguments and the trap context. -/
def execArgs (state : ThreadAreas) (text trapCxPpn entryPoint : Nat)
    (kernel : KernelContext) (args : List (List UInt8)) :
    Except Stop ThreadAreas := do
  let newToken := state.memorySet.pageTable.token
  let argvBase := usizeSub (state.ustackTop 0) ((args.length + 1) * 8)
  let argv ← (List.range (args.length + 1)).mapM fun arg =>
    translatedRefmut state.phys.memory newToken
      ((argvBase + arg * 8) % 2 ^ 64)
  let lastSlot ← match argv[args.length]? with
    | none => .error .panicked
    | some slot => .ok slot
  let phys ← state.phys.put text lastSlot (leBytes 8 0)
  let (userSp, phys) ← pushArgs text newToken phys argvBase argv args
  let userSp := userSp - userSp % 8
  let trapCx := TrapContext.appInitContext kernel.sstatus entryPoint userSp
    kernel.kernelSatp kernel.kernelSp kernel.trapHandler
  let trapCx := trapCx.setArgs args.length argvBase
  let phys ← phys.put text (trapCxPpn * pageSize) trapCx.bytes
  return { state with phys }

/-- `ProcessControlBlock::exec` -/
def exec (state : ThreadAreas) (threadCount strampoline : Nat)
    (kernel : KernelContext) (elf : ElfFile) (args : List (List UInt8)) :
    Except Stop ThreadAreas := do
  let (state, entryPoint, trapCxPpn) ←
    state.execLoad threadCount strampoline elf
  let text ← pageNum (physAddr strampoline)
  state.execArgs text trapCxPpn entryPoint kernel args

end ThreadAreas

/-! ## Where the arguments are -/

/-- The program sees these bytes from an address on. -/
def MemorySet.HoldsBytes (set : MemorySet) (phys : KernelMemory) (va : Nat)
    (bytes : List UInt8) : Prop :=
  ∀ k < bytes.length,
    set.byteAt phys (virtAddr (va + k)) = some (bytes.getD k 0)

/--
The layout of the arguments: `pointer i` is where the bytes of the argument `i`
are.  The registers are in the trap context of the main thread.
-/
structure ThreadAreas.ArgvLayout (state : ThreadAreas)
    (args : List (List UInt8)) (argvBase sp : Nat) (pointer : Nat → Nat) :
    Prop where
  x10 :
    state.memorySet.HoldsBytes state.phys (trapCxBottomFromTid 0 + 8 * 10)
      (leBytes 8 args.length)
  x11 :
    state.memorySet.HoldsBytes state.phys (trapCxBottomFromTid 0 + 8 * 11)
      (leBytes 8 argvBase)
  x2 :
    state.memorySet.HoldsBytes state.phys (trapCxBottomFromTid 0 + 8 * 2)
      (leBytes 8 sp)
  argv_aligned : argvBase % 8 = 0
  slots :
    ∀ i < args.length,
      state.memorySet.HoldsBytes state.phys (argvBase + 8 * i)
        (leBytes 8 (pointer i))
  in_stack :
    ∀ i < args.length,
      state.ustackBase ≤ pointer i ∧
        pointer i + (args.getD i []).length + 1 ≤
          state.ustackBase + userStackSize
  strings :
    ∀ i < args.length,
      state.memorySet.HoldsBytes state.phys (pointer i)
        (args.getD i [] ++ [0])
  last_slot :
    state.memorySet.HoldsBytes state.phys (argvBase + 8 * args.length)
      (leBytes 8 0)
  strings_apart :
    ∀ i < args.length, ∀ j < args.length, i ≠ j →
      pointer i + (args.getD i []).length + 1 ≤ pointer j ∨
        pointer j + (args.getD j []).length + 1 ≤ pointer i
  array_apart :
    ∀ i < args.length,
      pointer i + (args.getD i []).length + 1 ≤ argvBase ∨
        argvBase + 8 * (args.length + 1) ≤ pointer i
  sp_aligned : sp % 8 = 0
  sp_in_stack :
    state.ustackBase ≤ sp ∧ sp < state.ustackBase + userStackSize
  sp_below_argv : sp ≤ argvBase
  sp_below_strings : ∀ i < args.length, sp ≤ pointer i

/-! ## The strings on the stack -/

/-- The size of the arguments on the stack, each with its zero. -/
def argSize (args : List (List UInt8)) : Nat :=
  (args.map fun arg => arg.length + 1).sum

@[simp]
theorem argSize_nil : argSize [] = 0 := rfl

@[simp]
theorem argSize_cons (arg : List UInt8) (rest : List (List UInt8)) :
    argSize (arg :: rest) = arg.length + 1 + argSize rest := rfl

/--
Where the loop puts an argument: the strings follow each other downwards from
`sp` on.
-/
def argPointer (sp : Nat) (args : List (List UInt8)) (i : Nat) : Nat :=
  sp - argSize (args.take (i + 1))

theorem argSize_append (first second : List (List UInt8)) :
    argSize (first ++ second) = argSize first + argSize second := by
  simp [argSize]

theorem argSize_take_le (args : List (List UInt8)) (count : Nat) :
    argSize (args.take count) ≤ argSize args := by
  have sum := argSize_append (args.take count) (args.drop count)
  rw [take_append_drop] at sum
  omega

variable {i start : Nat} {bytes : List UInt8}

/-- The string of an argument ends where the one before it starts. -/
theorem argSize_take_succ {args : List (List UInt8)}
    (iLt : i < args.length) :
    argSize (args.take (i + 1)) =
      argSize (args.take i) + ((args.getD i []).length + 1) := by
  rw [take_succ_eq_append_getElem iLt, argSize_append,
    getD_eq_getElem _ _ iLt, argSize_cons, argSize_nil, Nat.add_zero]

theorem argSize_take_mono (args : List (List UInt8)) {j : Nat}
    (le : i ≤ j) : argSize (args.take i) ≤ argSize (args.take j) := by
  have nested : args.take i = (args.take j).take i := by
    rw [take_take, Nat.min_eq_left le]
  rw [nested]
  exact argSize_take_le _ _

/-- The content has these bytes from an address on. -/
def Reads (content : Nat → UInt8) (start : Nat) (bytes : List UInt8) :
    Prop :=
  ∀ k < bytes.length, content (start + k) = bytes.getD k 0

theorem reads_copiedOver (content : Nat → UInt8) (start : Nat)
    (bytes : List UInt8) :
    Reads (copiedOver content start bytes) start bytes := by
  intro k kLt
  rw [copiedOver, if_pos (by omega), Nat.add_sub_cancel_left]

theorem Reads.congr {content other : Nat → UInt8}
    (reads : Reads content start bytes)
    (same : ∀ k < bytes.length, other (start + k) = content (start + k)) :
    Reads other start bytes := by
  intro k kLt
  rw [same k kLt, reads k kLt]

theorem copiedOver_outside (content : Nat → UInt8) {address : Nat}
    (outside : address < start ∨ start + bytes.length ≤ address) :
    copiedOver content start bytes address = content address := by
  rw [copiedOver, if_neg (by omega)]

/-! ## Stores to the user stack -/

/-- The user stack whose bottom is at `bottom`. -/
structure UserStack (pages : Pages) (bottom : Nat) : Prop where
  aligned : bottom % pageSize = 0
  top_lt : bottom + userStackSize < 2 ^ 64
  address :
    ∀ offset < userStackSize,
      virtAddr (bottom + offset) = virtAddr bottom + offset
  present :
    ∀ offset < userStackSize,
      ∃ page,
        pages (floor (virtAddr (bottom + offset))) = some page ∧
          floor (virtAddr (bottom + offset)) ≠ MemorySet.trampolineVpn

namespace MemorySet

variable {text bottom : Nat} {set : MemorySet} {phys : KernelMemory}
  {pages : Pages} {content : Nat → UInt8}

/-- The place of an address of the stack in physical memory. -/
def stackPlace (pages : Pages) (va : Nat) : Nat :=
  ((pages (floor (virtAddr va))).map fun page =>
    page.1 * pageSize + virtAddr va % pageSize).getD 0

variable {offset : Nat} {bytes : List UInt8}

section

variable (image : Image text set phys pages content)
  (stack : UserStack pages bottom)

include image stack

section

variable (inside : offset < userStackSize)

include inside

theorem Image.translated :
    translatedRefmut phys.memory set.pageTable.token (bottom + offset) =
      .ok (stackPlace pages (bottom + offset)) := by
  obtain ⟨page, present, _⟩ := stack.present offset inside
  rw [image.represents.translatedRefmut present, stackPlace, present]
  rfl

/-- A store to the stack that does not pass the end of a page. -/
theorem Image.putStack (inPage : offset % pageSize + bytes.length ≤ pageSize) :
    ∃ after,
      phys.put text (stackPlace pages (bottom + offset)) bytes = .ok after ∧
        Image text set after pages
          (copiedOver content (virtAddr bottom + offset) bytes) := by
  obtain ⟨page, present, notTrampoline⟩ := stack.present offset inside
  have addressEq := stack.address offset inside
  have offsetEq :
      virtAddr (bottom + offset) % pageSize = offset % pageSize := by
    have aligned := stack.aligned
    rw [virtAddr_eq_mod, pageSize]
    rw [pageSize] at aligned
    omega
  rw [← offsetEq] at inPage
  obtain ⟨after, returned, stored⟩ := image.put present notTrampoline inPage
  have place :
      4096 * floor (virtAddr (bottom + offset)) +
          virtAddr (bottom + offset) % pageSize =
        virtAddr bottom + offset := by
    rw [← addressEq, floor, pageSize]
    omega
  rw [place] at stored
  refine ⟨after, ?_, stored⟩
  rw [stackPlace, present]
  exact returned

/-- A store of one byte through a pointer of the program. -/
theorem Image.pushByte (byte : UInt8) :
    ∃ after,
      (do
        let pa ← translatedRefmut phys.memory set.pageTable.token
          (bottom + offset)
        phys.put text pa [byte]) = .ok after ∧
        Image text set after pages
          (copiedOver content (virtAddr bottom + offset) [byte]) := by
  have inPage : offset % pageSize + [byte].length ≤ pageSize :=
    Nat.mod_lt offset (by decide)
  obtain ⟨after, returned, stored⟩ := image.putStack stack inside inPage
  refine ⟨after, ?_, stored⟩
  rw [image.translated stack inside]
  exact returned

end

theorem Image.pushBytes (fits : offset + bytes.length < userStackSize) :
    ∃ after,
      Kernel.pushBytes text set.pageTable.token phys (bottom + offset)
          bytes =
        .ok (bottom + (offset + bytes.length), after) ∧
        Image text set after pages
          (copiedOver content (virtAddr bottom + offset) bytes) := by
  induction bytes generalizing phys content offset with
  | nil =>
    refine ⟨phys, rfl, ?_⟩
    rw [copiedOver_nil]
    exact image
  | cons byte rest ih =>
    rw [length_cons] at fits
    have here : offset < userStackSize := by omega
    have fitsRest : offset + 1 + rest.length < userStackSize := by omega
    obtain ⟨between, stored, imageNow⟩ := image.pushByte stack here byte
    obtain ⟨after, looped, imageLast⟩ := ih imageNow fitsRest
    obtain ⟨pa, translated, put⟩ := bind_eq_ok.mp stored
    have next :
        (bottom + offset + 1) % 2 ^ 64 = bottom + (offset + 1) := by
      have topLt := stack.top_lt
      rw [Nat.mod_eq_of_lt (by omega), Nat.add_assoc]
    refine ⟨after, ?_, ?_⟩
    · apply bind_eq_ok.mpr
      refine ⟨pa, translated, bind_eq_ok.mpr ⟨between, put, ?_⟩⟩
      rw [next, looped, length_cons, Nat.add_assoc offset, Nat.add_comm 1]
    · have joined :=
        copiedOver_append content (virtAddr bottom + offset) [byte] rest
      rw [singleton_append] at joined
      rw [← joined]
      exact imageLast

/-- An argument and its zero. -/
theorem Image.pushString {arg : List UInt8}
    (fits : offset + arg.length < userStackSize) :
    ∃ after,
      Kernel.pushString text set.pageTable.token phys (bottom + offset)
          arg = .ok after ∧
        Image text set after pages
          (copiedOver content (virtAddr bottom + offset) (arg ++ [0])) := by
  obtain ⟨between, pushed, imageNow⟩ := image.pushBytes stack fits
  obtain ⟨after, stored, imageLast⟩ := imageNow.pushByte stack fits 0
  refine ⟨after, ?_, ?_⟩
  · exact bind_eq_ok.mpr ⟨_, pushed, stored⟩
  · rw [← copiedOver_append, Nat.add_assoc]
    exact imageLast

end

theorem usizeSub_of_le {left right : Nat} (le : right ≤ left)
    (small : left < 2 ^ 64) : usizeSub left right = left - right := by
  rw [usizeSub]
  omega

/-- What the loop over the arguments leaves on the stack. -/
structure ArgsPushed (bottom : Nat) (content final : Nat → UInt8)
    (slot sp : Nat) (args : List (List UInt8)) : Prop where
  slots :
    ∀ i < args.length,
      Reads final (virtAddr bottom + (slot + 8 * i))
        (leBytes 8 (bottom + argPointer sp args i))
  strings :
    ∀ i < args.length,
      Reads final (virtAddr bottom + argPointer sp args i)
        (args.getD i [] ++ [0])
  others :
    ∀ offset,
      offset < sp - argSize args ∨
          (sp ≤ offset ∧ (offset < slot ∨ slot + 8 * args.length ≤ offset)) →
        final (virtAddr bottom + offset) = content (virtAddr bottom + offset)

variable {slot sp : Nat}

/-- One turn of the loop, then the turns for the other arguments. -/
theorem ArgsPushed.cons {final : Nat → UInt8}
    {arg : List UInt8} {rest : List (List UInt8)} (above : sp ≤ slot)
    (fits : arg.length + 1 ≤ sp)
    (fitsRest : argSize rest ≤ sp - (arg.length + 1))
    (pushed :
      ArgsPushed bottom
        (copiedOver
          (copiedOver content (virtAddr bottom + slot)
            (leBytes 8 (bottom + (sp - (arg.length + 1)))))
          (virtAddr bottom + (sp - (arg.length + 1))) (arg ++ [0]))
        final (slot + 8) (sp - (arg.length + 1)) rest) :
    ArgsPushed bottom content final slot sp (arg :: rest) := by
  have pointerZero : argPointer sp (arg :: rest) 0 = sp - (arg.length + 1) := by
    simp [argPointer]
  have pointerSucc (i : Nat) :
      argPointer sp (arg :: rest) (i + 1) =
        argPointer (sp - (arg.length + 1)) rest i := by
    rw [argPointer, argPointer, take_succ_cons, argSize_cons, Nat.sub_sub]
  have lengthEq : (arg ++ [0]).length = arg.length + 1 := by simp
  refine ⟨?_, ?_, ?_⟩
  · intro i iLt
    cases i with
    | zero =>
      rw [pointerZero]
      apply (reads_copiedOver content (virtAddr bottom + slot) _).congr
      intro k kLt
      rw [length_leBytes] at kLt
      rw [Nat.add_assoc, pushed.others (slot + k) (by omega),
        copiedOver_outside _ (by rw [lengthEq]; omega)]
    | succ i =>
      rw [pointerSucc]
      have later := pushed.slots i (Nat.lt_of_succ_lt_succ iLt)
      rw [Nat.add_assoc slot, Nat.add_comm 8] at later
      exact later
  · intro i iLt
    cases i with
    | zero =>
      rw [pointerZero, getD_cons_zero]
      apply (reads_copiedOver _ (virtAddr bottom + _) _).congr
      intro k kLt
      rw [lengthEq] at kLt
      rw [Nat.add_assoc, pushed.others _ (by omega)]
    | succ i =>
      rw [pointerSucc, getD_cons_succ]
      exact pushed.strings i (Nat.lt_of_succ_lt_succ iLt)
  · intro offset outside
    rw [argSize_cons, length_cons] at outside
    rw [pushed.others offset (by omega),
      copiedOver_outside _ (by rw [lengthEq]; omega),
      copiedOver_outside _ (by rw [length_leBytes]; omega)]

section

variable (image : Image text set phys pages content)
  (stack : UserStack pages bottom)

include image stack

/-- The loop over the arguments. -/
theorem Image.pushArgs {argv : List Nat}
    {args : List (List UInt8)} (slotAligned : slot % 8 = 0)
    (above : sp ≤ slot) (slotsFit : slot + 8 * args.length ≤ userStackSize)
    (fits : argSize args ≤ sp)
    (slots :
      ∀ i < args.length,
        argv[i]? = some (stackPlace pages (bottom + (slot + 8 * i)))) :
    ∃ after final,
      Kernel.pushArgs text set.pageTable.token phys (bottom + sp) argv
          args =
        .ok (bottom + (sp - argSize args), after) ∧
        Image text set after pages final ∧
        ArgsPushed bottom content final slot sp args := by
  induction args generalizing phys content slot sp argv with
  | nil =>
    refine ⟨phys, content, ?_, image, nofun, nofun, fun _ _ => rfl⟩
    rw [Kernel.pushArgs, argSize_nil, Nat.sub_zero]
  | cons arg rest ih =>
    rw [argSize_cons] at fits
    rw [length_cons] at slotsFit
    have topLt := stack.top_lt
    have sizeEq : userStackSize = 8192 := rfl
    have pageEq : pageSize = 4096 := rfl
    cases argv with
    | nil =>
      have first := slots 0 (Nat.succ_pos _)
      rw [getElem?_nil] at first
      cases first
    | cons place argv =>
      have first := slots 0 (Nat.succ_pos _)
      rw [getElem?_cons_zero, Nat.mul_zero, Nat.add_zero] at first
      have placeEq := Option.some.inj first
      have spEq :
          usizeSub (bottom + sp) (arg.length + 1) =
            bottom + (sp - (arg.length + 1)) := by
        rw [usizeSub_of_le (by omega) (by omega)]
        omega
      have slotInside : slot < userStackSize := by omega
      have slotInPage :
          slot % pageSize +
              (leBytes 8 (bottom + (sp - (arg.length + 1)))).length ≤
            pageSize := by
        rw [length_leBytes, pageEq]
        omega
      obtain ⟨stored, putEq, imageSlot⟩ :=
        image.putStack stack slotInside slotInPage
      have stringFits :
          sp - (arg.length + 1) + arg.length < userStackSize := by
        omega
      obtain ⟨pushed, stringEq, imageString⟩ :=
        imageSlot.pushString stack stringFits
      have alignedRest : (slot + 8) % 8 = 0 := by omega
      have aboveRest : sp - (arg.length + 1) ≤ slot + 8 := by omega
      have slotsFitRest :
          slot + 8 + 8 * rest.length ≤ userStackSize := by
        omega
      have fitsRest : argSize rest ≤ sp - (arg.length + 1) := by omega
      obtain ⟨after, final, looped, imageLast, rest⟩ :=
        ih imageString alignedRest aboveRest slotsFitRest fitsRest
          fun i iLt => by
            have later := slots (i + 1) (Nat.succ_lt_succ iLt)
            rw [getElem?_cons_succ] at later
            rw [later]
            congr 3
            omega
      refine ⟨after, final, ?_, imageLast,
        .cons above (by omega) fitsRest rest⟩
      rw [Kernel.pushArgs, spEq, placeEq]
      apply bind_eq_ok.mpr
      refine ⟨stored, putEq, bind_eq_ok.mpr ⟨pushed, stringEq, ?_⟩⟩
      rw [looped, argSize_cons, Nat.sub_sub]

/-- Bytes on the stack that the program sees. -/
theorem Image.holds_stack (fits : offset + bytes.length ≤ userStackSize)
    (reads : Reads content (virtAddr bottom + offset) bytes) :
    set.HoldsBytes phys (bottom + offset) bytes := by
  intro k kLt
  have inside : offset + k < userStackSize := by omega
  obtain ⟨page, present, notTrampoline⟩ := stack.present _ inside
  rw [Nat.add_assoc, image.byteAt_eq present notTrampoline,
    stack.address _ inside, ← Nat.add_assoc, reads k kLt]

end

end MemorySet

/-! ## The trap context -/

/-- The words of a structure in memory. -/
theorem getD_flatMap_leBytes (values : List Nat) {r k : Nat} (kLt : k < 8)
    (rLt : r < values.length) :
    (values.flatMap (leBytes 8)).getD (8 * r + k) 0 =
      (leBytes 8 (values.getD r 0)).getD k 0 := by
  induction values generalizing r with
  | nil => cases rLt
  | cons value rest ih =>
    rw [flatMap_cons]
    cases r with
    | zero =>
      rw [Nat.mul_zero, Nat.zero_add, getD_cons_zero,
        getD_append _ _ _ _ (by rw [length_leBytes]; exact kLt)]
    | succ r =>
      have later := ih (Nat.lt_of_succ_lt_succ rLt)
      have shift : 8 * (r + 1) + k - 8 = 8 * r + k := by omega
      rw [getD_append_right _ _ _ _
          (by rw [length_leBytes]; omega),
        length_leBytes, shift, later, getD_cons_succ]

namespace TrapContext

theorem length_bytes (self : TrapContext) : self.bytes.length = 296 := by
  simp [bytes, words]

/-- The word of a register. -/
theorem bytes_register (self : TrapContext) (r : Fin 32) {k : Nat}
    (kLt : k < 8) :
    self.bytes.getD (8 * r.val + k) 0 = (leBytes 8 (self.x r)).getD k 0 := by
  have inside : r.val < (List.ofFn self.x).length := by simp
  have rLt : r.val < self.words.length := by
    rw [words, length_append]
    omega
  rw [bytes, getD_flatMap_leBytes _ kLt rLt, words, getD_append _ _ _ _ inside,
    getD_eq_getElem _ _ inside, List.getElem_ofFn]

end TrapContext

/-- The addresses of the trap context of the main thread. -/
theorem trapCx_address {offset : Nat} (inside : offset < 4096) :
    virtAddr (trapCxBottomFromTid 0 + offset) =
      4096 * (2 ^ 27 - 2) + offset := by
  have bottomEq : trapCxBottomFromTid 0 = 2 ^ 64 - 8192 := by decide
  rw [virtAddr_eq_mod, bottomEq]
  omega

/-- A loop over translations that all succeed. -/
theorem mapM_eq_ok {α β ε : Type} {f : α → Except ε β} {g : α → β}
    {items : List α} (each : ∀ item ∈ items, f item = .ok (g item)) :
    items.mapM f = .ok (items.map g) := by
  induction items with
  | nil => rfl
  | cons item rest ih =>
    rw [mapM_cons, each item mem_cons_self,
      ih fun other member => each other (mem_cons_of_mem _ member)]
    rfl

namespace ThreadAreas

open MemorySet

variable {text trapCxPpn : Nat} {state : ThreadAreas} {pages : Pages}
  {content : Nat → UInt8}

/-- The address space of a process whose areas `alloc_user_res` has mapped. -/
structure Ready (state : ThreadAreas) (text trapCxPpn : Nat)
    (pages : Pages) (content : Nat → UInt8) : Prop where
  image : Image text state.memorySet state.phys pages content
  stack : UserStack pages state.ustackBase
  trap_page : ∃ flags, pages (2 ^ 27 - 2) = some (trapCxPpn, flags)
  stack_apart :
    ∀ offset < userStackSize,
      floor (virtAddr (state.ustackBase + offset)) ≠ 2 ^ 27 - 2

theorem Ready.ustackTop (ready : state.Ready text trapCxPpn pages content) :
    state.ustackTop 0 = state.ustackBase + userStackSize := by
  have topLt := ready.stack.top_lt
  have small : state.ustackBase < 2 ^ 64 := by omega
  rw [ThreadAreas.ustackTop, ustackBottomFromTid, Nat.zero_mul, Nat.add_zero,
    Nat.mod_eq_of_lt small, Nat.mod_eq_of_lt topLt]

variable {base : Nat} {args : List (List UInt8)}

variable {i : Nat}

/-- The pointer to an argument and the end of its string. -/
theorem argPointer_bounds (fits : argSize args ≤ base)
    (iLt : i < args.length) :
    base - argSize args ≤ argPointer base args i ∧
      argPointer base args i + (args.getD i []).length + 1 =
        base - argSize (args.take i) := by
  have total := argSize_take_le args (i + 1)
  have step := argSize_take_succ iLt
  rw [argPointer]
  omega

/-- The strings of two arguments have no byte in common. -/
theorem argPointer_apart (fits : argSize args ≤ base) {j : Nat}
    (less : i < j) (jLt : j < args.length) :
    argPointer base args j + (args.getD j []).length + 1 ≤
      argPointer base args i := by
  have ends := (argPointer_bounds fits jLt).2
  have mono := argSize_take_mono args (show i + 1 ≤ j from less)
  rw [ends, argPointer]
  omega

/--
The trap context is stored behind the arguments, and the program sees both.
-/
theorem Ready.layout (ready : state.Ready text trapCxPpn pages content)
    {phys : KernelMemory} {final : Nat → UInt8} {cx : TrapContext}
    (fits : argSize args ≤ base)
    (baseEq : base + (args.length + 1) * 8 = userStackSize)
    (pushed :
      ArgsPushed state.ustackBase
        (copiedOver content
          (virtAddr state.ustackBase + (base + 8 * args.length))
          (leBytes 8 0))
        final base base args)
    (image :
      Image text state.memorySet phys pages
        (copiedOver final (4096 * (2 ^ 27 - 2)) cx.bytes))
    (argc : cx.x 10 = args.length) (argv : cx.x 11 = state.ustackBase + base)
    (sp :
      cx.x 2 =
        state.ustackBase + (base - argSize args) -
          (state.ustackBase + (base - argSize args)) % 8) :
    { state with phys }.ArgvLayout args (state.ustackBase + base) (cx.x 2)
      fun i => state.ustackBase + argPointer base args i := by
  have stack := ready.stack
  have aligned := stack.aligned
  have sizeEq : userStackSize = 8192 := rfl
  have pageEq : pageSize = 4096 := rfl
  rw [pageEq] at aligned
  have contextLength := cx.length_bytes
  have kept (offset : Nat) (inside : offset < userStackSize) :
      copiedOver final (4096 * (2 ^ 27 - 2)) cx.bytes
          (virtAddr state.ustackBase + offset) =
        final (virtAddr state.ustackBase + offset) := by
    have apart := ready.stack_apart offset inside
    rw [stack.address offset inside, floor, pageEq] at apart
    apply copiedOver_outside
    rw [contextLength]
    omega
  have holdsStack {offset : Nat} {bytes : List UInt8}
      (bound : offset + bytes.length ≤ userStackSize)
      (reads : Reads final (virtAddr state.ustackBase + offset) bytes) :
      state.memorySet.HoldsBytes phys (state.ustackBase + offset)
        bytes := by
    apply image.holds_stack stack bound
    apply reads.congr
    intro k kLt
    rw [Nat.add_assoc]
    exact kept (offset + k) (by omega)
  have register (r : Fin 32) :
      state.memorySet.HoldsBytes phys (trapCxBottomFromTid 0 + 8 * r.val)
        (leBytes 8 (cx.x r)) := by
    intro k kLt
    rw [length_leBytes] at kLt
    have rLt := r.isLt
    obtain ⟨flags, present⟩ := ready.trap_page
    have addressEq := trapCx_address (show 8 * r.val + k < 4096 by omega)
    have trapPage :
        floor (4096 * (2 ^ 27 - 2) + (8 * r.val + k)) = 2 ^ 27 - 2 := by
      rw [floor, pageEq]
      omega
    rw [← trapPage] at present
    have notTrampoline :
        floor (4096 * (2 ^ 27 - 2) + (8 * r.val + k)) ≠ trampolineVpn := by
      rw [trapPage]
      decide
    rw [Nat.add_assoc, addressEq, image.byteAt_eq present notTrampoline,
      copiedOver, if_pos (by rw [contextLength]; omega),
      Nat.add_sub_cancel_left, cx.bytes_register r kLt]
  have pointerBounds (i : Nat) (iLt : i < args.length) :=
    argPointer_bounds fits iLt
  exact {
    x10 := argc ▸ register 10
    x11 := argv ▸ register 11
    x2 := register 2
    argv_aligned := by omega
    slots := by
      intro i iLt
      rw [Nat.add_assoc]
      apply holdsStack (by rw [length_leBytes]; omega)
      exact pushed.slots i iLt
    in_stack := by
      intro i iLt
      have bounds := pointerBounds i iLt
      dsimp only
      omega
    strings := by
      intro i iLt
      have bounds := pointerBounds i iLt
      apply holdsStack _ (pushed.strings i iLt)
      rw [length_append, length_singleton]
      omega
    last_slot := by
      rw [Nat.add_assoc]
      apply holdsStack (by rw [length_leBytes]; omega)
      apply (reads_copiedOver content _ _).congr
      intro k kLt
      rw [Nat.add_assoc]
      exact pushed.others _ (by omega)
    strings_apart := by
      intro i iLt j jLt different
      rcases Nat.lt_or_gt_of_ne different with less | greater
      · have apart := argPointer_apart fits less jLt
        omega
      · have apart := argPointer_apart fits greater iLt
        omega
    array_apart := by
      intro i iLt
      have bounds := pointerBounds i iLt
      omega
    sp_aligned := by
      rw [sp]
      omega
    sp_in_stack := by
      dsimp only
      rw [sp]
      omega
    sp_below_argv := by
      rw [sp]
      omega
    sp_below_strings := by
      intro i iLt
      have bounds := pointerBounds i iLt
      rw [sp]
      omega }

/-- The second half of `exec` returns, and the arguments are laid out. -/
theorem Ready.execArgs (ready : state.Ready text trapCxPpn pages content)
    (entryPoint : Nat) (kernel : KernelContext)
    (fits : (args.length + 1) * 8 + argSize args ≤ userStackSize) :
    ∃ after argvBase sp pointer,
      state.execArgs text trapCxPpn entryPoint kernel args = .ok after ∧
        after.ustackBase = state.ustackBase ∧
        after.ArgvLayout args argvBase sp pointer := by
  have stack := ready.stack
  have topLt := stack.top_lt
  have aligned := stack.aligned
  have sizeEq : userStackSize = 8192 := rfl
  have pageEq : pageSize = 4096 := rfl
  rw [pageEq] at aligned
  -- the offset of the array on the stack
  obtain ⟨base, baseEq⟩ :
      ∃ base, base = userStackSize - (args.length + 1) * 8 := ⟨_, rfl⟩
  have argvEq :
      usizeSub (state.ustackTop 0) ((args.length + 1) * 8) =
        state.ustackBase + base := by
    rw [ready.ustackTop, usizeSub_of_le (by omega) topLt]
    omega
  have slotsEq :
      ((List.range (args.length + 1)).mapM fun arg =>
        translatedRefmut state.phys.memory
          state.memorySet.pageTable.token
          ((state.ustackBase + base + arg * 8) % 2 ^ 64)) =
        .ok ((List.range (args.length + 1)).map fun arg =>
          stackPlace pages (state.ustackBase + (base + 8 * arg))) := by
    apply mapM_eq_ok
    intro arg member
    have argLt := mem_range.mp member
    have addressEq :
        (state.ustackBase + base + arg * 8) % 2 ^ 64 =
          state.ustackBase + (base + 8 * arg) := by
      rw [Nat.mod_eq_of_lt (by omega)]
      omega
    rw [addressEq]
    exact ready.image.translated stack (by omega)
  have slotAt (i : Nat) (iLt : i < args.length + 1) :
      ((List.range (args.length + 1)).map fun arg =>
        stackPlace pages (state.ustackBase + (base + 8 * arg)))[i]? =
        some (stackPlace pages (state.ustackBase + (base + 8 * i))) := by
    rw [getElem?_map, getElem?_range iLt]
    rfl
  have lastInside : base + 8 * args.length < userStackSize := by omega
  have lastInPage :
      (base + 8 * args.length) % pageSize + (leBytes 8 0).length ≤
        pageSize := by
    rw [length_leBytes, pageEq]
    omega
  obtain ⟨zeroed, zeroEq, imageZero⟩ :=
    ready.image.putStack stack lastInside lastInPage
  obtain ⟨pushed, final, pushEq, imagePushed, argsPushed⟩ :=
    imageZero.pushArgs stack (show base % 8 = 0 by omega) (Nat.le_refl base)
      (show base + 8 * args.length ≤ userStackSize by omega)
      (show argSize args ≤ base by omega)
      fun i iLt => slotAt i (Nat.lt_succ_of_lt iLt)
  obtain ⟨flags, trapPresent⟩ := ready.trap_page
  obtain ⟨cx, cxEq⟩ :
      ∃ cx, cx =
        (TrapContext.appInitContext kernel.sstatus entryPoint
          (state.ustackBase + (base - argSize args) -
            (state.ustackBase + (base - argSize args)) % 8)
          kernel.kernelSatp kernel.kernelSp kernel.trapHandler).setArgs
            args.length (state.ustackBase + base) :=
    ⟨_, rfl⟩
  obtain ⟨last, lastEq, imageLast⟩ :=
    imagePushed.put trapPresent (by decide)
      (show 0 + cx.bytes.length ≤ pageSize by
        rw [cx.length_bytes]
        decide)
  rw [Nat.add_zero] at lastEq imageLast
  refine ⟨{ state with phys := last }, _, _, _, ?_, rfl,
    ready.layout (show argSize args ≤ base by omega)
      (show base + (args.length + 1) * 8 = userStackSize by omega)
      argsPushed imageLast (by rw [cxEq]; rfl) (by rw [cxEq]; rfl)
      (by rw [cxEq]; rfl)⟩
  rw [ThreadAreas.execArgs, argvEq]
  apply bind_eq_ok.mpr
  refine ⟨_, slotsEq, ?_⟩
  rw [slotAt args.length (Nat.lt_succ_self _)]
  apply bind_eq_ok.mpr
  refine ⟨_, rfl, bind_eq_ok.mpr ⟨zeroed, zeroEq, ?_⟩⟩
  apply bind_eq_ok.mpr
  refine ⟨_, pushEq, ?_⟩
  apply bind_eq_ok.mpr
  refine ⟨last, ?_, rfl⟩
  rw [← cxEq]
  exact lastEq

end ThreadAreas

end RCoreOS.Kernel
