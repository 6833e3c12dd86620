/-
  SproutLang.VM.Heap.Collector
  ────────────────────────────
  **ALLOCATION, COLLECTION AND ARRAYS** (`src/vm/Heap.cpp`).

  Every function of the file, in its order.  A header is two words (size,
  type and flags share the first, `forwarded` is the second), an array's
  type and length share one word, and the loops over a chunk carry the
  32-bit index of the source.
-/
import SproutLang.VM.State

namespace SproutLang

open Library

/-! ## §1. Headers and array fields in memory. -/

/-- The first word of an `objHeader`: `size`, `type`, `flags`. -/
def headerWord (size type flags : Nat) : Word :=
  BitVec.ofNat 64 (size % 2 ^ 32 + type % 2 ^ 16 * 2 ^ 32 + flags % 2 ^ 16 * 2 ^ 48)

/-- The size in a header word. -/
def objSize (w : Word) : Nat := w.toNat % 2 ^ 32

/-- The type in a header word. -/
def objType (w : Word) : Nat := w.toNat / 2 ^ 32 % 2 ^ 16

/-- The flags in a header word. -/
def objFlags (w : Word) : Nat := w.toNat / 2 ^ 48

/-- The word that holds `type` and `length` of an `arrayObj`. -/
def arrayWord (type length : Nat) : Word :=
  BitVec.ofNat 64 (type % 2 ^ 32 + length % 2 ^ 32 * 2 ^ 32)

/-- The element type in an array's first word. -/
def arrayType (w : Word) : Nat := w.toNat % 2 ^ 32

/-- The length in it. -/
def arrayLength (w : Word) : Nat := w.toNat / 2 ^ 32

/-- `static_cast<objHeader*>(p) - 1`. -/
def headerOf (p : Nat) : Nat := (p + 2 ^ 64 - SIZEOF_OBJ_HEADER) % 2 ^ 64

/-! ## §2. Allocation. -/

/-- Mark the object that the word points to; false when it is no pointer. -/
def markObject (r : Word) : EStateM Fault Store Bool := do
  if isPointer r then
    -- the tag is taken off and the header is the 16 bytes in front
    let hdr := headerOf (decodePointer r)
    let w ← load hdr
    store hdr (headerWord (objSize w) (objType w) (objFlags w ||| FLAG_MARKED))
    return true
  return false

/-- One chunk more, from `malloc`. -/
def allocNewChunk : EStateM Fault Space Unit := do
  match ← inStore (malloc CHUNK_SIZE) with
  | none => throw .badAlloc
  | some mem =>
      modify fun sp =>
        { sp with
          heap.chunks := sp.heap.chunks ++ [{ mem, used := 0, capacity := CHUNK_SIZE }] }

/-- `h.chunks.empty() || h.chunks.back().used + total > CHUNK_SIZE`. -/
def needsChunk (h : Heap) (total : Nat) : Bool :=
  match h.chunks.getLast? with
  | none => true
  | some c => (c.used + total) % 2 ^ 64 > CHUNK_SIZE

/-- The second half of `heapAlloc`: write the header at the end of the last
chunk and advance the counters.  The result is the address behind the
header. -/
def placeInLast (total type : Nat) : EStateM Fault Space Nat := do
  let h := (← get).heap
  match h.chunks.getLast? with
  | none => throw .undefinedBehaviour
  | some c =>
      let ptr := (c.mem + c.used) % 2 ^ 64
      -- `objHeader{size, type, 0}`, then `forwarded`
      inStore (store ptr (headerWord total type 0))
      inStore (store (ptr + 8) 0)
      modify fun sp =>
        { sp with
          heap :=
            { h with
              chunks := h.chunks.dropLast ++ [{ c with used := (c.used + total) % 2 ^ 64 }]
              totalAllocated := (h.totalAllocated + total) % 2 ^ 64 } }
      return ptr + SIZEOF_OBJ_HEADER

/-- Reserve `size` bytes behind a header. -/
def heapAlloc (size type : Nat) : EStateM Fault Space Nat := do
  let total := align (SIZEOF_OBJ_HEADER + size)
  -- a chunk is never grown: an object larger than one gets a chunk all the same
  if needsChunk (← get).heap total then
    allocNewChunk
  placeInLast total type

/-- `std::free` of every chunk; the vector is emptied. -/
def freeChunks : List Chunk → EStateM Fault Store Unit
  | [] => pure ()
  | c :: cs => do
      free c.mem
      freeChunks cs

/-- The chunks are given back, and the counters cleared. -/
def freeHeap : EStateM Fault Space Unit := do
  inStore (freeChunks (← get).heap.chunks)
  modify fun sp => { sp with heap := { sp.heap with chunks := [], totalAllocated := 0 } }

/-! ## §3. Marking. -/

/-- The `while (i < c.used)` loop of `getAllObjects`.  An index below
`c.used` that comes up twice comes up for ever, so `c.used` rounds settle
whether the loop ends. -/
def walkChunk (c : Chunk) : Nat → Nat → EStateM Fault Store (List Nat)
  | rounds, i =>
      if i < c.used then
        match rounds with
        -- an object of size 0, or sizes that wrap: the source stays in the loop
        | 0 => throw .diverges
        | rounds + 1 => do
            let ptr := c.mem + i
            let w ← load ptr
            -- `i` is an `uint32_t`
            let rest ← walkChunk c rounds ((i + objSize w) % 2 ^ 32)
            return ptr :: rest
      else return []

/-- The headers of a heap, chunk by chunk. -/
def getAllObjects : List Chunk → EStateM Fault Store (List Nat)
  | [] => return []
  | c :: cs => do
      let objects ← walkChunk c c.used 0
      let rest ← getAllObjects cs
      return objects ++ rest

/-- A `uint64_t*` of `ptrHolder`: where a pointer was found. -/
inductive Slot where
  | reg (r : Byte)
  | stack (i : Nat)
  | heap (a : Nat)
  deriving DecidableEq, Repr

/-- A slot of the VM's stack array. -/
def loadSlot (i : Nat) : Exec Word := fun vm =>
  if i < STACK_SIZE then .ok (vm.stack i) vm else .error .undefinedBehaviour vm

/-- A word into a stack slot inside the stack. -/
def storeSlot (i : Nat) (w : Word) : Exec Unit := fun vm =>
  if i < STACK_SIZE then .ok () (vm.setSlot i w) else .error .undefinedBehaviour vm

/-- A word into a register. -/
def setReg (r : Byte) (w : Word) : Exec Unit := fun vm => .ok () (vm.setReg r w)

/-- What a slot holds. -/
def Slot.read : Slot → Exec Word
  | .reg r => fun vm => .ok (vm.reg r) vm
  | .stack i => loadSlot i
  | .heap a => onStore (load a)

/-- A new word for a slot. -/
def Slot.write : Slot → Word → Exec Unit
  | .reg r, w => SproutLang.setReg r w
  | .stack i, w => storeSlot i w
  | .heap a, w => onStore (store a w)

/-- Mark what each slot points to and keep the slots that hold a pointer. -/
def markSlots : List Slot → Exec (List Slot)
  | [] => return []
  | s :: ss => do
      let r ← s.read
      let isPtr ← onStore (markObject r)
      let rest ← markSlots ss
      return if isPtr then s :: rest else rest

/-- The registers, then the stack slots below `sp`. -/
def rootSlots (vm : VM) : List Slot :=
  (List.range 256).map (fun r => Slot.reg (BitVec.ofNat 8 r))
    ++ (List.range vm.sp.toNat).map Slot.stack

/-- The elements the interior scan visits in the object at `object`, which
it reads as an `arrayObj` that starts at the object's own header. -/
def interiorSlots (object : Nat) : EStateM Fault Store (List Slot) := do
  let w ← load object
  if objType w = OBJ_ARRAY then
    -- `arr->type` and `arr->length`, read through the header's own address
    let array ← load (object + SIZEOF_OBJ_HEADER)
    if arrayType array = TAG_POINTER.toNat then
      return (List.range (arrayLength array)).map
        (fun i => Slot.heap (object + SIZEOF_ARRAY_OBJ + 8 * i))
  return []

/-- The interior scan, object by object in allocation order. -/
def markInterior : List Nat → Exec (List Slot)
  | [] => return []
  | object :: objects => do
      let slots ← onStore (interiorSlots object)
      let found ← markSlots slots
      let rest ← markInterior objects
      return found ++ rest

/-- **The mark phase**: the roots, and then the arrays of pointers, as it finds
them. -/
def markObjects : Exec (List Slot) := do
  let vm ← get
  -- the objects are listed before anything is marked
  let objects ← onStore (getAllObjects (vm.heap vm.active).chunks)
  let roots ← markSlots (rootSlots vm)
  let interior ← markInterior objects
  return roots ++ interior

/-! ## §4. Evacuating, patching, freeing. -/

/-- Copy the object at `obj` to the other heap and leave its new address in
`forwarded`. -/
def evacuate (obj : Nat) (w : Word) : EStateM Fault Space Unit := do
  let bytes := (objSize w + 2 ^ 64 - SIZEOF_OBJ_HEADER) % 2 ^ 64
  let newAddr ← heapAlloc bytes (objType w)
  -- the payload only: `heapAlloc` has written the new header
  inStore (memcpy newAddr (obj + SIZEOF_OBJ_HEADER) bytes)
  -- `obj` still has its old header, so the walk behind it goes on
  inStore (store (obj + 8) (encodePointer (BitVec.ofNat 64 newAddr)))

/-- The `while (i < c.used)` loop of `moveObjects`; rounds as in
`walkChunk`. -/
def moveChunk (c : Chunk) : Nat → Nat → EStateM Fault Space Unit
  | rounds, i =>
      if i < c.used then
        match rounds with
        | 0 => throw .diverges
        | rounds + 1 => do
            let obj := c.mem + i
            let w ← inStore (load obj)
            -- `==`: an object with other flags set would stay behind
            if objFlags w = FLAG_MARKED then
              evacuate obj w
            let w ← inStore (load obj)
            moveChunk c rounds ((i + objSize w) % 2 ^ 32)
      else return ()

/-- `moveObjects(h1, h2)`: the chunks are those of `h1`, the state is memory
and `h2`. -/
def moveObjects : List Chunk → EStateM Fault Space Unit
  | [] => return ()
  | c :: cs => do
      moveChunk c c.used 0
      moveObjects cs

/-- Replace the pointer in a slot by its object's `forwarded`. -/
def patchSlot (s : Slot) : Exec Unit := do
  let raw ← s.read
  let fwd ← onStore (load (headerOf (decodePointer raw) + 8))
  s.write fwd

/-- All slots of the list are patched. -/
def patchSlots : List Slot → Exec Unit
  | [] => return ()
  | s :: ss => do
      patchSlot s
      patchSlots ss

/-- Patch every slot found and free the heap the objects were in. -/
def updatePtrHolder (half : Half) (ptrHolder : List Slot) : Exec Unit := do
  patchSlots ptrHolder
  onHeap half freeHeap

/-- **A collection**: mark, move, patch, free, and the other heap becomes the
active one. -/
def compactingGarbageCollect : Exec Unit := do
  let ptrHolder ← markObjects
  let vm ← get
  let from_ := vm.active
  -- the other half is not emptied first
  onHeap from_.other (moveObjects (vm.heap from_).chunks)
  updatePtrHolder from_ ptrHolder
  modify fun vm => { vm with heapAUsed := !vm.heapAUsed }

/-! ## §5. The collection trigger. -/

/-- A positive integer rounded to the 53 significant bits of a double, ties
to even. -/
def roundSignificand (n : Nat) : Nat :=
  let drop := Nat.log2 n - 52
  let q := n / 2 ^ drop
  let r := n % 2 ^ drop
  if 2 * r > 2 ^ drop ∨ (2 * r = 2 ^ drop ∧ q % 2 = 1 ∧ drop ≠ 0) then (q + 1) * 2 ^ drop
  else q * 2 ^ drop

/-- `totalAllocated > max * 0.7` as the doubles compute it: `0.7` is
`6305039478318694 / 2^53`, and every conversion and product is rounded. -/
def overTrigger (totalAllocated max : Nat) : Bool :=
  roundSignificand (roundSignificand max * 6305039478318694)
    < roundSignificand totalAllocated * 2 ^ 53

/-- An allocation, with a collection in front of it where the trigger is
reached. -/
def gcCollectedHeapAlloc (size type : Nat) : Exec Nat := do
  let vm ← get
  let active := vm.heap vm.active
  if overTrigger active.totalAllocated active.max then
    compactingGarbageCollect
  -- the collection has swapped the halves
  let vm ← get
  onHeap vm.active (heapAlloc size type)

/-! ## §6. Arrays. -/

/-- `static_cast<size_t>(length) * sizeof(uint64_t)`. -/
def elementBytes (length : Int) : Nat := (BitVec.ofInt 64 length).toNat * 8 % 2 ^ 64

/-- Allocate an array and clear its elements.  `ptr` is the address
`heapAlloc` returned, behind the object's header, and the fields are those of
an `arrayObj` that starts there. -/
def initArray (dst len type : Byte) : Exec Unit := do
  let length := decodeInt ((← get).reg len)
  let dataSize := (elementBytes length + 4 * 2) % 2 ^ 64
  let ptr ← gcCollectedHeapAlloc dataSize OBJ_ARRAY
  let fields := ptr + SIZEOF_OBJ_HEADER
  -- the length: `type` and `length` are the halves of one word
  let old ← onStore (load fields)
  onStore (store fields (arrayWord (arrayType old) (BitVec.ofInt 32 length).toNat))
  -- the type, from the low 32 bits of the decoded integer
  let elementType := decodeInt ((← get).reg type)
  let old ← onStore (load fields)
  onStore (store fields (arrayWord (BitVec.ofInt 32 elementType).toNat (arrayLength old)))
  onStore (fillWords (ptr + SIZEOF_ARRAY_OBJ) 0 (elementBytes length / 8))
  setReg dst (encodePointer (BitVec.ofNat 64 ptr))

/-- `{:02X}` of a non-negative number. -/
def hex02 (n : Nat) : String :=
  let digits := (Nat.toDigits 16 n).map Char.toUpper
  String.ofList (List.replicate (2 - digits.length) '0' ++ digits)

/-- The address of element `idx`, in `size_t`. -/
def elementAddr (base : Nat) (idx : Int) : Nat :=
  (base + SIZEOF_ARRAY_OBJ + (BitVec.ofInt 64 idx).toNat * 8) % 2 ^ 64

/-- Element access: flag 0 stores `reg[target]`, flag 1 loads it.  The index
is refused only when it exceeds the length. -/
def moveArray (target address index : Byte) (flag : Nat) : Exec Unit := do
  let vm ← get
  let base := decodePointer (vm.reg address)
  let idx := decodeInt (vm.reg index)
  let element := elementAddr base idx
  let fields ← onStore (load (base + SIZEOF_OBJ_HEADER))
  -- `idx > length`: the length itself passes, and so does a negative index
  if (arrayLength fields : Int) < idx then
    throw (.runtimeError s!"Array out of bounds, index {hex02 idx.toNat} is not valid!")
  if flag = 0 then
    onStore (store element (vm.reg target))
  if flag = 1 then
    let w ← onStore (load element)
    setReg target w

end SproutLang
