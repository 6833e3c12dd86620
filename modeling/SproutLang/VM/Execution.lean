/-
  SproutLang.VM.Execution
  ───────────────────────
  **DECODE AND EXECUTE** (`src/vm/decode.h`, `decode.cpp`, `execution.h`,
  `execution.cpp`, `vm.cpp`).

  A `uint64_t&` destination is the register byte it refers to.  Integer
  arithmetic is that of 64-bit words; a division by zero and an access past
  an array of the struct stop with `undefinedBehaviour`.  `iterate` is one
  round of the loop in `run`.
-/
import SproutLang.VM.Heap.Collector

namespace SproutLang

open Library

/-! ## §1. Decoding (`decode.h`). -/

/-- The four bytes of an instruction word. -/
structure DecodedInstr where
  opcode : Byte
  ra : Byte
  rb : Byte
  rc : Byte
  deriving DecidableEq, Repr

/-- Byte 3, the opcode. -/
def op (instr : BitVec 32) : Byte := (instr >>> 24).setWidth 8

/-- Byte 2. -/
def ra (instr : BitVec 32) : Byte := ((instr >>> 16) &&& 0xFF).setWidth 8

/-- Byte 1. -/
def rb (instr : BitVec 32) : Byte := ((instr >>> 8) &&& 0xFF).setWidth 8

/-- Byte 0. -/
def rc (instr : BitVec 32) : Byte := (instr &&& 0xFF).setWidth 8

/-- An instruction word in its bytes. -/
def decode (instr : BitVec 32) : DecodedInstr :=
  { opcode := op instr, ra := ra instr, rb := rb instr, rc := rc instr }

/-- `vm.stack[vm.sp++] = a`. -/
def push (a : Word) : Exec Unit := do
  let vm ← get
  -- nothing compares `sp` with the size of the stack
  storeSlot vm.sp.toNat a
  modify fun vm => { vm with sp := vm.sp + 1 }

/-- `return vm.stack[--vm.sp]`. -/
def pop : Exec Word := do
  -- `sp` is unsigned: below an empty stack it wraps
  modify fun vm => { vm with sp := vm.sp - 1 }
  let vm ← get
  loadSlot vm.sp.toNat

/-! ## §2. Arithmetic. -/

/-- The shape `add`, `sub`, `mul` and `div` share: two doubles, two integers,
or a throw. -/
def arithmetic (dop : Arith) (iop : Int → Int → Exec Word) (dst : Byte) (a b : Word) :
    Exec Unit := do
  if isDouble a && isDouble b then
    setReg dst ((← get).fpu.arith dop a b)
  else if isInt a && isInt b then
    -- `encodeInt` keeps the low 48 bits of the result
    let res ← iop (decodeInt a) (decodeInt b)
    setReg dst (encodeInt res)
  else
    throw (.runtimeError "Invalid Operand types!")

/-- The sum of two integers or two doubles. -/
def add (dst : Byte) (a b : Word) : Exec Unit :=
  arithmetic .add (fun da db => return BitVec.ofInt 64 (da + db)) dst a b

/-- Their difference. -/
def sub (dst : Byte) (a b : Word) : Exec Unit :=
  arithmetic .sub (fun da db => return BitVec.ofInt 64 (da - db)) dst a b

/-- The `int64_t` product is taken to wrap. -/
def mul (dst : Byte) (a b : Word) : Exec Unit :=
  arithmetic .mul (fun da db => return BitVec.ofInt 64 (da * db)) dst a b

/-- `int64_t` division truncates towards zero. -/
def div (dst : Byte) (a b : Word) : Exec Unit :=
  arithmetic .div
    (fun da db => do
      -- the source divides unchecked
      if db = 0 then throw .undefinedBehaviour
      return BitVec.ofInt 64 (Int.tdiv da db)) dst a b

/-- The next two words of the code into a register. -/
def loadIntoReg (reg : Byte) : Exec Unit := do
  let val ← fetch64
  setReg reg val

/-- What `end` prints: nothing for a word of another type. -/
def printed (ret : Word) : List Output :=
  -- the order of the tests is the source's
  if isInt ret then [.int (decodeInt ret)]
  else if isDouble ret then [.double ret]
  else if isChar6 ret then [.char6 (decodeChar6 ret)]
  else []

/-- `end`: the value is printed, and nothing else happens. -/
def endWith (ret : Word) : Exec Unit :=
  modify fun vm => { vm with out := vm.out ++ printed ret }

/-! ## §3. Comparison and branches. -/

/-- The flag the branches look at. -/
def setJmpFlag (flag : Int) : Exec Unit := modify fun vm => { vm with jmpFlag := flag }

/-- Two operands of one kind are compared, the result goes to the flag. -/
def compare (a b : Word) : Exec Unit := do
  if isDouble a && isDouble b then
    let fpu := (← get).fpu
    -- a NaN is neither: the flag is 0
    if fpu.eq a b then setJmpFlag 1
    else if fpu.lt a b then setJmpFlag (-1)
    else if fpu.lt b a then setJmpFlag 2
    else setJmpFlag 0
  else if isInt a && isInt b then
    let da := decodeInt a
    let db := decodeInt b
    if da = db then setJmpFlag 1
    else if da < db then setJmpFlag (-1)
    else if da > db then setJmpFlag 2
    else setJmpFlag 0
  else if isBool a && isBool b then
    -- two booleans are equal or not, never in order
    if decodeBool a = decodeBool b then setJmpFlag 1
    else setJmpFlag 0
  else
    throw (.runtimeError "Invalid Operand types")

/-- `if (taken) vm.ip = fetch(vm); else vm.ip += 4;`. -/
def branch (taken : Int → Bool) : Exec Unit := do
  if taken (← get).jmpFlag then
    let target ← fetch
    modify fun vm => { vm with ip := target.setWidth 64 }
  else
    -- the target word is skipped unread
    modify fun vm => { vm with ip := vm.ip + 4 }

/-- Taken if equal. -/
def je : Exec Unit := branch (fun flag => flag = 1)

/-- Taken if not equal. -/
def jne : Exec Unit := branch (fun flag => flag ≠ 1)

/-- Taken if less. -/
def jl : Exec Unit := branch (fun flag => flag = -1)

/-- Taken if greater. -/
def jg : Exec Unit := branch (fun flag => flag = 2)

/-! ## §4. Calls and the stack. -/

/-- The table has `FUNCTION_TABLE_SIZE` entries; the index has 24 bits. -/
def functionAt (index : Nat) : Exec FunctionInfo := fun vm =>
  if index < FUNCTION_TABLE_SIZE then .ok (vm.functionTable index) vm
  else .error .undefinedBehaviour vm

/-- `(a << 16) | (b << 8) | c`. -/
def callIndex (a b c : Byte) : Nat :=
  ((a.setWidth 32 <<< 16) ||| (b.setWidth 32 <<< 8) ||| c.setWidth 32 : BitVec 32).toNat

/-- FP and IP are pushed, the frame is reserved, and IP goes to the function's
entry. -/
def call (a b c : Byte) : Exec Unit := do
  let f ← functionAt (callIndex a b c)
  -- the caller's frame pointer, then the address behind the `call`
  push (← get).fp
  push (← get).ip
  modify fun vm => { vm with fp := vm.sp }
  modify fun vm => { vm with sp := vm.sp + f.frameSize.setWidth 64 }
  modify fun vm => { vm with ip := f.entryIP.setWidth 64 }

/-- The frame is dropped, IP and FP are popped. -/
def ret : Exec Unit := do
  -- the frame is dropped, whatever was pushed in it
  modify fun vm => { vm with sp := vm.fp }
  let ip ← pop
  modify fun vm => { vm with ip := ip }
  let fp ← pop
  modify fun vm => { vm with fp := fp }

/-- `(a << 8) | b`. -/
def stackPoint (a b : Byte) : Nat :=
  ((a.setWidth 16 <<< 8) ||| b.setWidth 16 : BitVec 16).toNat

/-- A word into a stack slot. -/
def insertIntoStack (a b : Byte) (target : Word) : Exec Unit :=
  storeSlot (stackPoint a b) target

/-- A stack slot into a register. -/
def readFromStack (a b target : Byte) : Exec Unit := do
  let w ← loadSlot (stackPoint a b)
  setReg target w

/-! ## §5. Moves and arrays. -/

/-- With flags 1 to 3 the register's word itself, tag bits included, is the
address that is dereferenced. -/
def mov (dst src flag : Byte) : Exec Unit := do
  let vm ← get
  if flag = 1 then
    let w ← onStore (load (vm.reg src).toNat)
    setReg dst w
  else if flag = 2 then
    onStore (store (vm.reg dst).toNat (vm.reg src))
  else if flag = 3 then
    let w ← onStore (load (vm.reg src).toNat)
    onStore (store (vm.reg dst).toNat w)
  else
    setReg dst (vm.reg src)

/-- A new array. -/
def arrInit (dst len type : Byte) : Exec Unit := initArray dst len type

/-- An access to an array. -/
def arrAccess (target array index : Byte) (flag : Nat) : Exec Unit :=
  moveArray target array index flag

/-! ## §6. The dispatcher (`execution.cpp`) and the loop (`vm.cpp`). -/

/-- The instruction an opcode selects. -/
def executeOp (opcode : Opcode) (d : DecodedInstr) : Exec Unit := do
  let reg := (← get).reg
  match opcode with
  | .opAdd => add d.ra (reg d.rb) (reg d.rc)
  | .opSub => sub d.ra (reg d.rb) (reg d.rc)
  | .opMul => mul d.ra (reg d.rb) (reg d.rc)
  | .opDiv => div d.ra (reg d.rb) (reg d.rc)
  | .opLoad64 => loadIntoReg d.ra
  | .opCmp => compare (reg d.ra) (reg d.rb)
  | .opJe => je
  | .opJne => jne
  | .opJl => jl
  | .opJg => jg
  | .opCall => call d.ra d.rb d.rc
  | .opRet => ret
  | .opPush => push (reg d.ra)
  | .opPop => do
      let w ← pop
      setReg d.ra w
  | .opMov => mov d.ra d.rb d.rc
  | .opInsertIntoStack => insertIntoStack d.ra d.rb (reg d.rc)
  | .opReadFromStack => readFromStack d.ra d.rb d.rc
  | .opArrInit => arrInit d.ra d.rb d.rc
  | .opArrInsert => arrAccess d.ra d.rb d.rc 0
  | .opArrRead => arrAccess d.ra d.rb d.rc 1
  | .opEnd => do
      endWith (reg d.ra)
      -- `end` stops the loop before both heaps are freed
      modify fun vm => { vm with running := false }
      onHeap .A freeHeap
      onHeap .B freeHeap
  | .opDebugReturn => endWith (reg d.ra)

/-- The `switch` over the opcode; other bytes are a runtime error. -/
def execute (d : DecodedInstr) : Exec Unit :=
  match Opcode.ofByte d.opcode with
  | some opcode => executeOp opcode d
  | none => throw (.runtimeError s!"Invalid opcode: 0x{hex02 d.opcode.toNat}")

/-- On the byte of an opcode the dispatcher runs that opcode's case. -/
theorem execute_toByte (opcode : Opcode) (a b c : Byte) :
    execute ⟨opcode.toByte, a, b, c⟩ = executeOp opcode ⟨opcode.toByte, a, b, c⟩ := by
  unfold execute
  simp only [Opcode.ofByte_toByte]

/-- One round of the loop in `run`. -/
def iterate : Exec Unit := do
  let instruction ← fetch
  execute (decode instruction)

/-- The loop of `run`, for at most `rounds` rounds; `false` when the machine
is still running after them. -/
def run : Nat → Exec Bool
  | 0 => return !(← get).running
  | rounds + 1 => do
      if (← get).running then
        iterate
        run rounds
      else return true

end SproutLang
