/-
  SproutLang.Assembler.Assembler
  ──────────────────────────────
  **THE ASSEMBLER** (`tools/assembler/assembler.py`).

  From the text of a source file to the bytes of an image.  The object's
  attributes are the state `Asm`; `_cur_func` is the last function while
  `_in_func` holds.  An exception that `_pass1` catches ends in
  `sys.exit` with the line, any other leaves the program uncaught.
-/
import SproutLang.Assembler.Python
import SproutLang.Shared.Format
import SproutLang.Library.BigEndian
import SproutLang.Library.Exec

namespace SproutLang.Assembler

open Library

/-! ## §1. Exceptions. -/

/-- Every `raise` of the file and the exceptions of the calls it makes. -/
inductive PyError where
  | outsideFunc (mnemonic : Str)
  | unknownMnemonic (mnemonic : Str)
  | unhandledMnemonic (mnemonic : Str)
  | expectedRegister (tok : Str)
  | badRegister (tok : Str)
  | registerRange (n : Int)
  | branchTarget (tok : Str)
  | callRange (idx : Int)
  | nestedFunc
  | endfuncWithoutFunc
  | char6TooLong (s : Str)
  | cannotEncode (tok : Str)
  /-- `int()` refuses the text: a `ValueError`. -/
  | notAnInt (tok : Str)
  /-- `s.encode('ascii')` refuses a character: a `UnicodeEncodeError`, which
  is a `ValueError`. -/
  | notAscii (s : Str)
  /-- `toks[i]` past the end: an `IndexError`. -/
  | listIndex
  /-- `struct.error`: the number does not fit the format. -/
  | structRange
  deriving DecidableEq, Repr

/-- `except (SyntaxError, ValueError, KeyError)`. -/
def PyError.caught : PyError → Bool
  | .listIndex | .structRange => false
  | _ => true

/-- The text of the exception. -/
def PyError.text (py : Python) : PyError → String
  | .outsideFunc m => s!"Instruction {py.repr m} outside .func block"
  | .unknownMnemonic m => s!"Unknown mnemonic: {py.repr m}"
  | .unhandledMnemonic m => s!"Unhandled mnemonic: {py.repr m}"
  | .expectedRegister t => s!"Expected register, got {py.repr t}"
  | .badRegister t => s!"Bad register: {py.repr t}"
  | .registerRange n => s!"Register out of range: {n}"
  | .branchTarget t => s!"Branch target must be a label reference (@name), got {py.repr t}"
  | .callRange n => s!"Function index out of 24-bit range: {n}"
  | .nestedFunc => ".func inside another .func"
  | .endfuncWithoutFunc => ".endfunc without .func"
  | .char6TooLong s => s!"char6 literal too long ({s.length} chars, max 6): {py.repr s}"
  | .cannotEncode t => s!"Cannot encode literal: {py.repr t}"
  | .notAnInt t =>
      if (py.decimalOf t).isSome ∧ MAX_STR_DIGITS < digitCount (py.toAsciiDigits t) then
        s!"Exceeds the limit ({MAX_STR_DIGITS} digits) for integer string conversion: value has "
          ++ s!"{digitCount (py.toAsciiDigits t)} digits; use sys.set_int_max_str_digits() "
          ++ "to increase the limit"
      else s!"invalid literal for int() with base 0: {py.repr t}"
  | .notAscii _ => "'ascii' codec can't encode character: ordinal not in range(128)"
  | .listIndex => "list index out of range"
  | .structRange => "'I' format requires 0 <= number <= 4294967295"

/-- How a run of the assembler ends without an image. -/
inductive Failure where
  /-- `sys.exit(f"Line {lineno}: {e}\n  > {raw.rstrip()}")`. -/
  | line (lineno : Nat) (e : PyError) (raw : Str)
  /-- `sys.exit("Unterminated .func block at end of file")`. -/
  | unterminated
  /-- `sys.exit(f"Function {name!r}: undefined label @{label}")`. -/
  | undefinedLabel (function label : Str)
  /-- A traceback. -/
  | uncaught (e : PyError)
  deriving DecidableEq, Repr

/-! ## §2. Encoding literals. -/

/-- The exponent bits of every boxed value. -/
def NAN_BASE : Nat := 0x7FF0000000000000

/-- Tag of a 48-bit integer. -/
def TAG_INT48 : Nat := 1

/-- Tag of a boolean. -/
def TAG_BOOL : Nat := 3

/-- Tag of up to six characters. -/
def TAG_CHAR6 : Nat := 4

/-- Tag of `null`. -/
def TAG_NULL : Nat := 5

/-- `NAN_BASE | (tag << 48) | payload`. -/
def box (tag payload : Nat) : Nat := NAN_BASE ||| (tag <<< 48) ||| payload

/-- `n & 0x0000_FFFF_FFFF_FFFF` keeps the low 48 bits of any integer. -/
def encode_int48 (n : Int) : Nat := box TAG_INT48 (n % 2 ^ 48).toNat

/-- The word of a boolean. -/
def encode_bool (b : Bool) : Nat := box TAG_BOOL (if b then 1 else 0)

/-- The word of `null`. -/
def encode_null : Nat := box TAG_NULL 0

/-- `int.from_bytes(raw, 'little')`. -/
def fromBytesLittle : List Nat → Nat
  | [] => 0
  | b :: bs => b + 256 * fromBytesLittle bs

/-- A text of six ASCII characters at most, the first one in the lowest
byte. -/
def encode_char6 (s : Str) : Except PyError Nat :=
  if s.length > 6 then .error (.char6TooLong s)
  else if s.all isAscii then
    -- `.ljust(6, b'\x00')`
    let raw := s.map Char.toNat ++ List.replicate (6 - s.length) 0
    .ok (box TAG_CHAR6 (fromBytesLittle raw &&& 0x0000FFFFFFFFFFFF))
  else .error (.notAscii s)

/-- `token[1:-1]`. -/
def stripQuotes (token : Str) : Str := (token.drop 1).dropLast

/-- The token starts and ends with `q`. -/
def quotedBy (q : Char) (token : Str) : Bool := startsWith token q && endsWith token q

/-- A literal: the forms are tried in this order, and `int` before `float`. -/
def encode_value (py : Python) (token : Str) : Except PyError Nat :=
  if token = "null".toList then .ok encode_null
  else if token = "true".toList ∨ token = "false".toList then
    .ok (encode_bool (token = "true".toList))
  else if quotedBy '"' token || quotedBy '\'' token then encode_char6 (stripQuotes token)
  else
    -- `int(token, 0)` first: `0x1e5` is a number in base 16, not a float
    match py.int0 token with
    | some n => .ok (encode_int48 n)
    | none =>
        match py.float token with
        | some d => .ok d.toNat
        | none => .error (.cannotEncode token)

/-! ## §3. Mnemonics and packing. -/

/-- The mnemonics and their opcodes. -/
def OPCODES : List (Str × Opcode) :=
  [("add".toList, .opAdd), ("sub".toList, .opSub), ("mul".toList, .opMul),
   ("div".toList, .opDiv), ("end".toList, .opEnd), ("load".toList, .opLoad64),
   ("cmp".toList, .opCmp), ("dbgret".toList, .opDebugReturn), ("je".toList, .opJe),
   ("jne".toList, .opJne), ("jl".toList, .opJl), ("jg".toList, .opJg),
   ("call".toList, .opCall), ("ret".toList, .opRet), ("push".toList, .opPush),
   ("pop".toList, .opPop), ("ins".toList, .opInsertIntoStack),
   ("read".toList, .opReadFromStack), ("mov".toList, .opMov), ("arr".toList, .opArrInit),
   ("arrins".toList, .opArrInsert), ("arrread".toList, .opArrRead)]

/-- `struct.pack('>I', n)`. -/
def structPackI (n : Nat) : Except PyError (List Byte) :=
  if n < 2 ^ 32 then .ok (bigEndian 4 n) else .error .structRange

/-- The fields are joined as they come; only the result has to fit 32 bits.
Joining a negative number gives a negative number. -/
def pack_instr (opcode : Opcode) (ra rb : Nat) (rc : Int) : Except PyError (List Byte) :=
  match rc with
  | .ofNat c => structPackI ((opcode.toNat <<< 24) ||| (ra <<< 16) ||| (rb <<< 8) ||| c)
  | .negSucc _ => .error .structRange

/-- `struct.pack('>I', n & 0xFFFF_FFFF)`. -/
def pack_u32 (n : Int) : List Byte := bigEndian 4 (n % 2 ^ 32).toNat

/-- `struct.pack('>Q', n & 0xFFFF_FFFF_FFFF_FFFF)`. -/
def pack_u64 (n : Nat) : List Byte := bigEndian 8 (n % 2 ^ 64)

/-! ## §4. Tokens. -/

/-- The comment is cut off, commas become blanks, and the rest is split at
white space. -/
def tokenise_line (line : Str) : List Str :=
  splitWords (replaceChar ',' ' ' (beforeSep ';' line))

/-- `r` or `R` and a number from 0 to 255. -/
def parse_reg (py : Python) (tok : Str) : Except PyError Nat :=
  if startsWith (py.lower tok) 'r' then
    -- the prefix is compared in lower case, the number read behind one character
    match py.int10 (tok.drop 1) with
    | none => .error (.badRegister tok)
    | some n => if 0 ≤ n ∧ n ≤ 255 then .ok n.toNat else .error (.registerRange n)
  else .error (.expectedRegister tok)

/-- `toks[i]`. -/
def tokAt (toks : List Str) (i : Nat) : Except PyError Str :=
  match toks[i]? with
  | some t => .ok t
  | none => .error .listIndex

/-- `parse_reg(toks[i])`. -/
def regAt (py : Python) (toks : List Str) (i : Nat) : Except PyError Nat := do
  parse_reg py (← tokAt toks i)

/-- `int(tok, 0)` with its `ValueError`. -/
def intOf (py : Python) (tok : Str) : Except PyError Int :=
  match py.int0 tok with
  | some n => .ok n
  | none => .error (.notAnInt tok)

/-! ## §5. The assembler object. -/

/-- One entry of `self.functions`.  `labels` has the latest definition of a
name first; a patch is the offset of its branch and the label's name. -/
structure Func where
  name : Str
  frameSize : Int
  labels : List (Str × Nat)
  patches : List (Nat × Str)
  raw : List Byte
  deriving DecidableEq, Repr

/-- The assembler's state: the functions so far, and whether one is open. -/
structure Asm where
  functions : List Func
  inFunc : Bool
  deriving DecidableEq, Repr

/-- A step of the assembler, which may raise an exception. -/
abbrev AsmM := EStateM PyError Asm

/-- A pure step, which leaves the state. -/
def liftPy {α : Type} (x : Except PyError α) : AsmM α := fun a =>
  match x with
  | .ok v => .ok v a
  | .error e => .error e a

/-- Change the function that is open. -/
def Asm.modifyLast (f : Func → Func) (a : Asm) : Asm :=
  match a.functions.getLast? with
  | some last => { a with functions := a.functions.dropLast ++ [f last] }
  | none => a

/-- Instructions stand inside a function. -/
def _require_func (mnemonic : Str) : AsmM Unit := do
  if !(← get).inFunc then throw (.outsideFunc mnemonic)

/-- The bytes go behind the code of the last function. -/
def _emit (data : List Byte) : AsmM Unit :=
  modify (Asm.modifyLast fun f => { f with raw := f.raw ++ data })

/-- Where the next byte of the last function goes. -/
def _cur_offset : AsmM Nat := do
  match (← get).functions.getLast? with
  | some f => return f.raw.length
  | none => return 0

/-- The value of the last `framesize=` token, 0 when there is none. -/
def frameSizeOf (py : Python) : List Str → Int → Except PyError Int
  | [], n => .ok n
  | tok :: toks, n =>
      if "framesize=".toList.isPrefixOf (py.lower tok) then
        -- `split` looks at the token itself; an `=` of another script is none
        match afterSep '=' tok with
        | some v => do frameSizeOf py toks (← intOf py v)
        | none => .error .listIndex
      else frameSizeOf py toks n

/-- A `.func` line opens a function, if none is open. -/
def _begin_func (py : Python) (toks : List Str) : AsmM Unit := do
  let a ← get
  if a.inFunc then throw .nestedFunc
  -- without a name the function is called after its index
  let name := toks[1]?.getD (s!"func{a.functions.length}").toList
  let frameSize ← liftPy (frameSizeOf py (toks.drop 2) 0)
  set ({ functions := a.functions ++ [{ name, frameSize, labels := [], patches := [], raw := [] }]
         inFunc := true } : Asm)

/-- An `.endfunc` line closes it. -/
def _end_func : AsmM Unit := do
  if !(← get).inFunc then throw .endfuncWithoutFunc
  modify fun a => { a with inFunc := false }

/-- `pack_instr` of three registers. -/
def emitRegs (py : Python) (op : Opcode) (toks : List Str) : AsmM Unit := do
  let a ← liftPy (regAt py toks 1)
  let b ← liftPy (regAt py toks 2)
  let c ← liftPy (regAt py toks 3)
  _emit (← liftPy (pack_instr op a b c))

/-- The body of one mnemonic. -/
def _handle_mnemonic (py : Python) (op : Opcode) (toks : List Str) : AsmM Unit :=
  match op with
  | .opLoad64 => do
      let dst ← liftPy (regAt py toks 1)
      let val ← liftPy (encode_value py (← liftPy (tokAt toks 2)))
      _emit (← liftPy (pack_instr op dst 0 0))
      _emit (pack_u64 val)
  | .opAdd | .opSub | .opMul | .opDiv => emitRegs py op toks
  | .opCmp => do
      let a ← liftPy (regAt py toks 1)
      let b ← liftPy (regAt py toks 2)
      _emit (← liftPy (pack_instr op a b 0))
  | .opJe | .opJne | .opJl | .opJg => do
      let labelTok ← liftPy (tokAt toks 1)
      if !startsWith labelTok '@' then throw (.branchTarget labelTok)
      -- the label may come later: the target is left zero and noted
      let patchOffset ← _cur_offset
      _emit (← liftPy (pack_instr op 0 0 0))
      _emit [0, 0, 0, 0]
      modify (Asm.modifyLast fun f =>
        { f with patches := f.patches ++ [(patchOffset, labelTok.drop 1)] })
  | .opCall => do
      let idx ← liftPy (intOf py (← liftPy (tokAt toks 1)))
      if ¬ (0 ≤ idx ∧ idx ≤ 0xFFFFFF) then throw (.callRange idx)
      -- the three fields of a 24-bit index
      let i := idx.toNat
      _emit (← liftPy (pack_instr op (i / 2 ^ 16 % 256) (i / 2 ^ 8 % 256) ((i % 256 : Nat) : Int)))
  | .opRet => do
      _emit (← liftPy (pack_instr op 0 0 0))
  | .opPush | .opPop | .opEnd | .opDebugReturn => do
      let reg ← liftPy (regAt py toks 1)
      _emit (← liftPy (pack_instr op reg 0 0))
  | .opMov => do
      let dst ← liftPy (regAt py toks 1)
      let src ← liftPy (regAt py toks 2)
      let flag ← match toks[3]? with
        | some t => liftPy (intOf py t)
        | none => pure 0
      _emit (← liftPy (pack_instr op dst src flag))
  | .opArrInit | .opArrInsert | .opArrRead | .opInsertIntoStack | .opReadFromStack =>
      emitRegs py op toks

/-- One line that is not blank, as its tokens. -/
def _handle_tokens (py : Python) (toks : List Str) : AsmM Unit := do
  let head := py.lower (toks.headD [])
  if head = ".func".toList then _begin_func py toks
  else if head = ".endfunc".toList then _end_func
  else if endsWith head ':' then do
    -- nothing looks at the tokens behind the label
    _require_func "label".toList
    let offset ← _cur_offset
    modify (Asm.modifyLast fun f => { f with labels := (head.dropLast, offset) :: f.labels })
  else do
    _require_func head
    -- the function is asked for first: outside one an unknown mnemonic reads as misplaced
    match OPCODES.lookup head with
    | none => throw (.unknownMnemonic head)
    | some op => _handle_mnemonic py op toks

/-! ## §6. The two passes. -/

/-- The loop of `_pass1` from line `lineno` on. -/
def passLines (py : Python) : Nat → List Str → Asm → Except Failure Asm
  | _, [], a => .ok a
  | lineno, raw :: lines, a =>
      let toks := tokenise_line raw
      if toks = [] then passLines py (lineno + 1) lines a
      else
        match _handle_tokens py toks a with
        | .ok _ a => passLines py (lineno + 1) lines a
        -- an exception of another class ends the run with a traceback
        | .error e _ => if e.caught then .error (.line lineno e raw) else .error (.uncaught e)

/-- All lines, up to the first one that raises an exception. -/
def _pass1 (py : Python) (lines : List Str) : Except Failure Asm := do
  let a ← passLines py 1 lines { functions := [], inFunc := false }
  if a.inFunc then throw .unterminated
  return a

/-- Bytes of the file header. -/
def HEADER_SIZE : Nat := 32

/-- Bytes of an entry of the function table. -/
def FUNC_ENTRY_SIZE : Nat := 8

/-- The code starts behind the header and the function table. -/
def codeOffset (functions : List Func) : Nat :=
  HEADER_SIZE + functions.length * FUNC_ENTRY_SIZE

/-- `func_base_addrs`: where each function's code starts. -/
def baseAddrs : Nat → List Func → List Nat
  | _, [] => []
  | pos, f :: fs => pos :: baseAddrs (pos + f.raw.length) fs

/-- `struct.pack_into('>I', raw, off, n)`. -/
def packInto (raw : List Byte) (off n : Nat) : Except Failure (List Byte) :=
  if n < 2 ^ 32 then .ok (raw.take off ++ bigEndian 4 n ++ raw.drop (off + 4))
  else .error (.uncaught .structRange)

/-- The patches of one function whose code starts at `base`. -/
def patchFunc (base : Nat) (f : Func) : List (Nat × Str) → List Byte → Except Failure (List Byte)
  | [], raw => .ok raw
  | (off, label) :: patches, raw =>
      match f.labels.lookup label with
      -- the message names the function, not the line of the branch
      | none => .error (.undefinedLabel f.name label)
      | some target => do patchFunc base f patches (← packInto raw (off + 4) (base + target))

/-- The patch loop over all functions, the first of which starts at `pos`. -/
def patchAll : Nat → List Func → Except Failure (List (List Byte))
  | _, [] => .ok []
  | pos, f :: fs => do
      let raw ← patchFunc pos f f.patches f.raw
      let raws ← patchAll (pos + f.raw.length) fs
      return raw :: raws

/-- The function table: entry address and frame size, four bytes each. -/
def funcTable : Nat → List Func → List Byte
  | _, [] => []
  | pos, f :: fs => pack_u32 pos ++ pack_u32 f.frameSize ++ funcTable (pos + f.raw.length) fs

/-- `struct.pack('>I', n)` outside `_pass1`. -/
def packHeaderWord (n : Nat) : Except Failure (List Byte) :=
  if n < 2 ^ 32 then .ok (bigEndian 4 n) else .error (.uncaught .structRange)

/-- The eight fields of the header, 32 bits each. -/
def packHeader (functionCount code : Nat) : Except Failure (List Byte) := do
  let count ← packHeaderWord functionCount
  let code ← packHeaderWord code
  -- magic, version, flags, imports, functions, the two tables, the code
  return bigEndian 4 SPROUT_LANG_MAGIC.toNat ++ bigEndian 4 SPROUT_LANG_VERSION.toNat
    ++ bigEndian 4 0 ++ bigEndian 4 0 ++ count
    ++ bigEndian 4 HEADER_SIZE ++ bigEndian 4 HEADER_SIZE ++ code

/-- The second pass: addresses are filled in, and header, table and code
written. -/
def _emit_binary (functions : List Func) : Except Failure (List Byte) := do
  let code := codeOffset functions
  let raws ← patchAll code functions
  let header ← packHeader functions.length code
  return header ++ funcTable code functions ++ raws.flatten

/-- `assemble_file` on the text of the file. -/
def assemble (py : Python) (text : Str) : Except Failure (List Byte) := do
  let a ← _pass1 py (readlines text)
  _emit_binary a.functions

end SproutLang.Assembler
