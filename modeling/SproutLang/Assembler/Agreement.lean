/-
  SproutLang.Assembler.Agreement
  ──────────────────────────────
  **ASSEMBLER AND VM AGREE ON THE INSTRUCTION STREAM.**

  Decoding the code section of an image with the VM's rules gives the
  instruction lines back, in order and with the operands as written, exactly
  if every `mov` has a flag of one byte (`decodes_to_lines_iff`): the flag is
  the one operand the assembler joins to the word unchecked.
-/
import SproutLang.Assembler.Linking

namespace SproutLang.Assembler

open Library

/-- A decoded instruction says what a line says. -/
def LineAgrees (py : Python) (toks : List Str) (d : Instr) : Prop :=
  ∃ s, readLine py toks = some s ∧ s.Agrees d

/-- The flag of a `mov` line is at most 255. -/
def LineFlagFits (py : Python) (toks : List Str) : Prop :=
  ∀ dst src flag, readLine py toks = some (.mov dst src flag) → flag ≤ 255

section Agreement

variable {py : Python} {toks : List Str}

/-- Line by line, the flag condition is that of what the line says. -/
theorem lineFlagFits_iff {s : SourceInstr} (h : readLine py toks = some s) :
    LineFlagFits py toks ↔ s.FlagFits := by
  unfold LineFlagFits
  rw [h]
  constructor
  · intro hfit
    cases s with
    | mov dst src flag => exact hfit dst src flag rfl
    | regs | load | branch | call => trivial
  · intro hfit dst src flag heq
    injection heq with heq
    subst heq
    exact hfit

/-- What holds of every line holds of everything said. -/
theorem forall_said {lines : List (List Str)} {said : List SourceInstr}
    (h : List.Forall₂ (fun toks s => readLine py toks = some s) lines said) :
    (∀ toks ∈ lines, LineFlagFits py toks) ↔ ∀ s ∈ said, s.FlagFits := by
  induction h with
  | nil => simp
  | cons hread _ ih =>
      rw [List.forall_mem_cons, List.forall_mem_cons, ih, lineFlagFits_iff hread]

/-- Lines agree with what they say. -/
theorem lineAgrees_of_agrees {lines : List (List Str)} {said : List SourceInstr}
    (h : List.Forall₂ (fun toks s => readLine py toks = some s) lines said) :
    ∀ {decoded : List Instr}, List.Forall₂ SourceInstr.Agrees said decoded →
      List.Forall₂ (LineAgrees py) lines decoded := by
  induction h with
  | nil =>
      intro decoded hagrees
      cases hagrees
      exact List.Forall₂.nil
  | @cons toks s lines said hread _ ih =>
      intro decoded hagrees
      cases hagrees with
      | cons hfirst hrest => exact List.Forall₂.cons ⟨s, hread, hfirst⟩ (ih hrest)

/-- A line that agrees with a decoded instruction has a flag of one byte. -/
theorem lineFlagFits_of_agrees {lines : List (List Str)} {decoded : List Instr}
    (h : List.Forall₂ (LineAgrees py) lines decoded) : ∀ toks ∈ lines, LineFlagFits py toks := by
  induction h with
  | nil => simp
  | cons hfirst _ ih =>
      obtain ⟨s, hread, hagrees⟩ := hfirst
      exact List.forall_mem_cons.2 ⟨(lineFlagFits_iff hread).2 hagrees.flagFits, ih⟩

end Agreement

/-- **The code section decodes to the instruction lines**, each with the
opcode of its mnemonic and the operands written in it, if and only if no `mov`
has a flag above 255. -/
theorem decodes_to_lines_iff {py : Python} {text : Str} {bytes : List Byte}
    (h : assemble py text = .ok bytes) :
    (∃ decoded, decodeCode bytes = some decoded ∧
      List.Forall₂ (LineAgrees py) (instrLines py text) decoded) ↔
      ∀ toks ∈ instrLines py text, LineFlagFits py toks := by
  obtain ⟨functions, codes, himage⟩ := assemble_image h
  constructor
  · intro ⟨decoded, _, hagrees⟩
    exact lineFlagFits_of_agrees hagrees
  · intro hfit
    rw [forall_said himage.said] at hfit
    exact ⟨_, himage.decodeCode hfit,
      lineAgrees_of_agrees himage.said (linked_agrees himage.holds _ hfit)⟩

/-- A text with one `mov`, which has the flag `flag`. -/
def movText (flag : String) : Str :=
  ".func main\nmov r1 r2 ".toList ++ flag.toList ++ "\n.endfunc\n".toList

/-- The image of a text that is accepted. -/
def imageOf (text : Str) : List Byte := (assemble Python.ascii text).toOption.getD []

/-- Both sides hold of a `mov` with the flag 3. -/
theorem decodes_to_lines_iff_three :
    (∃ decoded, decodeCode (imageOf (movText "3")) = some decoded ∧
      List.Forall₂ (LineAgrees Python.ascii) (instrLines Python.ascii (movText "3")) decoded) ↔
      ∀ toks ∈ instrLines Python.ascii (movText "3"), LineFlagFits Python.ascii toks :=
  decodes_to_lines_iff (by rfl)

/-- **A flag of 256 changes the source register**: the line decodes to
`mov r1 r3 0`. -/
theorem mov_256_decodes_otherwise :
    assemble Python.ascii (movText "256") = .ok (imageOf (movText "256")) ∧
    (instrLines Python.ascii (movText "256")).map (readLine Python.ascii) = [some (.mov 1 2 256)] ∧
    decodeCode (imageOf (movText "256")) = some [⟨.opMov, 1, 3, 0, .none⟩] ∧
    ¬ ∃ decoded, decodeCode (imageOf (movText "256")) = some decoded ∧
      List.Forall₂ (LineAgrees Python.ascii) (instrLines Python.ascii (movText "256")) decoded := by
  have hlines : instrLines Python.ascii (movText "256")
      = [["mov".toList, "r1".toList, "r2".toList, "256".toList]] := by decide +kernel
  have hread : readLine Python.ascii ["mov".toList, "r1".toList, "r2".toList, "256".toList]
      = some (.mov 1 2 256) := by decide +kernel
  refine ⟨by rfl, ?_, by decide +kernel, ?_⟩
  · rw [hlines, List.map_singleton, hread]
  · intro ⟨decoded, _, hagrees⟩
    rw [hlines] at hagrees
    have hfit := lineFlagFits_of_agrees hagrees _ (List.mem_singleton_self _)
    exact absurd (hfit 1 2 256 hread) (by decide)

end SproutLang.Assembler
