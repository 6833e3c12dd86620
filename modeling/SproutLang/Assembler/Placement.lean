/-
  SproutLang.Assembler.Placement
  ──────────────────────────────
  **WHERE THE LINES OF A PROGRAM ARE.**

  An image has a program `Placed`: each line has an address, at which the VM
  decodes what the line says; a branch carries the address of the line its
  label stands in front of, and the function table those of the first lines.

    • `meant_eq_labelLine` — a label is a line before it is an offset,
    • `assemble_placed`    — the assembler places the program of its text.
-/
import SproutLang.Assembler.SourceMachine
import SproutLang.Assembler.Boundaries

namespace SproutLang.Assembler

open Library

/-- **An image that places the lines of a program**, and a function table that
has where its functions start. -/
structure Placed (p : Program) (bytes : List Byte) (table : Nat → FunctionInfo)
    (addr : Nat → Nat) : Prop where
  bound : ∀ k, addr k ≤ bytes.length
  checked : ∀ (k : Nat) l, p.lines[k]? = some l → l.said.Checked
  next : ∀ (k : Nat) l, p.lines[k]? = some l → addr (k + 1) = addr k + l.said.width
  line : ∀ (k : Nat) l, p.lines[k]? = some l → ∃ address,
    instrAt bytes (addr k) = some (l.said.instr address) ∧
      ∀ op label n, l.said = .branch op label → l.label label = some n →
        address label = addr n ∧ addr n < 2 ^ 32
  function : ∀ i entry size, p.function i = some (entry, size) →
    i < FUNCTION_TABLE_SIZE ∧ (table i).entryIP.toNat = addr entry ∧
      (table i).frameSize.toNat = size

/-! ## §1. Labels. -/

section Labels

variable {py : Python} {items : Scope} {label : Str}

/-- The first definition of a name is the first label line with that name. -/
theorem lookup_definitions (items : Scope) : ∀ offset,
    ((definitions py offset items).map fun d => (labelName d.1, d.2)).lookup label
      = (items.findIdx? (defines py label)).map fun j => offset + scopeSize py (items.take j) := by
  induction items with
  | nil => exact fun _ => rfl
  | cons toks items ih =>
      intro offset
      have hmore := ih (offset + lineWidth py toks)
      have hsize : ∀ j, offset + lineWidth py toks + scopeSize py (items.take j)
          = offset + scopeSize py ((toks :: items).take (j + 1)) := by
        intro j
        unfold scopeSize
        rw [List.take_succ_cons, List.map_cons, List.sum_cons, Nat.add_assoc]
      simp only [hsize] at hmore
      have hother : defines py label toks = false →
          ((definitions py (offset + lineWidth py toks) items).map
              fun d => (labelName d.1, d.2)).lookup label
            = ((toks :: items).findIdx? (defines py label)).map
                fun j => offset + scopeSize py ((toks :: items).take j) := by
        intro hnot
        rw [List.findIdx?_cons, hnot, hmore, if_neg Bool.false_ne_true, Option.map_map]
        rfl
      unfold definitions
      by_cases hkind : lineKind py toks = .label
      · rw [if_pos hkind, List.singleton_append, List.map_cons, List.lookup_cons]
        by_cases hname : labelName toks = label
        · -- this is the line
          have hthis : defines py label toks = true := by simp [defines, hkind, hname]
          rw [List.findIdx?_cons, hthis, hname, beq_self_eq_true, if_pos rfl]
          rfl
        · have hne : (label == labelName toks) = false := by
            rw [beq_eq_false_iff_ne]
            exact fun heq => hname heq.symm
          simp only [hne]
          exact hother (by simp [defines, hname])
      · rw [if_neg hkind, List.nil_append]
        exact hother (by simp [defines, hkind])

/-- The instructions in front of an item are the first ones of the function. -/
theorem take_filterMap (items : Scope) (j : Nat) :
    (items.filterMap (readLine py)).take ((items.take j).filterMap (readLine py)).length
      = (items.take j).filterMap (readLine py) := by
  conv_lhs => arg 2; rw [← List.take_append_drop j items]
  rw [List.filterMap_append, List.take_left]

/-- **A label is a line before it is an offset.** -/
theorem meant_eq_labelLine
    (hread : ∀ toks ∈ items, (mnemonicOf py toks).isSome → (readLine py toks).isSome) :
    meant py items label
      = (labelLine py items label).map fun n => sizeOf ((items.filterMap (readLine py)).take n) := by
  unfold meant written labelLine
  rw [lookup_definitions, Option.map_map]
  refine Option.map_congr fun j _ => ?_
  show 0 + scopeSize py (items.take j) = _
  rw [Nat.zero_add, scopeSize_eq fun toks htoks => hread toks (List.mem_of_mem_take htoks)]
  exact congrArg sizeOf (take_filterMap items j).symm

end Labels

/-! ## §2. Lines. -/

section Lines

variable {py : Python} {fs : List Func} {scopes : List Scope}

/-- The lines say what the functions' code says. -/
theorem said_linesFrom (scopes : List Scope) : ∀ first,
    (linesFrom py first scopes).map SourceLine.said = (codesOf py scopes).flatten := by
  induction scopes with
  | nil => exact fun _ => rfl
  | cons items scopes ih =>
      intro first
      unfold linesFrom codesOf
      rw [List.map_append, ih, List.map_map, List.map_cons, List.flatten_cons]
      exact congrArg (· ++ _) (List.map_id _)

/-- **The code section has the lines in order**, each branch with the offset of
the line its label stands in front of. -/
theorem linked_lines (h : List.Forall₂ (ScopeHolds py) fs scopes) :
    ∀ pos first, Resolved pos fs (codesOf py scopes) → FoundAsMeant py scopes →
      ∀ (k : Nat) l, (linesFrom py first scopes)[k]? = some l → ∃ address,
        (linked pos fs (codesOf py scopes))[k]? = some (l.said.instr address) ∧
        ∀ op label n, l.said = .branch op label → l.label label = some n → ∃ j, n = first + j ∧
          address label = pos + sizeOf ((codesOf py scopes).flatten.take j) ∧
          address label < 2 ^ 32 := by
  induction h with
  | nil => exact fun _ _ _ _ k l hl => absurd hl (by simp [linesFrom])
  | @cons f items fs scopes hf _ ih =>
      intro pos first hresolved hfound k l hl
      obtain ⟨hlabels, hrest⟩ := hresolved
      obtain ⟨hmeant, hmore⟩ := List.forall_mem_cons.1 hfound
      unfold linesFrom at hl
      show ∃ addr, ((items.filterMap (readLine py)).map (SourceInstr.instr (address pos f))
        ++ linked _ fs (codesOf py scopes))[k]? = _ ∧ _
      by_cases hk : k < (items.filterMap (readLine py)).length
      · -- a line of the first function
        rw [List.getElem?_append_left (by rw [List.length_map]; exact hk), List.getElem?_map] at hl
        obtain ⟨s, hs, rfl⟩ := Option.map_eq_some_iff.1 hl
        refine ⟨address pos f, ?_, fun op label n hsaid hlabel => ?_⟩
        · rw [List.getElem?_append_left (by rw [List.length_map]; exact hk), List.getElem?_map, hs]
          rfl
        · obtain ⟨j, hj, rfl⟩ := Option.map_eq_some_iff.1 hlabel
          have hsaid : s = .branch op label := hsaid
          subst hsaid
          have hmem := List.mem_of_getElem? hs
          obtain ⟨toks, htoks, hread⟩ := List.mem_filterMap.1 hmem
          have hbranch : label ∈ branchesOf py items :=
            List.mem_filterMap.2 ⟨toks, htoks, by rw [hread]; rfl⟩
          obtain ⟨target, hlookup, hlt⟩ := hlabels op label hmem
          -- the label that is found is the one that is meant
          have htarget := hlookup
          rw [lookup_labels hf, hmeant label hbranch, meant_eq_labelLine hf.readable, hj] at htarget
          injection htarget with htarget
          have haddress : address pos f label = pos + target := by
            unfold address
            rw [hlookup]
            rfl
          have hle : j ≤ (items.filterMap (readLine py)).length := by
            unfold labelLine at hj
            obtain ⟨i, _, rfl⟩ := Option.map_eq_some_iff.1 hj
            exact (List.Sublist.filterMap _ (List.take_sublist i items)).length_le
          refine ⟨j, rfl, ?_, by rw [haddress]; exact hlt⟩
          rw [haddress, ← htarget]
          show pos + _ = pos + sizeOf ((items.filterMap (readLine py)
            ++ (codesOf py scopes).flatten).take j)
          rw [List.take_append_of_le_length hle]
      · -- a line of one of the others
        rw [List.getElem?_append_right (by rw [List.length_map]; omega), List.length_map] at hl
        obtain ⟨address, hlinked, htargets⟩ := ih _ _ hrest hmore _ l hl
        refine ⟨address, ?_, fun op label n hsaid hlabel => ?_⟩
        · rw [List.getElem?_append_right (by rw [List.length_map]; omega), List.length_map]
          exact hlinked
        · obtain ⟨j, rfl, haddress, hlt⟩ := htargets op label n hsaid hlabel
          refine ⟨(items.filterMap (readLine py)).length + j, by omega, ?_, hlt⟩
          show _ = pos + sizeOf ((items.filterMap (readLine py)
            ++ (codesOf py scopes).flatten).take (_ + j))
          rw [haddress, List.take_length_add_append]
          unfold sizeOf
          rw [List.map_append, List.sum_append, Nat.add_assoc]

/-- A function has lines of the text. -/
theorem mem_scopesOf {lines : List Str} : ∀ items ∈ scopesOf py lines, ∀ toks ∈ items,
    toks ∈ lines.map tokenise_line := by
  induction lines using List.reverseRecOn with
  | nil => exact fun items hitems => absurd hitems List.not_mem_nil
  | append_singleton before raw ih =>
      intro items hitems toks htoks
      have hbefore : ∀ items ∈ scopesOf py before, ∀ toks ∈ items,
          toks ∈ (before ++ [raw]).map tokenise_line := fun items hitems toks htoks => by
        rw [List.map_append]
        exact List.mem_append_left _ (ih items hitems toks htoks)
      have hadd : scopesOf py (before ++ [raw])
          = addScopeLine py (scopesOf py before) (tokenise_line raw) := by
        unfold scopesOf
        rw [List.map_append, List.foldl_append]
        rfl
      rw [hadd] at hitems
      unfold addScopeLine at hitems
      split at hitems
      · exact hbefore items hitems toks htoks
      · split at hitems
        · -- a new function, without lines yet
          rcases List.mem_append.1 hitems with hitems | hitems
          · exact hbefore items hitems toks htoks
          · rw [List.mem_singleton.1 hitems] at htoks
            exact absurd htoks List.not_mem_nil
        · exact hbefore items hitems toks htoks
        all_goals
          -- one more line of the last function
          split at hitems
          · rename_i last hlast
            rcases List.mem_append.1 hitems with hitems | hitems
            · exact hbefore items (List.dropLast_subset _ hitems) toks htoks
            · rw [List.mem_singleton.1 hitems] at htoks
              rcases List.mem_append.1 htoks with htoks | htoks
              · exact hbefore last (List.mem_of_getLast? hlast) toks htoks
              · rw [List.mem_singleton.1 htoks, List.map_append]
                exact List.mem_append_right _ (List.mem_singleton_self _)
          · exact hbefore items hitems toks htoks

/-- What the functions say, lines of the text say. -/
theorem mem_codesOf {text : Str} {s : SourceInstr}
    (hs : s ∈ (codesOf py (scopesOf py (readlines text))).flatten) :
    ∃ toks ∈ instrLines py text, readLine py toks = some s := by
  obtain ⟨code, hcode, hs⟩ := List.mem_flatten.1 hs
  obtain ⟨items, hitems, rfl⟩ := List.mem_map.1 hcode
  obtain ⟨toks, htoks, hread⟩ := List.mem_filterMap.1 hs
  refine ⟨toks, List.mem_filter.2 ⟨mem_scopesOf items hitems toks htoks, ?_⟩, hread⟩
  cases hop : mnemonicOf py toks with
  | some op => rfl
  | none =>
      unfold readLine at hread
      rw [hop] at hread
      cases hread

/-- The code of the first functions is the code up to the line of the next. -/
theorem take_firstLine (scopes : List Scope) (i : Nat) :
    (codesOf py scopes).flatten.take (firstLine py scopes i)
      = ((codesOf py scopes).take i).flatten := by
  have hsplit : (codesOf py scopes).flatten
      = ((codesOf py scopes).take i).flatten ++ ((codesOf py scopes).drop i).flatten := by
    rw [← List.flatten_append, List.take_append_drop]
  unfold firstLine
  rw [hsplit, List.take_left]

end Lines

/-! ## §3. Images. -/

/-- The index a line calls. -/
def SourceInstr.called : SourceInstr → Option Int
  | .call i => some i
  | _ => none

instance (py : Python) (text : Str) : Decidable (TableFits py text) :=
  decidable_of_iff
    (((blocksOf py text).length ≤ FUNCTION_TABLE_SIZE ∧
        ∀ i < (blocksOf py text).length, entryOffset py text i < 2 ^ 32) ∧
      (∀ b ∈ blocksOf py text,
        ((frameSizeOf py (b.directive.drop 2) 0).toOption.all fun n => 0 ≤ n && n < 2 ^ 16) = true) ∧
      ∀ toks ∈ instrLines py text,
        (((readLine py toks).bind SourceInstr.called).all
          fun i => i < ((blocksOf py text).length : Int)) = true)
    ⟨fun ⟨⟨hblocks, hentries⟩, hframes, hcalls⟩ => by
        refine ⟨hblocks, fun b hb n hn => ?_, hentries, fun toks htoks i hi => ?_⟩
        · have hframe := hframes b hb
          rw [hn] at hframe
          simpa [Except.toOption] using hframe
        · have hcall := hcalls toks htoks
          rw [hi] at hcall
          simpa [SourceInstr.called] using hcall,
      fun h => by
        refine ⟨⟨h.blocks, h.entries⟩, fun b hb => ?_, fun toks htoks => ?_⟩
        · cases hn : frameSizeOf py (b.directive.drop 2) 0 with
          | error e => rfl
          | ok n => simpa [Except.toOption] using h.frames b hb n hn
        · cases hs : readLine py toks with
          | none => rfl
          | some s =>
              cases s with
              | call i => simpa [SourceInstr.called] using h.calls toks htoks i hs
              | regs | load | branch | mov => rfl⟩

instance (py : Python) (toks : List Str) : Decidable (LineFlagFits py toks) :=
  decidable_of_iff (∀ s ∈ readLine py toks, s.FlagFits)
    ⟨fun h _ _ _ hread => h _ hread, fun h _ hs => (lineFlagFits_iff hs).1 h⟩

instance (py : Python) (scopes : List Scope) : Decidable (FoundAsMeant py scopes) :=
  inferInstanceAs (Decidable (∀ items ∈ scopes, ∀ label ∈ branchesOf py items, _ = _))

section Images

variable {py : Python} {text : Str}

/-- The declared frame sizes have 16 bits. -/
theorem TableFits.declaredSize (h : TableFits py text) (i : Nat) :
    0 ≤ declaredSize py text i ∧ declaredSize py text i < 2 ^ 16 := by
  unfold Assembler.declaredSize
  cases hb : (blocksOf py text)[i]? with
  | none => exact ⟨le_rfl, show (0 : Int) < 2 ^ 16 by decide⟩
  | some b =>
      simp only
      cases hn : frameSizeOf py (b.directive.drop 2) 0 with
      | error e => exact ⟨le_rfl, show (0 : Int) < 2 ^ 16 by decide⟩
      | ok n => exact h.frames b (List.mem_of_getElem? hb) n hn

/-- **The assembler places the program of its text**, where its function table
and its flags fit and its labels are found as they are meant; control starts at
the first line. -/
theorem assemble_placed (vm₀ : VM) {vm : VM} {max : Nat}
    (h : assemble py text = .ok vm₀.bytecode.bytes)
    (htable : ∀ i, vm₀.functionTable i = ⟨0, 0⟩) (hinit : initWith max vm₀ = .ok () vm)
    (hfits : TableFits py text) (hfound : FoundAsMeant py (scopesOf py (readlines text)))
    (hflags : ∀ toks ∈ instrLines py text, LineFlagFits py toks) :
    ∃ addr, Placed (programOf py text) vm₀.bytecode.bytes vm.functionTable addr ∧
      addr 0 = vm.ip.toNat := by
  have hrun := h
  unfold assemble at hrun
  obtain ⟨a, hpass, hemit⟩ := except_bind_eq_ok hrun
  obtain ⟨hhandled, hclosed⟩ := pass1_iff.1 ⟨a, hpass⟩
  rw [pass1_passes hhandled hclosed] at hpass
  injection hpass with hpass
  subst hpass
  obtain ⟨hscopes, -⟩ := afterLines_scopes hhandled
  obtain ⟨codes, himage, hsaid, hdeclared⟩ := assembled_of_pass (pass1_passes hhandled hclosed) hemit
  obtain ⟨hresolved, hsmall, hbytes⟩ := emit_binary_effect (scopes_holds hscopes) hemit
  obtain ⟨hentries, -, hip⟩ := himage.initialized hinit
  generalize hfs : (Asm.afterLines py (readlines text)).functions = fs at *
  have hlen : fs.length = (scopesOf py (readlines text)).length := hscopes.length_eq
  have hblocks : fs.length = (blocksOf py text).length := hdeclared.length_eq
  have hfit : ∀ s ∈ (codesOf py (scopesOf py (readlines text))).flatten, s.FlagFits := by
    intro s hs
    obtain ⟨toks, htoks, hread⟩ := mem_codesOf hs
    exact (lineFlagFits_iff hread).1 (hflags toks htoks)
  generalize hcodes : scopesOf py (readlines text) = scopes at *
  -- the code section as a list of instructions
  have hagrees := linked_agrees (scopes_holds hscopes) (codeOffset fs) hfit
  rw [linkedBytes_eq (scopes_holds hscopes) _ hfit] at hbytes
  have hfront : (wordBytes (headerWords fs.length (codeOffset fs))
      ++ wordBytes (tableWords (codeOffset fs) fs)).length = codeOffset fs := Assembled.length_front
  let addr : Nat → Nat := fun k => codeOffset fs + sizeOf ((codesOf py scopes).flatten.take k)
  have hline : ∀ (k : Nat) l, (programOf py text).lines[k]? = some l →
      (codesOf py scopes).flatten[k]? = some l.said := by
    intro k l hl
    rw [← said_linesFrom scopes 0, List.getElem?_map]
    have hl : (linesFrom py 0 scopes)[k]? = some l := by
      rw [← hcodes]
      exact hl
    rw [hl]
    rfl
  refine ⟨addr, ⟨fun k => ?_, fun k l hl => ?_, fun k l hl => ?_, fun k l hl => ?_,
    fun i entry size hi => ?_⟩, ?_⟩
  · -- no line is behind the image
    show codeOffset fs + _ ≤ _
    rw [hbytes, List.length_append, hfront, length_flatMap_of_agrees hagrees]
    unfold sizeOf
    have hsplit := List.sum_take_add_sum_drop ((codesOf py scopes).flatten.map SourceInstr.width) k
    rw [← List.map_take] at hsplit
    omega
  · exact checked_of_mem (scopes_holds hscopes) (List.mem_of_getElem? (hline k l hl))
  · show codeOffset fs + sizeOf (_ : List SourceInstr) = codeOffset fs + sizeOf _ + _
    unfold sizeOf
    rw [List.take_add_one, hline k l hl, Option.toList_some, List.map_append, List.sum_append,
      Nat.add_assoc]
    rfl
  · have hl' : (linesFrom py 0 scopes)[k]? = some l := by
      rw [← hcodes]
      exact hl
    obtain ⟨address, hlinked, htargets⟩ := linked_lines hscopes _ 0 hresolved hfound k l hl'
    refine ⟨address, ?_, fun op label n hbranch hlabel => ?_⟩
    · have hat := instrAt_sizeTo hbytes (linked_fits (scopes_holds hscopes) _) hlinked
      rw [hfront, sizeTo_of_agrees hagrees] at hat
      exact hat
    · obtain ⟨j, rfl, haddress, hlt⟩ := htargets op label n hbranch hlabel
      rw [haddress] at hlt
      rw [Nat.zero_add]
      exact ⟨haddress, hlt⟩
  · unfold programOf at hi
    simp only at hi
    rw [hcodes] at hi
    split at hi
    · rename_i hlt
      injection hi with hi
      obtain ⟨rfl, rfl⟩ := Prod.mk.inj hi
      obtain ⟨f, hf⟩ : ∃ f, fs[i]? = some f := ⟨_, List.getElem?_eq_getElem (hlen ▸ hlt)⟩
      obtain ⟨hlow, hhigh⟩ := hfits.declaredSize i
      refine ⟨?_, ?_, ?_⟩
      · have := hfits.blocks
        omega
      · -- the functions in front of it take the bytes of their lines
        have hoffset := himage.entryOffset_eq hsaid i
        rw [sum_length_raw (List.forall₂_take i (scopes_holds hscopes))] at hoffset
        rw [hentries i (hlen ▸ hlt), himage.entryAt hf,
          sum_length_raw (List.forall₂_take i (scopes_holds hscopes))]
        show (BitVec.ofNat 32 _).toNat = codeOffset fs + sizeOf _
        rw [take_firstLine, BitVec.toNat_ofNat, Nat.mod_eq_of_lt]
        rw [hoffset]
        exact hfits.entries i (by omega)
      · have hsize := loaded_frameSize h htable hinit hlow hhigh
        omega
    · cases hi
  · show codeOffset fs + sizeOf [] = _
    rw [hip]
    rfl

end Images

end SproutLang.Assembler
