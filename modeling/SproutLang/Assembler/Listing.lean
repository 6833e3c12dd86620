/-
  SproutLang.Assembler.Listing
  ────────────────────────────
  **A PROGRAM OF ONE FUNCTION, FROM ITS LINES TO ITS IMAGE.**

  The lines between `.func` and `.endfunc` as a list of items, a label or an
  instruction each.  Where no name is a label twice and every branch names a
  label, the text assembles, the code section is the items' instructions with
  every target the place of its label, and the VM loads the image:

    • `itemsOf`              — the items of the lines,
    • `assemble_listing`     — the image of the text,
    • `ListingImage.instrAt` — the instruction at an item's place in it.
-/
import SproutLang.Assembler.Frames
import SproutLang.Assembler.Labels

namespace SproutLang.Assembler

open Library

/-! ## §1. Items. -/

/-- A line of a function. -/
inductive Item where
  | label (name : Str)
  | instr (s : SourceInstr)
  deriving DecidableEq

namespace Item

/-- Bytes of an item; a label takes none. -/
def width : Item → Nat
  | label _ => 0
  | instr s => s.width

/-- The instruction of an item. -/
def instr? : Item → Option SourceInstr
  | label _ => none
  | instr s => some s

/-- The name of a label. -/
def name? : Item → Option Str
  | label name => some name
  | instr _ => none

/-- The label a branch names. -/
def target? : Item → Option Str
  | instr (.branch _ name) => some name
  | _ => none

end Item

/-- The instructions of a list of items. -/
def codeOf (items : List Item) : List SourceInstr := items.filterMap Item.instr?

/-- The bytes in front of item `k`. -/
def offsetOf (items : List Item) (k : Nat) : Nat := ((items.take k).map Item.width).sum

/-- The labels with their offsets, the first item at `offset`. -/
def labelsFrom : Nat → List Item → List (Str × Nat)
  | _, [] => []
  | offset, .label name :: items => (name, offset) :: labelsFrom offset items
  | offset, .instr s :: items => labelsFrom (offset + s.width) items

/-- Where the code of an image with one function starts. -/
def CODE_START : Nat := HEADER_SIZE + FUNC_ENTRY_SIZE

/-- The address of a label: the last entry of a name counts. -/
def addressOf (items : List Item) (name : Str) : Nat :=
  CODE_START + (((labelsFrom 0 items).reverse.lookup name).getD 0)

/-- The bytes of the instructions. -/
def codeBytes (items : List Item) : List Byte :=
  (codeOf items).flatMap (SourceInstr.bytes (addressOf items))

/-- **Items that link**: no name is a label twice, every branch names a label,
and the addresses have 32 bits. -/
structure ItemsLink (items : List Item) : Prop where
  once : (items.filterMap Item.name?).Nodup
  named : ∀ name ∈ items.filterMap Item.target?, name ∈ items.filterMap Item.name?
  small : CODE_START + offsetOf items items.length < 2 ^ 32

section Items

variable {items rest : List Item} {name : Str} {k : Nat}

/-- The table of labels names the labels of the items. -/
theorem labelsFrom_names (items : List Item) :
    ∀ offset, (labelsFrom offset items).map Prod.fst = items.filterMap Item.name? := by
  induction items with
  | nil => exact fun offset => rfl
  | cons item items ih =>
      intro offset
      cases item with
      | label name =>
          show name :: (labelsFrom offset items).map Prod.fst = name :: items.filterMap Item.name?
          rw [ih]
      | instr s => exact ih (offset + s.width)

/-- Item `k`, if it is a label, is entered with its offset. -/
theorem mem_labelsFrom (items : List Item) :
    ∀ offset k, items[k]? = some (.label name) →
      (name, offset + offsetOf items k) ∈ labelsFrom offset items := by
  induction items with
  | nil => exact fun offset k h => absurd h (by simp)
  | cons item items ih =>
      intro offset k h
      cases k with
      | zero =>
          injection h with h
          rw [h]
          exact List.mem_cons_self
      | succ k =>
          have hrest := ih (offset + item.width) k h
          have hoffset : offset + offsetOf (item :: items) (k + 1)
              = offset + item.width + offsetOf items k := by
            unfold offsetOf
            rw [List.take_succ_cons, List.map_cons, List.sum_cons, Nat.add_assoc]
          rw [hoffset]
          cases item with
          | label name' => exact List.mem_cons_of_mem _ hrest
          | instr s => exact hrest

/-- A name comes from a label item. -/
theorem mem_labels_of_name (h : name ∈ items.filterMap Item.name?) :
    ∃ k : Nat, items[k]? = some (Item.label name) := by
  obtain ⟨item, hmem, hname⟩ := List.mem_filterMap.1 h
  obtain ⟨k, hk⟩ := List.mem_iff_getElem?.1 hmem
  cases item with
  | label name' =>
      injection hname with hname
      refine ⟨k, ?_⟩
      rw [hk, hname]
  | instr s => cases hname

/-- A name that is entered once is found. -/
theorem lookup_of_mem {l : List (Str × Nat)} (honce : (l.map Prod.fst).Nodup) {offset : Nat}
    (h : (name, offset) ∈ l) : l.reverse.lookup name = some offset := by
  rw [lookup_reverse honce]
  obtain ⟨before, after, rfl⟩ := List.append_of_mem h
  rw [List.lookup_eq_some_iff]
  refine ⟨before, after, rfl, ?_⟩
  intro p hp
  rw [bne_iff_ne]
  intro hname
  -- the name would stand twice
  rw [List.map_append, List.nodup_append] at honce
  exact honce.2.2 p.1 (List.mem_map_of_mem hp) name (by simp) hname.symm

/-- **A label is found at its place.** -/
theorem ItemsLink.lookup (h : ItemsLink items) (hk : items[k]? = some (.label name)) :
    (labelsFrom 0 items).reverse.lookup name = some (offsetOf items k) := by
  apply lookup_of_mem
  · rw [labelsFrom_names]
    exact h.once
  · have hmem := mem_labelsFrom items 0 k hk
    rw [Nat.zero_add] at hmem
    exact hmem

/-- Every name has the address of its label. -/
theorem ItemsLink.address (h : ItemsLink items) (hk : items[k]? = some (.label name)) :
    addressOf items name = CODE_START + offsetOf items k := by
  unfold addressOf
  rw [h.lookup hk]
  rfl

/-- Offsets lie within the code. -/
theorem offsetOf_le (items : List Item) (k : Nat) :
    offsetOf items k ≤ offsetOf items items.length := by
  unfold offsetOf
  rw [List.take_length]
  conv_rhs => rw [← List.take_append_drop k items]
  rw [List.map_append, List.sum_append]
  exact Nat.le_add_right _ _

/-- The next item starts behind this one. -/
theorem offsetOf_succ {item : Item} (hk : items[k]? = some item) :
    offsetOf items (k + 1) = offsetOf items k + item.width := by
  unfold offsetOf
  rw [List.take_add_one, hk, Option.toList_some, List.map_append, List.sum_append]
  rfl

/-- Labels take no bytes. -/
theorem offsetOf_eq (items : List Item) (k : Nat) :
    offsetOf items k = sizeOf (codeOf (items.take k)) := by
  unfold offsetOf
  generalize items.take k = front
  induction front with
  | nil => rfl
  | cons item front ih =>
      rw [List.map_cons, List.sum_cons, ih]
      cases item with
      | label name => exact Nat.zero_add _
      | instr s => rfl

end Items

/-! ## §2. Reading. -/

/-- The item of a line that is not blank. -/
def itemOf (py : Python) (toks : List Str) : Option Item :=
  match lineKind py toks with
  | .label => some (.label (labelKey py toks))
  | .instr =>
      match readLine py toks with
      | some s => if s.refusal = none then some (.instr s) else none
      | none => none
  | .func | .endfunc => none

/-- **The items of lines**; blank lines have none. -/
def itemsOf (py : Python) : List Str → Option (List Item)
  | [] => some []
  | raw :: lines =>
      if tokenise_line raw = [] then itemsOf py lines
      else do
        let item ← itemOf py (tokenise_line raw)
        let items ← itemsOf py lines
        return item :: items

/-- A function with one more item. -/
def Func.addItem (f : Func) : Item → Func
  | .label name => f.addLabel name
  | .instr s => f.emit s

/-- A function after all these items. -/
def Func.addItems (f : Func) (items : List Item) : Func := items.foldl Func.addItem f

section Reading

variable {py : Python} {toks : List Str} {item : Item} {items items' : List Item}
  {lines lines' : List Str} {f : Func} {a : Asm}

/-- **What an item is**: a label line, or a line whose instruction is read and
not refused. -/
theorem itemOf_eq_some (h : itemOf py toks = some item) :
    (lineKind py toks = .label ∧ item = .label (labelKey py toks)) ∨
    ∃ op s, lineKind py toks = .instr ∧ mnemonicOf py toks = some op ∧
      readInstr py op toks = .ok s ∧ s.refusal = none ∧ item = .instr s := by
  unfold itemOf at h
  cases hkind : lineKind py toks with
  | label =>
      simp only [hkind] at h
      injection h with h
      exact Or.inl ⟨rfl, h.symm⟩
  | func | endfunc =>
      simp only [hkind] at h
      cases h
  | instr =>
      simp only [hkind] at h
      cases hread : readLine py toks with
      | none =>
          simp only [hread] at h
          cases h
      | some s =>
          simp only [hread] at h
          obtain ⟨op, hop, hinstr⟩ := readLine_eq_some hread
          split at h
          · rename_i hnone
            injection h with h
            exact Or.inr ⟨op, s, rfl, hop, hinstr, hnone, h.symm⟩
          · cases h

/-- An item is a line that is not refused inside a function. -/
theorem refusal_of_itemOf (h : itemOf py toks = some item) : refusal py true toks = none := by
  unfold refusal
  rcases itemOf_eq_some h with ⟨hkind, -⟩ | ⟨op, s, hkind, hop, hread, hnone, -⟩
  · rw [hkind]
    rfl
  · simp only [hkind, hop]
    show instrRefusal py op toks = none
    unfold instrRefusal
    rw [hread]
    exact hnone

/-- It adds itself to the open function. -/
theorem after_of_itemOf (h : itemOf py toks = some item) :
    a.after py toks = a.modifyLast fun f => f.addItem item := by
  unfold Asm.after
  rcases itemOf_eq_some h with ⟨hkind, rfl⟩ | ⟨op, s, hkind, hop, hread, -, rfl⟩
  · rw [hkind]
    rfl
  · rw [hkind]
    show (match readLine py toks with
      | some s => a.emit s
      | none => a) = _
    rw [readLine_of hop hread]
    rfl

/-- Its instruction is checked. -/
theorem checked_of_itemOf {s : SourceInstr} (h : itemOf py toks = some (.instr s)) :
    s.Checked := by
  rcases itemOf_eq_some h with ⟨-, hitem⟩ | ⟨op, s', -, -, hread, hnone, hitem⟩
  · cases hitem
  · injection hitem with hitem
    rw [hitem]
    exact (readInstr_effect hread).2.2 hnone

/-- Lines are read one after the other. -/
theorem itemsOf_append (h : itemsOf py lines = some items) (h' : itemsOf py lines' = some items') :
    itemsOf py (lines ++ lines') = some (items ++ items') := by
  induction lines generalizing items with
  | nil =>
      injection h with h
      rw [← h]
      exact h'
  | cons raw lines ih =>
      unfold itemsOf at h
      rw [List.cons_append]
      unfold itemsOf
      split at h
      · rename_i hblank
        rw [if_pos hblank]
        exact ih h
      · rename_i hblank
        obtain ⟨item, hitem, h⟩ := Option.bind_eq_some_iff.1 h
        obtain ⟨others, hothers, h⟩ := Option.bind_eq_some_iff.1 h
        injection h with h
        rw [if_neg hblank, hitem, ih hothers, ← h]
        rfl

/-- Instructions that are read have passed their checks. -/
theorem checked_of_itemsOf (h : itemsOf py lines = some items) : ∀ s ∈ codeOf items, s.Checked := by
  induction lines generalizing items with
  | nil =>
      injection h with h
      rw [← h]
      exact fun s hs => absurd hs List.not_mem_nil
  | cons raw lines ih =>
      unfold itemsOf at h
      split at h
      · exact ih h
      · obtain ⟨item, hitem, h⟩ := Option.bind_eq_some_iff.1 h
        obtain ⟨others, hothers, h⟩ := Option.bind_eq_some_iff.1 h
        injection h with h
        subst h
        intro s hs
        obtain ⟨i, hi, hsame⟩ := List.mem_filterMap.1 hs
        rcases List.mem_cons.1 hi with rfl | hi
        · cases i with
          | label name => cases hsame
          | instr s' =>
              injection hsame with hsame
              rw [← hsame]
              exact checked_of_itemOf hitem
        · exact ih hothers s (List.mem_filterMap.2 ⟨i, hi, hsame⟩)

/-- **The pass over the lines of a function.** -/
theorem passLines_items : ∀ (lines : List Str) (items : List Item) (n : Nat) (a : Asm)
    (after : List Str), itemsOf py lines = some items → a.inFunc = true →
      passLines py n (lines ++ after) a
        = passLines py (n + lines.length) after (a.modifyLast fun f => f.addItems items) := by
  intro lines
  induction lines with
  | nil =>
      intro items n a after h _
      injection h with h
      subst h
      have hsame : (a.modifyLast fun f => f.addItems []) = a := by
        rcases a.functions_cases with hnil | ⟨fs, f, hsnoc⟩
        · exact Asm.modifyLast_nil hnil _
        · rw [Asm.modifyLast_snoc hsnoc]
          show { a with functions := fs ++ [f] } = a
          rw [← hsnoc]
      rw [hsame]
      rfl
  | cons raw lines ih =>
      intro items n a after h hopen
      have hcount : n + 1 + lines.length = n + (raw :: lines).length := by
        rw [List.length_cons]
        omega
      unfold itemsOf at h
      rw [List.cons_append, passLines]
      split at h
      · -- a blank line
        rename_i hblank
        simp only [if_pos hblank]
        rw [ih items (n + 1) a after h hopen, hcount]
      · rename_i hblank
        obtain ⟨item, hitem, h⟩ := Option.bind_eq_some_iff.1 h
        obtain ⟨others, hothers, h⟩ := Option.bind_eq_some_iff.1 h
        injection h with h
        subst h
        -- the line adds its item to the open function
        have hrefusal : refusal py a.inFunc (tokenise_line raw) = none := by
          rw [hopen]
          exact refusal_of_itemOf hitem
        simp only [if_neg hblank, handle_tokens_eq, outcome_none hrefusal, after_of_itemOf hitem]
        rw [ih others (n + 1) _ after hothers ((modifyLast_inFunc _).trans hopen), hcount,
          Asm.modifyLast_modifyLast]
        rfl

end Reading

/-! ## §3. The function of the items. -/

/-- The function `.func` opens. -/
def Func.opened (name : Str) (frameSize : Int) : Func :=
  { name, frameSize, labels := [], patches := [], raw := [] }

section Function

variable {f : Func} {code : List SourceInstr} {items : List Item} {name : Str} {frameSize : Int}

/-- A function holds the code of all items added. -/
theorem FuncHolds.addItems (items : List Item) : ∀ (f : Func) (code : List SourceInstr),
    FuncHolds f code → (∀ s ∈ codeOf items, s.Checked) →
      FuncHolds (f.addItems items) (code ++ codeOf items) := by
  induction items with
  | nil =>
      intro f code h _
      show FuncHolds f (code ++ [])
      rw [List.append_nil]
      exact h
  | cons item items ih =>
      intro f code h hchecked
      cases item with
      | label name => exact ih _ _ (h.addLabel name) hchecked
      | instr s =>
          have hs : ∀ t ∈ s :: codeOf items, t.Checked := hchecked
          rw [List.forall_mem_cons] at hs
          have hrest := ih _ _ (h.emit hs.1) hs.2
          rw [List.append_assoc] at hrest
          exact hrest

/-- The labels that are entered, the latest first. -/
theorem labels_addItems (items : List Item) : ∀ f : Func,
    (f.addItems items).labels = (labelsFrom f.raw.length items).reverse ++ f.labels := by
  induction items with
  | nil => exact fun f => rfl
  | cons item items ih =>
      intro f
      cases item with
      | label name =>
          show ((f.addLabel name).addItems items).labels = _
          rw [ih]
          show (labelsFrom f.raw.length items).reverse ++ (name, f.raw.length) :: f.labels
            = ((name, f.raw.length) :: labelsFrom f.raw.length items).reverse ++ f.labels
          rw [List.reverse_cons, List.append_assoc]
          rfl
      | instr s =>
          have hlength : (f.emit s).raw.length = f.raw.length + s.width := by
            show (f.raw ++ s.bytes fun _ => 0).length = _
            rw [List.length_append, SourceInstr.length_bytes]
          show ((f.emit s).addItems items).labels = _
          rw [ih, hlength]
          rfl

end Function

/-! ## §4. The image. -/

/-- **The lines of a text with one function** of these items. -/
inductive OneFunction (py : Python) (items : List Item) : List Str → Prop where
  | mk {blanks body : List Str} {func endfunc : Str} {frameSize : Int}
      (blank : ∀ raw ∈ blanks, tokenise_line raw = [])
      (opens : lineKind py (tokenise_line func) = .func)
      (size : frameSizeOf py ((tokenise_line func).drop 2) 0 = .ok frameSize)
      (reads : itemsOf py body = some items)
      (closes : lineKind py (tokenise_line endfunc) = .endfunc) :
      OneFunction py items (blanks ++ func :: (body ++ [endfunc]))

section Image

variable {py : Python} {items : List Item} {lines : List Str} {text : Str} {bytes : List Byte}

theorem ne_nil_of_kind {toks : List Str} (h : lineKind py toks ≠ .instr) : toks ≠ [] := by
  rintro rfl
  exact h lineKind_nil

/-- Lines without tokens only count. -/
theorem passLines_blanks : ∀ (blanks : List Str) (n : Nat) (after : List Str) (a : Asm),
    (∀ raw ∈ blanks, tokenise_line raw = []) →
      passLines py n (blanks ++ after) a = passLines py (n + blanks.length) after a := by
  intro blanks
  induction blanks with
  | nil => exact fun n after a _ => rfl
  | cons raw blanks ih =>
      intro n after a h
      rw [List.forall_mem_cons] at h
      rw [List.cons_append, passLines]
      simp only [if_pos h.1]
      rw [ih (n + 1) after a h.2, List.length_cons]
      congr 1
      omega

/-- **What the first pass leaves.** -/
theorem pass1_listing (h : OneFunction py items lines) : ∃ name frameSize,
    _pass1 py lines
      = .ok { functions := [(Func.opened name frameSize).addItems items], inFunc := false } := by
  cases h with
  | @mk blanks body func endfunc frameSize blank opens size reads closes =>
      have hfunc : tokenise_line func ≠ [] := ne_nil_of_kind (by rw [opens]; decide)
      have hendfunc : tokenise_line endfunc ≠ [] := ne_nil_of_kind (by rw [closes]; decide)
      have hopen : refusal py false (tokenise_line func) = none := by
        unfold refusal
        rw [opens]
        show raised (frameSizeOf py ((tokenise_line func).drop 2) 0) = none
        rw [size]
        rfl
      have hclose : refusal py true (tokenise_line endfunc) = none := by
        unfold refusal
        rw [closes]
        rfl
      -- `.func` opens the function, the lines fill it, `.endfunc` closes it
      have hopened : Asm.start.after py (tokenise_line func)
          = { functions := [Func.opened ((tokenise_line func)[1]?.getD "func0".toList) frameSize]
              inFunc := true } := by
        unfold Asm.after
        rw [opens]
        show Asm.start.openFunc _ ((frameSizeOf py ((tokenise_line func).drop 2) 0).toOption.getD 0)
          = _
        rw [size]
        rfl
      generalize hname : (tokenise_line func)[1]?.getD "func0".toList = name at hopened
      have hclosed : Asm.after py
          { functions := [(Func.opened name frameSize).addItems items], inFunc := true }
          (tokenise_line endfunc)
          = { functions := [(Func.opened name frameSize).addItems items], inFunc := false } := by
        unfold Asm.after
        rw [closes]
      have hrun : passLines py 1 (blanks ++ func :: (body ++ [endfunc])) Asm.start
          = .ok { functions := [(Func.opened name frameSize).addItems items], inFunc := false } := by
        rw [passLines_blanks blanks 1 _ _ blank, passLines]
        simp only [if_neg hfunc, handle_tokens_eq, outcome_none (a := Asm.start) hopen, hopened]
        rw [passLines_items body items _ _ _ reads rfl, passLines]
        have hfilled : (Asm.modifyLast (fun f => f.addItems items)
            { functions := [Func.opened name frameSize], inFunc := true })
            = { functions := [(Func.opened name frameSize).addItems items], inFunc := true } := rfl
        simp only [if_neg hendfunc, handle_tokens_eq, hfilled]
        rw [outcome_none hclose, hclosed]
        rfl
      refine ⟨name, frameSize, ?_⟩
      unfold _pass1
      rw [show passLines py 1 _ { functions := [], inFunc := false } = _ from hrun]
      rfl

/-- **An image of the items**: their instructions behind the header and the
table, and `init` puts the IP in front of them. -/
structure ListingImage (items : List Item) (bytes : List Byte) : Prop where
  checked : ∀ s ∈ codeOf items, s.Checked
  code : ∃ front, front.length = CODE_START ∧ bytes = front ++ codeBytes items
  small : bytes.length < 2 ^ 32
  loads : ∀ (file : Image) (allocator : Allocator) (fpu : Fpu), file.bytes = bytes →
    ∃ vm, init (VM.zeroed file allocator fpu) = .ok () vm ∧ vm.ip.toNat = CODE_START

/-- Branches find their labels. -/
theorem ItemsLink.resolved (h : ItemsLink items) {f : Func}
    (hlabels : f.labels = (labelsFrom 0 items).reverse) : LabelsFound CODE_START f (codeOf items) := by
  intro op label hmem
  obtain ⟨item, hitem, hinstr⟩ := List.mem_filterMap.1 hmem
  have hnamed : label ∈ items.filterMap Item.target? := by
    refine List.mem_filterMap.2 ⟨item, hitem, ?_⟩
    cases item with
    | label name => cases hinstr
    | instr s =>
        injection hinstr with hinstr
        rw [hinstr]
        rfl
  obtain ⟨k, hk⟩ := mem_labels_of_name (h.named label hnamed)
  refine ⟨offsetOf items k, ?_, ?_⟩
  · rw [hlabels]
    exact h.lookup hk
  · have hle := offsetOf_le items k
    have hsmall := h.small
    omega

/-- **A text of one function assembles**, to an image of its items. -/
theorem assemble_listing (h : OneFunction py items (readlines text)) (hlink : ItemsLink items) :
    ∃ bytes, assemble py text = .ok bytes ∧ ListingImage items bytes := by
  obtain ⟨name, frameSize, hpass⟩ := pass1_listing h
  have hchecked : ∀ s ∈ codeOf items, s.Checked := by
    generalize readlines text = lines at h
    cases h with
    | mk blank opens size reads closes => exact checked_of_itemsOf reads
  have hholds := FuncHolds.addItems items _ _ (FuncHolds.empty name frameSize) hchecked
  have hlabels := labels_addItems items (Func.opened name frameSize)
  rw [show (Func.opened name frameSize).labels = [] from rfl, List.append_nil] at hlabels
  generalize hf : (Func.opened name frameSize).addItems items = f at hpass hholds hlabels
  have hfs : List.Forall₂ FuncHolds [f] [codeOf items] :=
    List.Forall₂.cons (hf ▸ hholds) List.Forall₂.nil
  have hstart : codeOffset [f] = CODE_START := rfl
  have hresolved : Resolved (codeOffset [f]) [f] [codeOf items] :=
    ⟨hlink.resolved hlabels, trivial⟩
  obtain ⟨bytes, hemit⟩ := emit_binary_runs hfs hresolved (by rw [hstart]; decide)
  obtain ⟨-, -, hbytes⟩ := emit_binary_effect hfs hemit
  obtain ⟨codes, himage, -⟩ := assembled_of_pass hpass hemit
  -- the labels of the function are those of the items
  have haddress : address CODE_START f = addressOf items := by
    funext label
    unfold address addressOf
    rw [hlabels]
    rfl
  have hlinked : linkedBytes (codeOffset [f]) [f] [codeOf items] = codeBytes items := by
    show (codeOf items).flatMap (SourceInstr.bytes (address CODE_START f)) ++ [] = _
    rw [List.append_nil, haddress]
    rfl
  have hfront : (wordBytes (headerWords [f].length (codeOffset [f]))
      ++ wordBytes (tableWords (codeOffset [f]) [f])).length = CODE_START := Assembled.length_front
  rw [hlinked] at hbytes
  refine ⟨bytes, ?_, hchecked, ⟨_, hfront, hbytes⟩, ?_, ?_⟩
  · unfold assemble
    rw [except_bind_ok hpass]
    exact hemit
  · have hsmall := hlink.small
    rw [offsetOf_eq, List.take_length] at hsmall
    rw [hbytes, List.length_append, hfront]
    unfold codeBytes
    rw [length_flatMap_bytes]
    exact hsmall
  · intro file allocator fpu hfile
    rw [← hfile] at himage
    have himage : Assembled py text (VM.zeroed file allocator fpu).bytecode.bytes [f] codes := himage
    have hroom : [f].length ≤ FUNCTION_TABLE_SIZE := by
      show 1 ≤ 2048
      omega
    obtain ⟨vm, hinit⟩ := himage.inits hroom HEAPSIZE
    obtain ⟨-, -, hip⟩ := himage.initialized hinit
    exact ⟨vm, hinit, hip⟩

/-- **What the VM decodes** where an item stands. -/
theorem ListingImage.instrAt (h : ListingImage items bytes) {k : Nat} {s : SourceInstr}
    (hk : items[k]? = some (.instr s)) (hflag : s.FlagFits) :
    SproutLang.instrAt bytes (CODE_START + offsetOf items k)
      = some (s.instr (addressOf items)) := by
  obtain ⟨front, hfront, hbytes⟩ := h.code
  obtain ⟨hlt, hget⟩ := List.getElem?_eq_some_iff.1 hk
  -- the items in front of it, itself, the items behind it
  have hsplit : codeOf items = codeOf (items.take k) ++ s :: codeOf (items.drop (k + 1)) := by
    unfold codeOf
    conv_lhs => rw [← List.take_append_drop k items, List.drop_eq_getElem_cons hlt, hget]
    rw [List.filterMap_append]
    rfl
  have hchecked : s.Checked := h.checked s (by rw [hsplit]; simp)
  have hread := instrAt_bytes
    (front ++ (codeOf (items.take k)).flatMap (SourceInstr.bytes (addressOf items)))
    ((codeOf (items.drop (k + 1))).flatMap (SourceInstr.bytes (addressOf items)))
    (SourceInstr.fits_instr (addressOf items) hchecked)
  rw [List.length_append, hfront, length_flatMap_bytes, ← offsetOf_eq] at hread
  rw [← hread, hbytes, ← SourceInstr.bytes_eq _ hchecked hflag]
  unfold codeBytes
  conv_lhs => rw [hsplit]
  rw [List.flatMap_append, List.flatMap_cons]
  simp only [List.append_assoc]

end Image

end SproutLang.Assembler
