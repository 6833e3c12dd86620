/-
  SproutLang.Assembler.Labels
  ───────────────────────────
  **LABELS AND THE BRANCHES THAT NAME THEM.**

  A label line enters the lower case of its name, a branch looks for the name
  as it is written.  For a text whose lines are all handled:

    • `assemble_succeeds_iff` — it assembles when every branch finds a name in
                                its own function, at an address of 32 bits,
    • `branch_word`           — the word behind the branch is that address,
    • `labels_resolve_iff`    — and so labels resolve exactly where the last
                                name found is at the place of the label meant.
-/
import SproutLang.Assembler.Linking

namespace SproutLang.Assembler

open Library

/-! ## §1. The functions of a text. -/

/-- The lines of a function, its directives apart. -/
abbrev Scope := List (List Str)

/-- The functions after one more line. -/
def addScopeLine (py : Python) (scopes : List Scope) (toks : List Str) : List Scope :=
  if toks = [] then scopes
  else
    match lineKind py toks with
    | .func => scopes ++ [[]]
    | .endfunc => scopes
    | .label | .instr =>
        match scopes.getLast? with
        | some items => scopes.dropLast ++ [items ++ [toks]]
        | none => scopes

/-- **The functions of a text**, as their label and instruction lines. -/
def scopesOf (py : Python) (lines : List Str) : List Scope :=
  (lines.map tokenise_line).foldl (addScopeLine py) []

/-- The bytes that lines take. -/
def scopeSize (py : Python) (items : Scope) : Nat := (items.map (lineWidth py)).sum

/-- The label lines from `offset` on, with the offset of what follows them. -/
def definitions (py : Python) : Nat → Scope → List (List Str × Nat)
  | _, [] => []
  | offset, toks :: items =>
      (if lineKind py toks = .label then [(toks, offset)] else [])
        ++ definitions py (offset + lineWidth py toks) items

/-- The name of a label as it is written. -/
def labelName (toks : List Str) : Str := (toks.headD []).dropLast

/-- The labels of a function by the names they are written with. -/
def written (py : Python) (items : Scope) : List (Str × Nat) :=
  (definitions py 0 items).map fun d => (labelName d.1, d.2)

/-- The labels of a function by the names they are entered under. -/
def enteredLabels (py : Python) (items : Scope) : List (Str × Nat) :=
  (definitions py 0 items).map fun d => (labelKey py d.1, d.2)

/-- The offset of the label that is meant by `@label`. -/
def meant (py : Python) (items : Scope) (label : Str) : Option Nat :=
  (written py items).lookup label

/-- The offset of the label that is found: the latest entry counts. -/
def found (py : Python) (items : Scope) (label : Str) : Option Nat :=
  (enteredLabels py items).reverse.lookup label

/-- The image offset at which the code of the `i`-th function starts. -/
def scopeBase (py : Python) (scopes : List Scope) (i : Nat) : Nat :=
  HEADER_SIZE + scopes.length * FUNC_ENTRY_SIZE + ((scopes.take i).map (scopeSize py)).sum

/-- Line `j` of the `i`-th function, whose lines are `items`, is a branch to
`@label`. -/
structure BranchAt (py : Python) (scopes : List Scope) (i j : Nat) (items : Scope) (label : Str) :
    Prop where
  scope : scopes[i]? = some items
  line : ∃ toks op, items[j]? = some toks ∧ readLine py toks = some (.branch op label)

/-- The label a line branches to. -/
def SourceInstr.label? : SourceInstr → Option Str
  | .branch _ label => some label
  | _ => none

/-- The labels the branches of a function name. -/
def branchesOf (py : Python) (items : Scope) : List Str :=
  items.filterMap fun toks => (readLine py toks).bind SourceInstr.label?

/-- Every branch names a label that its function has, as it is written. -/
def AllMeant (py : Python) (scopes : List Scope) : Prop :=
  ∀ items ∈ scopes, ∀ label ∈ branchesOf py items, (meant py items label).isSome = true

/-- Every branch finds the label it means, or one at the same place. -/
def FoundAsMeant (py : Python) (scopes : List Scope) : Prop :=
  ∀ items ∈ scopes, ∀ label ∈ branchesOf py items, found py items label = meant py items label

/-- **A source made of function blocks** whose lines are all handled. -/
structure Blocks (py : Python) (text : Str) : Prop where
  handled : Everywhere (Handled py) (readlines text)
  closed : openAfter py (readlines text) = false

/-- **A source made of well-formed function blocks**, in which no function has
a label twice. -/
structure WellFormedSource (py : Python) (text : Str) : Prop extends Blocks py text where
  once : ∀ items ∈ scopesOf py (readlines text), ((written py items).map Prod.fst).Nodup

/-! ## §2. The functions the pass makes. -/

/-- **A function as the pass leaves it**, in terms of its lines. -/
structure ScopeHolds (py : Python) (f : Func) (items : Scope) : Prop where
  holds : FuncHolds f (items.filterMap (readLine py))
  labels : f.labels = (enteredLabels py items).reverse
  readable : ∀ toks ∈ items, (mnemonicOf py toks).isSome → (readLine py toks).isSome

section Scopes

variable {py : Python} {items : Scope} {toks : List Str} {f : Func} {raw : Str} {lines : List Str}

/-- A label line at the end adds a definition at the offset reached. -/
theorem definitions_snoc (items : Scope) (toks : List Str) : ∀ offset,
    definitions py offset (items ++ [toks]) = definitions py offset items
      ++ if lineKind py toks = .label then [(toks, offset + scopeSize py items)] else [] := by
  induction items with
  | nil => exact fun offset => List.append_nil _
  | cons t items ih =>
      intro offset
      have hsize : offset + lineWidth py t + scopeSize py items
          = offset + scopeSize py (t :: items) := by
        unfold scopeSize
        rw [List.map_cons, List.sum_cons]
        omega
      rw [List.cons_append, definitions, definitions, ih, hsize, List.append_assoc]

/-- And an entry under its key. -/
theorem enteredLabels_snoc (items : Scope) (toks : List Str) :
    enteredLabels py (items ++ [toks]) = enteredLabels py items
      ++ if lineKind py toks = .label then [(labelKey py toks, scopeSize py items)] else [] := by
  unfold enteredLabels
  rw [definitions_snoc, List.map_append, Nat.zero_add]
  split <;> rfl

/-- Lines without an instruction take no bytes. -/
theorem scopeSize_eq (h : ∀ toks ∈ items, (mnemonicOf py toks).isSome → (readLine py toks).isSome) :
    scopeSize py items = sizeOf (items.filterMap (readLine py)) := by
  induction items with
  | nil => rfl
  | cons toks items ih =>
      rw [List.forall_mem_cons] at h
      have hrest := ih h.2
      unfold scopeSize sizeOf at *
      rw [List.map_cons, List.sum_cons, hrest]
      cases hread : readLine py toks with
      | some s =>
          rw [List.filterMap_cons_some hread, List.map_cons, List.sum_cons,
            lineWidth_of_readLine hread]
      | none =>
          -- a mnemonic that cannot be read would have stopped the pass
          have hop : mnemonicOf py toks = none := by
            by_contra hsome
            have hline := h.1 (Option.isSome_iff_ne_none.2 hsome)
            rw [hread] at hline
            cases hline
          rw [List.filterMap_cons_none hread]
          unfold lineWidth
          rw [hop]
          exact Nat.zero_add _

theorem readLine_label (h : lineKind py toks = .label) : readLine py toks = none := by
  unfold readLine
  rw [mnemonicOf_directive (by rw [h]; decide)]

/-- A function that has just been opened holds an empty scope. -/
theorem ScopeHolds.empty (py : Python) (name : Str) (frameSize : Int) :
    ScopeHolds py { name, frameSize, labels := [], patches := [], raw := [] } [] :=
  ⟨FuncHolds.empty name frameSize, rfl, fun _ h => absurd h List.not_mem_nil⟩

/-- A label line keeps the scope. -/
theorem ScopeHolds.addLabel (h : ScopeHolds py f items) (hkind : lineKind py toks = .label) :
    ScopeHolds py (f.addLabel (labelKey py toks)) (items ++ [toks]) where
  holds := by
    rw [List.filterMap_append, List.filterMap_cons_none (readLine_label hkind), List.filterMap_nil,
      List.append_nil]
    exact h.holds.addLabel _
  labels := by
    rw [enteredLabels_snoc, if_pos hkind, List.reverse_append, ← h.labels, scopeSize_eq h.readable,
      ← h.holds.length_raw]
    rfl
  readable t ht hop := by
    rcases List.mem_append.1 ht with ht | ht
    · exact h.readable t ht hop
    · rw [List.mem_singleton.1 ht, mnemonicOf_directive (by rw [hkind]; decide)] at hop
      cases hop

/-- So does an instruction. -/
theorem ScopeHolds.emit {s : SourceInstr} (h : ScopeHolds py f items)
    (hkind : lineKind py toks = .instr) (hread : readLine py toks = some s) (hs : s.Checked) :
    ScopeHolds py (f.emit s) (items ++ [toks]) where
  holds := by
    rw [List.filterMap_append, List.filterMap_cons_some hread, List.filterMap_nil]
    exact h.holds.emit hs
  labels := by
    rw [enteredLabels_snoc, if_neg (by rw [hkind]; decide), List.append_nil]
    exact h.labels
  readable t ht hop := by
    rcases List.mem_append.1 ht with ht | ht
    · exact h.readable t ht hop
    · rw [List.mem_singleton.1 ht, hread]
      rfl

/-- A change of the open function that keeps up with one more line of it. -/
theorem scopes_modifyLast {a : Asm} {scopes : List Scope} {g : Func → Func}
    (hne : a.functions ≠ []) (h : List.Forall₂ (ScopeHolds py) a.functions scopes)
    (hblank : toks ≠ []) (hkind : lineKind py toks = .label ∨ lineKind py toks = .instr)
    (hg : ∀ f items, ScopeHolds py f items → ScopeHolds py (g f) (items ++ [toks])) :
    List.Forall₂ (ScopeHolds py) (a.modifyLast g).functions (addScopeLine py scopes toks) := by
  rcases a.functions_cases with hnil | ⟨fs, f, hsnoc⟩
  · exact absurd hnil hne
  · rw [hsnoc] at h
    -- the open function is the last one on both sides
    obtain ⟨before, items, rfl, hbefore, hlast⟩ := forall₂_snoc h
    have hadd : addScopeLine py (before ++ [items]) toks = before ++ [items ++ [toks]] := by
      unfold addScopeLine
      rw [if_neg hblank]
      rcases hkind with hkind | hkind <;>
        simp only [hkind, List.getLast?_concat, List.dropLast_concat]
    rw [hadd, Asm.modifyLast_snoc hsnoc]
    exact List.rel_append hbefore (List.Forall₂.cons (hg f items hlast) List.Forall₂.nil)

/-- **One line more.** -/
theorem after_scopes {a : Asm} {scopes : List Scope}
    (h : List.Forall₂ (ScopeHolds py) a.functions scopes)
    (hopened : a.inFunc = true → a.functions ≠ [])
    (hhandled : toks = [] ∨ refusal py a.inFunc toks = none) :
    List.Forall₂ (ScopeHolds py) (a.after py toks).functions (addScopeLine py scopes toks) ∧
      ((a.after py toks).inFunc = true → (a.after py toks).functions ≠ []) := by
  by_cases hblank : toks = []
  · rw [hblank, after_nil]
    exact ⟨h, hopened⟩
  have hrefusal := hhandled.resolve_left hblank
  have hne : ∀ g : Func → Func, a.functions ≠ [] → (a.modifyLast g).functions ≠ [] := by
    intro g hne
    rcases a.functions_cases with hnil | ⟨fs, f, hsnoc⟩
    · exact absurd hnil hne
    · rw [Asm.modifyLast_snoc hsnoc]
      simp
  cases hkind : lineKind py toks with
  | func =>
      unfold Asm.after addScopeLine
      simp only [hkind, if_neg hblank]
      exact ⟨List.rel_append h (List.Forall₂.cons (ScopeHolds.empty ..) List.Forall₂.nil),
        fun _ => by simp [Asm.openFunc]⟩
  | endfunc =>
      unfold Asm.after addScopeLine
      simp only [hkind, if_neg hblank]
      exact ⟨h, fun hopen => absurd hopen Bool.false_ne_true⟩
  | label =>
      -- a label is entered at the end of the code so far, which is where the line stands
      have hfunctions := hopened (refusal_inside (by rw [hkind]; decide) hrefusal)
      have hafter : a.after py toks = a.modifyLast fun f => f.addLabel (labelKey py toks) := by
        unfold Asm.after
        simp only [hkind]
      rw [hafter]
      exact ⟨scopes_modifyLast hfunctions h hblank (Or.inl hkind) fun _ _ hf => hf.addLabel hkind,
        fun _ => hne _ hfunctions⟩
  | instr =>
      -- an instruction adds its bytes and, if it is a branch, a patch
      obtain ⟨op, s, hop, hreadInstr, hchecked⟩ := refusal_instr hkind hrefusal
      have hread := readLine_of hop hreadInstr
      have hfunctions := hopened (refusal_inside (by rw [hkind]; decide) hrefusal)
      have hafter : a.after py toks = a.modifyLast fun f => f.emit s := by
        unfold Asm.after
        simp only [hkind, hread]
        rfl
      rw [hafter]
      exact ⟨scopes_modifyLast hfunctions h hblank (Or.inr hkind)
        fun _ _ hf => hf.emit hkind hread hchecked, fun _ => hne _ hfunctions⟩

/-- **The functions of the object are those of the text.** -/
theorem afterLines_scopes (h : Everywhere (Handled py) lines) :
    List.Forall₂ (ScopeHolds py) (Asm.afterLines py lines).functions (scopesOf py lines) ∧
      ((Asm.afterLines py lines).inFunc = true → (Asm.afterLines py lines).functions ≠ []) := by
  induction lines using List.reverseRecOn with
  | nil => exact ⟨List.Forall₂.nil, fun hopen => absurd hopen Bool.false_ne_true⟩
  | append_singleton before raw ih =>
      obtain ⟨hbefore, hraw⟩ := Everywhere.snoc_iff.1 h
      obtain ⟨hscopes, hopened⟩ := ih hbefore
      have hadd : scopesOf py (before ++ [raw])
          = addScopeLine py (scopesOf py before) (tokenise_line raw) := by
        unfold scopesOf
        rw [List.map_append, List.foldl_append]
        rfl
      -- the state of the object is that of the lines in front of this one
      unfold Handled at hraw
      rw [← afterLines_inFunc] at hraw
      rw [afterLines_snoc, hadd]
      exact after_scopes hscopes hopened hraw

end Scopes

/-! ## §3. Their image. -/

/-- What the functions of a text say. -/
def codesOf (py : Python) (scopes : List Scope) : List (List SourceInstr) :=
  scopes.map fun items => items.filterMap (readLine py)

/-- **Every branch finds a label** of its function, at an address of 32 bits;
so has the code section. -/
structure Links (py : Python) (scopes : List Scope) : Prop where
  front : HEADER_SIZE + scopes.length * FUNC_ENTRY_SIZE < 2 ^ 32
  found : ∀ i j items label, BranchAt py scopes i j items label →
    ∃ target, found py items label = some target ∧ scopeBase py scopes i + target < 2 ^ 32

section Image

variable {py : Python} {fs : List Func} {scopes : List Scope} {items : Scope} {label : Str}
  {text : Str} {bytes : List Byte} {i j : Nat}

theorem scopes_holds (h : List.Forall₂ (ScopeHolds py) fs scopes) :
    List.Forall₂ FuncHolds fs (codesOf py scopes) := by
  unfold codesOf
  rw [List.forall₂_map_right_iff]
  exact h.imp fun _ _ hf => hf.holds

theorem codeOffset_eq (h : List.Forall₂ (ScopeHolds py) fs scopes) :
    codeOffset fs = HEADER_SIZE + scopes.length * FUNC_ENTRY_SIZE := by
  unfold codeOffset
  rw [h.length_eq]

/-- The functions take the bytes of their lines. -/
theorem sum_scopeSize (h : List.Forall₂ (ScopeHolds py) fs scopes) :
    (scopes.map (scopeSize py)).sum = sizeOf (codesOf py scopes).flatten := by
  induction h with
  | nil => rfl
  | @cons f items fs scopes hf _ ih =>
      unfold codesOf at *
      rw [List.map_cons, List.map_cons, List.sum_cons, List.flatten_cons, ih,
        scopeSize_eq hf.readable]
      unfold sizeOf
      rw [List.map_append, List.sum_append]

/-- A function's code starts behind the code of those in front of it. -/
theorem scopeBase_eq (h : List.Forall₂ (ScopeHolds py) fs scopes) (i : Nat) :
    scopeBase py scopes i = codeOffset fs + sizeOf ((codesOf py scopes).take i).flatten := by
  unfold scopeBase
  rw [codeOffset_eq h, sum_scopeSize (List.forall₂_take i h)]
  unfold codesOf
  rw [List.map_take]

/-- A function's table of labels finds what the scope does. -/
theorem lookup_labels {f : Func} (h : ScopeHolds py f items) (label : Str) :
    f.labels.lookup label = found py items label := by
  rw [h.labels]
  rfl

/-- **Linking is a question of the source.** -/
theorem resolved_iff_links (h : List.Forall₂ (ScopeHolds py) fs scopes) :
    (Resolved (codeOffset fs) fs (codesOf py scopes) ∧ codeOffset fs < 2 ^ 32) ↔
      Links py scopes := by
  rw [resolved_iff, codeOffset_eq h]
  constructor
  · intro ⟨hresolved, hfront⟩
    refine ⟨hfront, fun i j items label hbranch => ?_⟩
    -- from the line to the instruction it is read as
    obtain ⟨toks, op, hitem, hread⟩ := hbranch.line
    obtain ⟨f, hf, hscope⟩ := forall₂_getElem? h.flip hbranch.scope
    have hcode : (codesOf py scopes)[i]? = some (items.filterMap (readLine py)) := by
      unfold codesOf
      rw [List.getElem?_map, hbranch.scope]
      rfl
    have hmem : SourceInstr.branch op label ∈ items.filterMap (readLine py) :=
      List.mem_filterMap.2 ⟨toks, List.mem_of_getElem? hitem, hread⟩
    obtain ⟨target, hlookup, hlt⟩ := hresolved i f _ hf hcode op label hmem
    rw [lookup_labels hscope] at hlookup
    rw [← codeOffset_eq h, ← scopeBase_eq h] at hlt
    exact ⟨target, hlookup, hlt⟩
  · intro hlinks
    refine ⟨fun i f code hf hcode op label hmem => ?_, hlinks.front⟩
    obtain ⟨items, hitems, hscope⟩ := forall₂_getElem? h hf
    unfold codesOf at hcode
    rw [List.getElem?_map, hitems] at hcode
    injection hcode with hcode
    rw [← hcode] at hmem
    -- and back: an instruction was read from some line
    obtain ⟨toks, htoks, hread⟩ := List.mem_filterMap.1 hmem
    obtain ⟨j, hj⟩ := List.mem_iff_getElem?.1 htoks
    obtain ⟨target, hfound, hlt⟩ := hlinks.found i j items label ⟨hitems, toks, op, hj, hread⟩
    rw [lookup_labels hscope, ← codeOffset_eq h, ← scopeBase_eq h]
    exact ⟨target, hfound, hlt⟩

/-- The four bytes behind a branch word are the address of the label found. -/
theorem branch_word (h : List.Forall₂ (ScopeHolds py) fs scopes)
    (hrun : _emit_binary fs = .ok bytes) (hbranch : BranchAt py scopes i j items label) :
    ∃ target w, found py items label = some target ∧
      readU32 bytes (scopeBase py scopes i + scopeSize py (items.take j) + 4) = some w ∧
      w.toNat = scopeBase py scopes i + target := by
  obtain ⟨hresolved, hsmall, hbytes⟩ := emit_binary_effect (scopes_holds h) hrun
  have hlinks := (resolved_iff_links h).1 ⟨hresolved, hsmall⟩
  obtain ⟨target, hfound, hlt⟩ := hlinks.found i j items label hbranch
  obtain ⟨toks, op, hitem, hread⟩ := hbranch.line
  obtain ⟨f, hf, hscope⟩ := forall₂_getElem? h.flip hbranch.scope
  have hcode : (codesOf py scopes)[i]? = some (items.filterMap (readLine py)) := by
    unfold codesOf
    rw [List.getElem?_map, hbranch.scope]
    rfl
  obtain ⟨before, after, hlinked, hlen⟩ :=
    linkedBytes_function (scopes_holds h) (codeOffset fs) i f _ hf hcode
  -- the lines of the function in front of the branch and behind it
  obtain ⟨hj, hget⟩ := List.getElem?_eq_some_iff.1 hitem
  have hsplit : items.filterMap (readLine py) = (items.take j).filterMap (readLine py)
      ++ SourceInstr.branch op label :: (items.drop (j + 1)).filterMap (readLine py) := by
    conv_lhs => rw [← List.take_append_drop j items, List.drop_eq_getElem_cons hj, hget]
    rw [List.filterMap_append, List.filterMap_cons_some hread]
  have hsize : scopeSize py (items.take j) = sizeOf ((items.take j).filterMap (readLine py)) :=
    scopeSize_eq fun toks htoks => hscope.readable toks (List.mem_of_mem_take htoks)
  rw [hsplit, List.flatMap_append, List.flatMap_cons, ← scopeBase_eq h] at hlinked
  -- the address the linker put behind the branch word
  have haddress : address (scopeBase py scopes i) f label = scopeBase py scopes i + target := by
    unfold address
    rw [lookup_labels hscope, hfound]
    rfl
  have hfront : (wordBytes (headerWords fs.length (codeOffset fs))
      ++ wordBytes (tableWords (codeOffset fs) fs)).length = codeOffset fs :=
    Assembled.length_front
  generalize wordBytes (headerWords fs.length (codeOffset fs))
    ++ wordBytes (tableWords (codeOffset fs) fs) = front at hbytes hfront
  generalize hlines : ((items.take j).filterMap (readLine py)).flatMap
    (SourceInstr.bytes (address (scopeBase py scopes i) f)) = lines at hlinked
  -- the image cut at the word: front, functions before, lines before, branch word
  have hword : bytes = (front ++ before ++ lines ++ bigEndian 4 (packed op 0 0 0))
      ++ bigEndian 4 (scopeBase py scopes i + target)
      ++ (((items.drop (j + 1)).filterMap (readLine py)).flatMap
        (SourceInstr.bytes (address (scopeBase py scopes i) f)) ++ after) := by
    have hbranchBytes : SourceInstr.bytes (address (scopeBase py scopes i) f) (.branch op label)
        = bigEndian 4 (packed op 0 0 0) ++ bigEndian 4 (scopeBase py scopes i + target) := by
      rw [← haddress]
      rfl
    rw [hbytes, hlinked, hbranchBytes]
    simp only [List.append_assoc]
  have hplace : scopeBase py scopes i + scopeSize py (items.take j) + 4
      = (front ++ before ++ lines ++ bigEndian 4 (packed op 0 0 0)).length := by
    rw [List.length_append, List.length_append, List.length_append, length_bigEndian, hfront, hlen,
      ← hlines, length_flatMap_bytes, hsize, scopeBase_eq h]
  refine ⟨target, _, hfound, readU32_bigEndian_of_eq hword hplace, ?_⟩
  rw [BitVec.toNat_ofNat, Nat.mod_eq_of_lt hlt]

end Image

/-! ## §4. The law. -/

/-- **Labels resolve.**  If every branch names a label of its function, the
text assembles, and the VM reads behind each branch word the image offset of
what follows that label; if not, the text is rejected. -/
structure LabelsResolve (py : Python) (text : Str) : Prop where
  assembles : AllMeant py (scopesOf py (readlines text)) → ∃ bytes,
    assemble py text = .ok bytes ∧
      ∀ i j items label target, BranchAt py (scopesOf py (readlines text)) i j items label →
        meant py items label = some target → ∃ w,
          readU32 bytes (scopeBase py (scopesOf py (readlines text)) i
            + scopeSize py (items.take j) + 4) = some w ∧
          w.toNat = scopeBase py (scopesOf py (readlines text)) i + target
  rejected : ¬ AllMeant py (scopesOf py (readlines text)) → ∀ bytes, assemble py text ≠ .ok bytes

section Law

variable {py : Python} {text : Str} {scopes : List Scope} {items : Scope} {label : Str}
  {i j : Nat}

/-- A branch at a position is one of its scope. -/
theorem BranchAt.mem_branchesOf (h : BranchAt py scopes i j items label) :
    items ∈ scopes ∧ label ∈ branchesOf py items := by
  obtain ⟨toks, op, hitem, hread⟩ := h.line
  refine ⟨List.mem_of_getElem? h.scope,
    List.mem_filterMap.2 ⟨toks, List.mem_of_getElem? hitem, ?_⟩⟩
  rw [hread]
  rfl

/-- And every branch of a scope has a position. -/
theorem exists_branchAt (hitems : items ∈ scopes) (hlabel : label ∈ branchesOf py items) :
    ∃ i j, BranchAt py scopes i j items label := by
  obtain ⟨toks, htoks, hread⟩ := List.mem_filterMap.1 hlabel
  obtain ⟨s, hs, hlabel⟩ := Option.bind_eq_some_iff.1 hread
  obtain ⟨i, hi⟩ := List.mem_iff_getElem?.1 hitems
  obtain ⟨j, hj⟩ := List.mem_iff_getElem?.1 htoks
  cases s with
  | branch op label' =>
      injection hlabel with hlabel
      exact ⟨i, j, hi, toks, op, hj, by rw [hs, hlabel]⟩
  | regs | load | call | mov => cases hlabel

/-- Where all lines are accepted, the second pass decides. -/
theorem assemble_eq (h : Blocks py text) :
    assemble py text = _emit_binary (Asm.afterLines py (readlines text)).functions := by
  unfold assemble
  rw [except_bind_ok (pass1_passes h.handled h.closed)]

/-- **A source made of blocks assembles exactly where it links.** -/
theorem assemble_succeeds_iff (h : Blocks py text) :
    (∃ bytes, assemble py text = .ok bytes) ↔ Links py (scopesOf py (readlines text)) := by
  obtain ⟨hscopes, -⟩ := afterLines_scopes h.handled
  -- both sides speak of the functions the first pass leaves
  rw [assemble_eq h, ← resolved_iff_links hscopes]
  constructor
  · intro ⟨bytes, hrun⟩
    obtain ⟨hresolved, hsmall, -⟩ := emit_binary_effect (scopes_holds hscopes) hrun
    exact ⟨hresolved, hsmall⟩
  · intro ⟨hresolved, hsmall⟩
    exact emit_binary_runs (scopes_holds hscopes) hresolved hsmall

/-- **Where labels resolve.**  If every branch names a label of its function,
each has to find one at the place of the label it means, at an address that
fits; if not, some branch has to find none, or one whose address does not
fit. -/
theorem labels_resolve_iff (h : WellFormedSource py text) :
    LabelsResolve py text ↔
      (AllMeant py (scopesOf py (readlines text)) →
        Links py (scopesOf py (readlines text)) ∧
          FoundAsMeant py (scopesOf py (readlines text))) ∧
      (¬ AllMeant py (scopesOf py (readlines text)) →
        ¬ Links py (scopesOf py (readlines text))) := by
  obtain ⟨hscopes, -⟩ := afterLines_scopes h.handled
  constructor
  · intro hlaw
    refine ⟨fun hall => ?_, fun hnot hlinks => ?_⟩
    · -- a branch that finds another label than it means would show in the image
      obtain ⟨bytes, hrun, hwords⟩ := hlaw.assembles hall
      refine ⟨(assemble_succeeds_iff h.toBlocks).1 ⟨bytes, hrun⟩, fun items hitems label hlabel => ?_⟩
      rw [assemble_eq h.toBlocks] at hrun
      obtain ⟨i, j, hbranch⟩ := exists_branchAt hitems hlabel
      obtain ⟨target, hmeant⟩ := Option.isSome_iff_exists.1 (hall items hitems label hlabel)
      obtain ⟨w, hw, hvalue⟩ := hwords i j items label target hbranch hmeant
      -- the word is the address of the label found, and of the one meant
      obtain ⟨target', w', hfound, hw', hvalue'⟩ := branch_word hscopes hrun hbranch
      rw [hw] at hw'
      injection hw' with hw'
      rw [hfound, hmeant, show target' = target by rw [← hw'] at hvalue'; omega]
    · obtain ⟨bytes, hrun⟩ := (assemble_succeeds_iff h.toBlocks).2 hlinks
      -- a text with a name nobody defined links: the law forbids that
      exact hlaw.rejected hnot bytes hrun
  · intro ⟨hmeant, hnot⟩
    refine ⟨fun hall => ?_, fun hsome bytes hrun => ?_⟩
    · obtain ⟨hlinks, hsame⟩ := hmeant hall
      obtain ⟨bytes, hrun⟩ := (assemble_succeeds_iff h.toBlocks).2 hlinks
      refine ⟨bytes, hrun, fun i j items label target hbranch htarget => ?_⟩
      rw [assemble_eq h.toBlocks] at hrun
      obtain ⟨target', w, hfound, hw, hvalue⟩ := branch_word hscopes hrun hbranch
      obtain ⟨hitems, hlabel⟩ := hbranch.mem_branchesOf
      rw [hsame items hitems label hlabel, htarget] at hfound
      injection hfound with htargets
      exact ⟨w, hw, by rw [hvalue, htargets]⟩
    · exact hnot hsome ((assemble_succeeds_iff h.toBlocks).1 ⟨bytes, hrun⟩)

/-- Where every name occurs once, the last entry is the first. -/
theorem lookup_reverse {l : List (Str × Nat)} (h : (l.map Prod.fst).Nodup) (name : Str) :
    l.reverse.lookup name = l.lookup name := by
  induction l with
  | nil => rfl
  | cons p l ih =>
      obtain ⟨key, offset⟩ := p
      rw [List.map_cons, List.nodup_cons] at h
      rw [List.reverse_cons, List.lookup_append, ih h.2]
      by_cases hname : name = key
      · -- the name is not among the others
        have hnone : l.lookup name = none := by
          rw [List.lookup_eq_none_iff]
          intro q hq
          rw [bne_iff_ne]
          intro heq
          exact h.1 (List.mem_map.2 ⟨q, hq, by rw [← heq, hname]⟩)
        rw [hnone, hname, List.lookup_cons_self, List.lookup_cons_self]
        rfl
      · have hbeq : (name == key) = false := beq_false_of_ne hname
        rw [List.lookup_cons, List.lookup_cons, hbeq]
        exact Option.or_none ..

/-- **Names in lower case are found as they are meant.** -/
theorem foundAsMeant_of_lower (h : WellFormedSource py text)
    (hlower : ∀ items ∈ scopesOf py (readlines text), ∀ d ∈ definitions py 0 items,
      labelKey py d.1 = labelName d.1) :
    FoundAsMeant py (scopesOf py (readlines text)) := by
  intro items hitems label _
  have hentered : enteredLabels py items = written py items :=
    List.map_congr_left fun d hd => by rw [hlower items hitems d hd]
  unfold found meant
  rw [hentered]
  exact lookup_reverse (h.once items hitems) label

end Law

/-- What the first pass accepts is made of function blocks. -/
theorem WellFormedSource.of_pass {py : Python} {text : Str} {a : Asm}
    (h : _pass1 py (readlines text) = .ok a)
    (honce : ∀ items ∈ scopesOf py (readlines text), ((written py items).map Prod.fst).Nodup) :
    WellFormedSource py text := by
  obtain ⟨hhandled, hclosed⟩ := pass1_iff.1 ⟨a, h⟩
  exact ⟨⟨hhandled, hclosed⟩, honce⟩

/-- A loop whose label is written in lower case, and one whose label is not. -/
def lowerLoop : Str := ".func main\nloop:\nje @loop\nend r1\n.endfunc\n".toList

/-- The same text with an upper-case letter in the label. -/
def upperLoop : Str := ".func main\nLoop:\nje @Loop\nend r1\n.endfunc\n".toList

/-- The loop in lower case is well formed. -/
theorem lowerLoop_wellFormed : WellFormedSource Python.ascii lowerLoop := by
  -- spelled out, a text is read much faster
  have hpass : _pass1 Python.ascii (readlines lowerLoop)
      = .ok (Asm.afterLines Python.ascii (readlines lowerLoop)) := by
    unfold lowerLoop
    rewrite [String.toList_ofList]
    decide +kernel
  apply WellFormedSource.of_pass hpass
  unfold lowerLoop
  rewrite [String.toList_ofList]
  decide +kernel

/-- So is the other one. -/
theorem upperLoop_wellFormed : WellFormedSource Python.ascii upperLoop := by
  have hpass : _pass1 Python.ascii (readlines upperLoop)
      = .ok (Asm.afterLines Python.ascii (readlines upperLoop)) := by
    unfold upperLoop
    rewrite [String.toList_ofList]
    decide +kernel
  apply WellFormedSource.of_pass hpass
  unfold upperLoop
  rewrite [String.toList_ofList]
  decide +kernel

/-- Both sides hold of the loop in lower case. -/
theorem labels_resolve_iff_lowerLoop :
    LabelsResolve Python.ascii lowerLoop ↔
      (AllMeant Python.ascii (scopesOf Python.ascii (readlines lowerLoop)) →
        Links Python.ascii (scopesOf Python.ascii (readlines lowerLoop)) ∧
          FoundAsMeant Python.ascii (scopesOf Python.ascii (readlines lowerLoop))) ∧
      (¬ AllMeant Python.ascii (scopesOf Python.ascii (readlines lowerLoop)) →
        ¬ Links Python.ascii (scopesOf Python.ascii (readlines lowerLoop))) :=
  labels_resolve_iff lowerLoop_wellFormed

/-- **A label in upper case is not found**: the text defines what its branch
names, and is rejected. -/
theorem labels_resolve_fails :
    WellFormedSource Python.ascii upperLoop ∧
    AllMeant Python.ascii (scopesOf Python.ascii (readlines upperLoop)) ∧
    assemble Python.ascii upperLoop = .error (.undefinedLabel "main".toList "Loop".toList) ∧
    ¬ LabelsResolve Python.ascii upperLoop := by
  have hmeant : AllMeant Python.ascii (scopesOf Python.ascii (readlines upperLoop)) := by
    unfold AllMeant upperLoop
    rewrite [String.toList_ofList]
    decide +kernel
  have hrejected : assemble Python.ascii upperLoop
      = .error (.undefinedLabel "main".toList "Loop".toList) := by
    unfold upperLoop
    rewrite [String.toList_ofList]
    decide +kernel
  refine ⟨upperLoop_wellFormed, hmeant, hrejected, fun h => ?_⟩
  obtain ⟨bytes, hrun, -⟩ := h.assembles hmeant
  rw [hrejected] at hrun
  cases hrun

end SproutLang.Assembler
