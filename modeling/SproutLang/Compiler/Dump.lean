/-
  SproutLang.Compiler.Dump
  ────────────────────────
  **THE DUMP OF A TREE** (`printAST`, `tokenTypeName`).

  `printAST` writes a line for each node, indented by its depth.

    • `printAST_eq`   — the text is the outline of a tree of entries,
    • `shape_inj`     — the entries tell the nodes apart, except that
      `tokenTypeName` writes `?` for `&&` and for `||`,
    • `eq_of_printed` — a tree without them is determined by its text.
-/
import SproutLang.Compiler.Statements
import SproutLang.Compiler.Printing
import SproutLang.Library.Outline

namespace SproutLang.Compiler

open Library

/-! ## §1. The source. -/

/-- The name `printAST` prints for an operator; every other type is `?`. -/
def tokenTypeName : TokenType → String
  | .PLUS => "+"
  | .MINUS => "-"
  | .STAR => "*"
  | .SLASH => "/"
  | .EQEQ => "=="
  | .NOT_EQ => "!="
  | .LOWER => "<"
  | .GREATER => ">"
  | _ => "?"

/-- `std::string pad(indent * 2, ' ')`. -/
def pad (indent : Nat) : String := String.ofList (List.replicate (indent * 2) ' ')

mutual

/-- What `printAST` writes. -/
def printAST : ASTNode → Nat → String
  | .program program, indent => pad indent ++ "Program\n" ++ printAll program (indent + 1)
  | .block block, indent => pad indent ++ "Block\n" ++ printAll block (indent + 1)
  | .binaryOp op left right, indent =>
      pad indent ++ "BinaryOp(" ++ tokenTypeName op ++ ")\n"
        ++ printAST left (indent + 1) ++ printAST right (indent + 1)
  | .unaryOp op operand, indent =>
      pad indent ++ "UnaryOp(" ++ tokenTypeName op ++ ")\n" ++ printAST operand (indent + 1)
  | .varDecl identifier expression, indent =>
      pad indent ++ "VarDecl(" ++ identifier ++ ")\n" ++ printAST expression (indent + 1)
  | .varAssign identifier expression, indent =>
      pad indent ++ "VarAssign(" ++ identifier ++ ")\n" ++ printAST expression (indent + 1)
  | .intLiteral number, indent => pad indent ++ "Int(" ++ toString number ++ ")\n"
  | .ident identifier, indent => pad indent ++ "Ident(" ++ identifier ++ ")\n"
  | .funcCall identifier args, indent =>
      pad indent ++ "FuncCall(" ++ identifier ++ ")\n" ++ printAll args (indent + 1)
  | .ifStmt expression ifBlock none, indent =>
      pad indent ++ "If\n" ++ printAST expression (indent + 1) ++ printAST ifBlock (indent + 1)
  -- no line tells the two blocks apart
  | .ifStmt expression ifBlock (some elseBlock), indent =>
      pad indent ++ "If\n" ++ printAST expression (indent + 1) ++ printAST ifBlock (indent + 1)
        ++ printAST elseBlock (indent + 1)

/-- The loops over children. -/
def printAll : List ASTNode → Nat → String
  | [], _ => ""
  | child :: rest, indent => printAST child indent ++ printAll rest indent

end

/-! ## §2. The dump as an outline. -/

/-- The lines of the dump, without what stands in parentheses. -/
inductive Kind where
  | program | block | binaryOp | unaryOp | varDecl | varAssign | int | ident | funcCall | ifStmt
  deriving DecidableEq

/-- The first word of the line of a node. -/
def Kind.name : Kind → String
  | .program => "Program"
  | .block => "Block"
  | .binaryOp => "BinaryOp"
  | .unaryOp => "UnaryOp"
  | .varDecl => "VarDecl"
  | .varAssign => "VarAssign"
  | .int => "Int"
  | .ident => "Ident"
  | .funcCall => "FuncCall"
  | .ifStmt => "If"

/-- A line of the dump: the kind of the node and its detail. -/
structure Entry where
  kind : Kind
  arg : Option String

/-- The text of a line behind its indentation. -/
def Entry.text (entry : Entry) : List Char :=
  match entry.arg with
  | none => entry.kind.name.toList
  | some arg => entry.kind.name.toList ++ '(' :: (arg.toList ++ [')'])

mutual

/-- The tree that is written. -/
def shape : ASTNode → Rose Entry
  | .program program => .node ⟨.program, none⟩ (shapes program)
  | .block block => .node ⟨.block, none⟩ (shapes block)
  | .binaryOp op left right =>
      .node ⟨.binaryOp, some (tokenTypeName op)⟩ [shape left, shape right]
  | .unaryOp op operand => .node ⟨.unaryOp, some (tokenTypeName op)⟩ [shape operand]
  | .varDecl identifier expression => .node ⟨.varDecl, some identifier⟩ [shape expression]
  | .varAssign identifier expression => .node ⟨.varAssign, some identifier⟩ [shape expression]
  | .intLiteral number => .node ⟨.int, some (toString number)⟩ []
  | .ident identifier => .node ⟨.ident, some identifier⟩ []
  | .funcCall identifier args => .node ⟨.funcCall, some identifier⟩ (shapes args)
  | .ifStmt expression ifBlock none => .node ⟨.ifStmt, none⟩ [shape expression, shape ifBlock]
  | .ifStmt expression ifBlock (some elseBlock) =>
      .node ⟨.ifStmt, none⟩ [shape expression, shape ifBlock, shape elseBlock]

/-- The outlines of a list of trees. -/
def shapes : List ASTNode → List (Rose Entry)
  | [] => []
  | child :: rest => shape child :: shapes rest

end

/-- The line of a node with something in parentheses. -/
theorem entry_line {indent : Nat} {arg : String} (kind : Kind) (head : String)
    (h : head = kind.name ++ "(") :
    (pad indent ++ head ++ arg ++ ")\n").toList = line 2 (indent, Entry.text ⟨kind, some arg⟩) := by
  rw [h]
  simp [pad, line, Entry.text]

/-- The line of a node without. -/
theorem plain_line {indent : Nat} (kind : Kind) (head : String) (h : head = kind.name ++ "\n") :
    (pad indent ++ head).toList = line 2 (indent, Entry.text ⟨kind, none⟩) := by
  rw [h]
  simp [pad, line, Entry.text]

mutual

/-- **The dump is the outline of the tree.** -/
theorem printAST_eq (e : ASTNode) (indent : Nat) :
    (printAST e indent).toList = outlineText Entry.text 2 indent (shape e) := by
  -- a line for the node, the lines of its children two columns further
  cases e with
  | program program =>
      rw [printAST, shape, outlineText_node, String.toList_append, printAll_eq program,
        plain_line .program "Program\n" rfl]
  | block block =>
      rw [printAST, shape, outlineText_node, String.toList_append, printAll_eq block,
        plain_line .block "Block\n" rfl]
  | binaryOp op left right =>
      rw [printAST, shape, outlineText_node, outlinesText_cons, outlinesText_cons, outlinesText_nil,
        List.append_nil, String.toList_append, String.toList_append, printAST_eq left,
        printAST_eq right, entry_line .binaryOp "BinaryOp(" rfl, List.append_assoc]
  | unaryOp op operand =>
      rw [printAST, shape, outlineText_node, outlinesText_cons, outlinesText_nil, List.append_nil,
        String.toList_append, printAST_eq operand, entry_line .unaryOp "UnaryOp(" rfl]
  | varDecl x e =>
      rw [printAST, shape, outlineText_node, outlinesText_cons, outlinesText_nil, List.append_nil,
        String.toList_append, printAST_eq e, entry_line .varDecl "VarDecl(" rfl]
  | varAssign x e =>
      rw [printAST, shape, outlineText_node, outlinesText_cons, outlinesText_nil, List.append_nil,
        String.toList_append, printAST_eq e, entry_line .varAssign "VarAssign(" rfl]
  | intLiteral n =>
      rw [printAST, shape, outlineText_node, outlinesText_nil, List.append_nil,
        entry_line .int "Int(" rfl]
  | ident x =>
      rw [printAST, shape, outlineText_node, outlinesText_nil, List.append_nil,
        entry_line .ident "Ident(" rfl]
  | funcCall x args =>
      rw [printAST, shape, outlineText_node, String.toList_append, printAll_eq args,
        entry_line .funcCall "FuncCall(" rfl]
  | ifStmt c b els =>
      cases els with
      | none =>
          rw [printAST, shape, outlineText_node, outlinesText_cons, outlinesText_cons,
            outlinesText_nil, List.append_nil, String.toList_append, String.toList_append,
            printAST_eq c, printAST_eq b, plain_line .ifStmt "If\n" rfl, List.append_assoc]
      | some d =>
          rw [printAST, shape, outlineText_node, outlinesText_cons, outlinesText_cons,
            outlinesText_cons, outlinesText_nil, List.append_nil, String.toList_append,
            String.toList_append, String.toList_append, printAST_eq c, printAST_eq b,
            printAST_eq d, plain_line .ifStmt "If\n" rfl, List.append_assoc, List.append_assoc]

/-- The dump of a list of trees is the text of their outlines. -/
theorem printAll_eq (es : List ASTNode) (indent : Nat) :
    (printAll es indent).toList = outlinesText Entry.text 2 indent (shapes es) := by
  cases es with
  | nil => rfl
  | cons e es =>
      rw [printAll, shapes, String.toList_append, outlinesText_cons, printAST_eq e, printAll_eq es]

end

/-! ## §3. A line determines its entry. -/

/-- No name of a node has a parenthesis, and no two are the same. -/
theorem kind_name_no_paren (kind : Kind) : '(' ∉ kind.name.toList := by
  cases kind <;> decide

/-- Kinds have different names. -/
theorem kind_name_inj {kind kind' : Kind} (h : kind.name = kind'.name) : kind = kind' := by
  revert h
  cases kind <;> cases kind' <;> decide

/-- A line tells its kind and its detail. -/
theorem entry_text_inj (a b : Entry) (h : a.text = b.text) : a = b := by
  -- the name is what stands in front of the parenthesis
  have hname : ∀ c : Entry, c.text.takeWhile (· ≠ '(') = c.kind.name.toList := by
    intro c
    have hall : ∀ d ∈ c.kind.name.toList, decide (d ≠ '(') = true := by
      intro d hd
      rw [decide_eq_true_eq]
      rintro rfl
      exact kind_name_no_paren c.kind hd
    unfold Entry.text
    cases c.arg with
    | none => exact List.takeWhile_eq_self_iff.2 hall
    | some arg => rw [List.takeWhile_append_of_pos hall]; simp
  have hkind : a.kind = b.kind := by
    apply kind_name_inj
    apply String.ext
    rw [← hname a, ← hname b, h]
  obtain ⟨kind, arg⟩ := a
  obtain ⟨kind', arg'⟩ := b
  obtain rfl : kind = kind' := hkind
  cases arg with
  | none =>
      cases arg' with
      | none => rfl
      | some arg' => exact absurd (congrArg List.length h) (by simp [Entry.text])
  | some arg =>
      cases arg' with
      | none => exact absurd (congrArg List.length h) (by simp [Entry.text])
      | some arg' =>
          simp only [Entry.text, List.append_cancel_left_eq, List.cons.injEq, true_and,
            List.append_cancel_right_eq] at h
          rw [String.ext h]

/-- A label stands on one line unless its argument does not. -/
theorem entry_oneLine {entry : Entry} (h : ∀ arg ∈ entry.arg, '\n' ∉ arg.toList) :
    OneLine entry.text := by
  have hname : '\n' ∉ entry.kind.name.toList ∧ ∃ c cs, entry.kind.name.toList = c :: cs ∧ c ≠ ' ' := by
    cases entry.kind <;> exact ⟨by decide, _, _, rfl, by decide⟩
  obtain ⟨hline, c, cs, hcons, hblank⟩ := hname
  unfold Entry.text
  cases harg : entry.arg with
  | none =>
      refine ⟨hline, ?_⟩
      rw [hcons]
      simpa using hblank
  | some arg =>
      have hnl := h arg (by rw [harg]; rfl)
      refine ⟨?_, ?_⟩
      · intro hmem
        simp only [List.mem_append, List.mem_cons, List.not_mem_nil, or_false] at hmem
        rcases hmem with hmem | hmem | hmem | hmem
        · exact hline hmem
        · exact absurd hmem (by decide)
        · exact hnl hmem
        · exact absurd hmem (by decide)
      · rw [hcons]
        simpa using hblank

/-- A number is printed in one way. -/
theorem toString_int_inj {n m : Int} (h : toString n = toString m) : n = m := by
  have hunsigned : ∀ k : Nat, (toString k).toList.head? ≠ some '-' := by
    intro k hhead
    have hdigit := (toString_digits k).2.1 _ (List.mem_of_head? hhead)
    exact absurd hdigit (by decide)
  cases n with
  | ofNat n =>
      cases m with
      | ofNat m =>
          have hnat : toString n = toString m := h
          have hvalue := congrArg (fun s : String => digitsValue s.toList) hnat
          simp only [(toString_digits _).2.2] at hvalue
          rw [hvalue]
      | negSucc m =>
          have hsign : toString n = "-" ++ toString (m + 1) := h
          have hhead := hunsigned n
          rw [hsign, String.toList_append] at hhead
          exact absurd rfl hhead
  | negSucc n =>
      cases m with
      | ofNat m =>
          have hsign : "-" ++ toString (n + 1) = toString m := h
          have hhead := hunsigned m
          rw [← hsign, String.toList_append] at hhead
          exact absurd rfl hhead
      | negSucc m =>
          have hsign : "-" ++ toString (n + 1) = "-" ++ toString (m + 1) := h
          have htext := congrArg String.toList hsign
          rw [String.toList_append, String.toList_append, List.append_cancel_left_eq] at htext
          have hvalue := congrArg digitsValue htext
          rw [(toString_digits _).2.2, (toString_digits _).2.2] at hvalue
          rw [Nat.succ_injective hvalue]

/-! ## §4. The shape determines the tree. -/

mutual

/-- Whether `&&` or `||` is an operator of the tree. -/
def usesLogical : ASTNode → Bool
  | .program program => anyLogical program
  | .block block => anyLogical block
  | .binaryOp op left right => logicalOps op || (usesLogical left || usesLogical right)
  | .unaryOp _ operand => usesLogical operand
  | .varDecl _ expression => usesLogical expression
  | .varAssign _ expression => usesLogical expression
  | .intLiteral _ => false
  | .ident _ => false
  | .funcCall _ args => anyLogical args
  | .ifStmt expression ifBlock none => usesLogical expression || usesLogical ifBlock
  | .ifStmt expression ifBlock (some elseBlock) =>
      usesLogical expression || (usesLogical ifBlock || usesLogical elseBlock)

/-- A connective occurs in one of the trees. -/
def anyLogical : List ASTNode → Bool
  | [] => false
  | child :: rest => usesLogical child || anyLogical rest

end

mutual

/-- The identifiers stand on one line, and the operators are some the parser
puts in a node. -/
def Dumpable : ASTNode → Prop
  | .program program => AllDumpable program
  | .block block => AllDumpable block
  | .binaryOp op left right => levelOfOp op ≤ 5 ∧ Dumpable left ∧ Dumpable right
  | .unaryOp op operand => (op = .MINUS ∨ op = .NOT) ∧ Dumpable operand
  | .varDecl identifier expression => '\n' ∉ identifier.toList ∧ Dumpable expression
  | .varAssign identifier expression => '\n' ∉ identifier.toList ∧ Dumpable expression
  | .intLiteral _ => True
  | .ident identifier => '\n' ∉ identifier.toList
  | .funcCall identifier args => '\n' ∉ identifier.toList ∧ AllDumpable args
  | .ifStmt expression ifBlock none => Dumpable expression ∧ Dumpable ifBlock
  | .ifStmt expression ifBlock (some elseBlock) =>
      Dumpable expression ∧ Dumpable ifBlock ∧ Dumpable elseBlock

/-- All trees of a list are dumpable. -/
def AllDumpable : List ASTNode → Prop
  | [] => True
  | child :: rest => Dumpable child ∧ AllDumpable rest

end

/-- The operator of a name. -/
def operatorNamed (name : String) : Option TokenType :=
  [.PLUS, .MINUS, .STAR, .SLASH, .EQEQ, .NOT_EQ, .LOWER, .GREATER].find?
    fun op => tokenTypeName op = name

/-- The name of an operator tells it, unless it is a connective. -/
theorem operatorNamed_name {op : TokenType} (h : levelOfOp op ≤ 5) :
    operatorNamed (tokenTypeName op) = if logicalOps op then none else some op := by
  revert h
  cases op <;> decide

/-- The binary operators but two have a name of their own. -/
theorem binary_name_inj {op op' : TokenType} (hop : levelOfOp op ≤ 5) (hop' : levelOfOp op' ≤ 5)
    (hnamed : logicalOps op = false) (h : tokenTypeName op = tokenTypeName op') : op = op' := by
  have hfound := operatorNamed_name hop
  rw [h, operatorNamed_name hop', hnamed] at hfound
  split at hfound
  · exact absurd hfound (by simp)
  · exact (Option.some.inj hfound).symm

/-- The unary operators are told apart. -/
theorem unary_name_inj {op op' : TokenType} (hop : op = .MINUS ∨ op = .NOT)
    (hop' : op' = .MINUS ∨ op' = .NOT) (h : tokenTypeName op = tokenTypeName op') : op = op' := by
  rcases hop with rfl | rfl <;> rcases hop' with rfl | rfl
  · rfl
  · exact absurd h (by decide)
  · exact absurd h (by decide)
  · rfl

/-- The first word of a node's line. -/
def kindOf : ASTNode → Kind
  | .program _ => .program
  | .block _ => .block
  | .binaryOp _ _ _ => .binaryOp
  | .unaryOp _ _ => .unaryOp
  | .varDecl _ _ => .varDecl
  | .varAssign _ _ => .varAssign
  | .intLiteral _ => .int
  | .ident _ => .ident
  | .funcCall _ _ => .funcCall
  | .ifStmt _ _ _ => .ifStmt

/-- The root of the outline has the kind of the node. -/
theorem shape_eq (e : ASTNode) : ∃ arg ts, shape e = .node ⟨kindOf e, arg⟩ ts := by
  cases e with
  | ifStmt c b els => cases els <;> exact ⟨_, _, rfl⟩
  | _ => exact ⟨_, _, rfl⟩

/-- Trees with one outline have one kind at the root. -/
theorem kindOf_eq {e e' : ASTNode} (h : shape e = shape e') : kindOf e = kindOf e' := by
  obtain ⟨arg, ts, hshape⟩ := shape_eq e
  obtain ⟨arg', ts', hshape'⟩ := shape_eq e'
  rw [hshape, hshape', Rose.node.injEq, Entry.mk.injEq] at h
  exact h.1.1

mutual

/-- **Without `&&` and `||` the shape determines the tree.** -/
theorem shape_inj (e e' : ASTNode) (he : Dumpable e) (he' : Dumpable e')
    (hlogical : usesLogical e = false) (h : shape e = shape e') : e = e' := by
  have hkind := kindOf_eq h
  -- one kind of node against the others
  cases e with
  | program program =>
      cases e' with
      | program program' =>
          simp only [shape, Rose.node.injEq, true_and] at h
          rw [shapes_inj program program' he he' hlogical h]
      | _ => exact absurd hkind (by simp [kindOf])
  | block block =>
      cases e' with
      | block block' =>
          simp only [shape, Rose.node.injEq, true_and] at h
          rw [shapes_inj block block' he he' hlogical h]
      | _ => exact absurd hkind (by simp [kindOf])
  | binaryOp op left right =>
      cases e' with
      | binaryOp op' left' right' =>
          simp only [shape, Rose.node.injEq, Entry.mk.injEq, true_and, Option.some.injEq,
            List.cons.injEq, and_true] at h
          simp only [usesLogical, Bool.or_eq_false_iff] at hlogical
          rw [binary_name_inj he.1 he'.1 hlogical.1 h.1,
            shape_inj left left' he.2.1 he'.2.1 hlogical.2.1 h.2.1,
            shape_inj right right' he.2.2 he'.2.2 hlogical.2.2 h.2.2]
      | _ => exact absurd hkind (by simp [kindOf])
  | unaryOp op operand =>
      cases e' with
      | unaryOp op' operand' =>
          simp only [shape, Rose.node.injEq, Entry.mk.injEq, true_and, Option.some.injEq,
            List.cons.injEq, and_true] at h
          rw [unary_name_inj he.1 he'.1 h.1, shape_inj operand operand' he.2 he'.2 hlogical h.2]
      | _ => exact absurd hkind (by simp [kindOf])
  | varDecl x value =>
      cases e' with
      | varDecl x' value' =>
          simp only [shape, Rose.node.injEq, Entry.mk.injEq, true_and, Option.some.injEq,
            List.cons.injEq, and_true] at h
          rw [h.1, shape_inj value value' he.2 he'.2 hlogical h.2]
      | _ => exact absurd hkind (by simp [kindOf])
  | varAssign x value =>
      cases e' with
      | varAssign x' value' =>
          simp only [shape, Rose.node.injEq, Entry.mk.injEq, true_and, Option.some.injEq,
            List.cons.injEq, and_true] at h
          rw [h.1, shape_inj value value' he.2 he'.2 hlogical h.2]
      | _ => exact absurd hkind (by simp [kindOf])
  | intLiteral n =>
      cases e' with
      | intLiteral n' =>
          simp only [shape, Rose.node.injEq, Entry.mk.injEq, true_and, Option.some.injEq,
            and_true] at h
          rw [toString_int_inj h]
      | _ => exact absurd hkind (by simp [kindOf])
  | ident x =>
      cases e' with
      | ident x' =>
          simp only [shape, Rose.node.injEq, Entry.mk.injEq, true_and, Option.some.injEq,
            and_true] at h
          rw [h]
      | _ => exact absurd hkind (by simp [kindOf])
  | funcCall x args =>
      cases e' with
      | funcCall x' args' =>
          simp only [shape, Rose.node.injEq, Entry.mk.injEq, true_and, Option.some.injEq] at h
          rw [h.1, shapes_inj args args' he.2 he'.2 hlogical h.2]
      | _ => exact absurd hkind (by simp [kindOf])
  | ifStmt c b els =>
      cases e' with
      | ifStmt c' b' els' =>
          -- two children or three
          cases els with
          | none =>
              cases els' with
              | none =>
                  simp only [shape, Rose.node.injEq, List.cons.injEq, true_and, and_true] at h
                  simp only [usesLogical, Bool.or_eq_false_iff] at hlogical
                  rw [shape_inj c c' he.1 he'.1 hlogical.1 h.1,
                    shape_inj b b' he.2 he'.2 hlogical.2 h.2]
              | some d' => exact absurd h (by simp [shape])
          | some d =>
              cases els' with
              | none => exact absurd h (by simp [shape])
              | some d' =>
                  simp only [shape, Rose.node.injEq, List.cons.injEq, true_and, and_true] at h
                  simp only [usesLogical, Bool.or_eq_false_iff] at hlogical
                  rw [shape_inj c c' he.1 he'.1 hlogical.1 h.1,
                    shape_inj b b' he.2.1 he'.2.1 hlogical.2.1 h.2.1,
                    shape_inj d d' he.2.2 he'.2.2 hlogical.2.2 h.2.2]
      | _ => exact absurd hkind (by simp [kindOf])

/-- Lists of trees are told apart as single trees are. -/
theorem shapes_inj (es es' : List ASTNode) (hes : AllDumpable es) (hes' : AllDumpable es')
    (hlogical : anyLogical es = false) (h : shapes es = shapes es') : es = es' := by
  cases es with
  | nil =>
      cases es' with
      | nil => rfl
      | cons e' es' => exact absurd h (by simp [shapes])
  | cons e es =>
      cases es' with
      | nil => exact absurd h (by simp [shapes])
      | cons e' es' =>
          simp only [shapes, List.cons.injEq] at h
          simp only [anyLogical, Bool.or_eq_false_iff] at hlogical
          rw [shape_inj e e' hes.1 hes'.1 hlogical.1 h.1,
            shapes_inj es es' hes.2 hes'.2 hlogical.2 h.2]

end

/-! ## §5. The text determines the tree. -/

/-- No operator's name breaks a line. -/
theorem tokenTypeName_oneLine (op : TokenType) : '\n' ∉ (tokenTypeName op).toList := by
  cases op <;> decide

/-- Nor does a number. -/
theorem toString_int_oneLine (n : Int) : '\n' ∉ (toString n).toList := by
  have hunsigned : ∀ k : Nat, '\n' ∉ (toString k).toList := by
    intro k hmem
    exact absurd ((toString_digits k).2.1 _ hmem) (by decide)
  cases n with
  | ofNat n => exact hunsigned n
  | negSucc n =>
      show '\n' ∉ ("-" ++ toString (n + 1)).toList
      rw [String.toList_append, List.mem_append, not_or]
      exact ⟨by decide, hunsigned _⟩

/-- A line with `arg` in parentheses. -/
theorem entry_oneLine_some {kind : Kind} {arg : String} (h : '\n' ∉ arg.toList) :
    OneLine (Entry.text ⟨kind, some arg⟩) := by
  apply entry_oneLine
  intro arg' harg'
  obtain rfl : arg = arg' := Option.some.inj harg'
  exact h

theorem entry_oneLine_none {kind : Kind} : OneLine (Entry.text ⟨kind, none⟩) :=
  entry_oneLine fun arg harg => absurd harg (by simp)

mutual

/-- Every line of a dumpable tree is one line. -/
theorem labels_oneLine (e : ASTNode) (he : Dumpable e) :
    ∀ a ∈ (shape e).labels, OneLine a.text := by
  cases e with
  | program program =>
      simp only [shape, Rose.labels, List.forall_mem_cons]
      exact ⟨entry_oneLine_none, labels_oneLine_all program he⟩
  | block block =>
      simp only [shape, Rose.labels, List.forall_mem_cons]
      exact ⟨entry_oneLine_none, labels_oneLine_all block he⟩
  | binaryOp op left right =>
      simp only [shape, Rose.labels, forestLabels, List.forall_mem_cons, List.append_nil,
        List.forall_mem_append]
      exact ⟨entry_oneLine_some (tokenTypeName_oneLine op), labels_oneLine left he.2.1,
        labels_oneLine right he.2.2⟩
  | unaryOp op operand =>
      simp only [shape, Rose.labels, forestLabels, List.forall_mem_cons, List.append_nil]
      exact ⟨entry_oneLine_some (tokenTypeName_oneLine op), labels_oneLine operand he.2⟩
  | varDecl x value =>
      simp only [shape, Rose.labels, forestLabels, List.forall_mem_cons, List.append_nil]
      exact ⟨entry_oneLine_some he.1, labels_oneLine value he.2⟩
  | varAssign x value =>
      simp only [shape, Rose.labels, forestLabels, List.forall_mem_cons, List.append_nil]
      exact ⟨entry_oneLine_some he.1, labels_oneLine value he.2⟩
  | intLiteral n =>
      simp only [shape, Rose.labels, forestLabels, List.forall_mem_singleton]
      exact entry_oneLine_some (toString_int_oneLine n)
  | ident x =>
      simp only [shape, Rose.labels, forestLabels, List.forall_mem_singleton]
      exact entry_oneLine_some he
  | funcCall x args =>
      simp only [shape, Rose.labels, List.forall_mem_cons]
      exact ⟨entry_oneLine_some he.1, labels_oneLine_all args he.2⟩
  | ifStmt c b els =>
      cases els with
      | none =>
          simp only [shape, Rose.labels, forestLabels, List.forall_mem_cons, List.append_nil,
            List.forall_mem_append]
          exact ⟨entry_oneLine_none, labels_oneLine c he.1, labels_oneLine b he.2⟩
      | some d =>
          simp only [shape, Rose.labels, forestLabels, List.forall_mem_cons, List.append_nil,
            List.forall_mem_append]
          exact ⟨entry_oneLine_none, labels_oneLine c he.1, labels_oneLine b he.2.1,
            labels_oneLine d he.2.2⟩

/-- So are those of a list. -/
theorem labels_oneLine_all (es : List ASTNode) (hes : AllDumpable es) :
    ∀ a ∈ forestLabels (shapes es), OneLine a.text := by
  cases es with
  | nil => exact fun a ha => absurd ha List.not_mem_nil
  | cons e es =>
      simp only [shapes, forestLabels, List.forall_mem_append]
      exact ⟨labels_oneLine e hes.1, labels_oneLine_all es hes.2⟩

end

/-- **The text of a tree without `&&` and `||` is the text of no other tree.** -/
theorem eq_of_printed {e e' : ASTNode} {indent : Nat} (he : Dumpable e) (he' : Dumpable e')
    (hlogical : usesLogical e = false) (h : printAST e indent = printAST e' indent) : e = e' := by
  have htext := congrArg String.toList h
  rw [printAST_eq, printAST_eq] at htext
  have hshape : shape e = shape e' :=
    outlineText_inj (by decide) entry_text_inj (labels_oneLine e he) (labels_oneLine e' he') htext
  exact shape_inj e e' he he' hlogical hshape

/-! ## §6. What the parser returns. -/

/-- The identifiers stand on one line, as those of the lexer do. -/
def OneLineIdents (tokens : List Token) : Prop :=
  ∀ t ∈ tokens, t.type = .IDENT → '\n' ∉ t.content.toList

theorem allDumpable_append {es es' : List ASTNode} :
    AllDumpable (es ++ es') ↔ AllDumpable es ∧ AllDumpable es' := by
  induction es with
  | nil => simp [AllDumpable]
  | cons e es ih => simp only [List.cons_append, AllDumpable, ih, and_assoc]

/-- What a goal has so far. -/
def Goal.Dumpable : Goal → Prop
  | .level _ => True
  | .loop _ left => Compiler.Dumpable left
  | .args x found => '\n' ∉ x.toList ∧ AllDumpable found

theorem levelOfOp_of_opsAt {n : Nat} {op : TokenType} (h : opsAt n op = true) :
    levelOfOp op ≤ 5 := by
  obtain ⟨-, m, rfl⟩ := opsAt_inv h
  match m, h with
  | 0, h | 1, h | 2, h | 3, h =>
      revert h
      cases op <;> decide

/-- Expressions that are read are dumpable. -/
theorem Reads.dumpable {g : Goal} {s s' : TokenSource} {e : ASTNode} (h : Reads g s e s')
    (hs : OneLineIdents s) (hg : g.Dumpable) : Dumpable e ∧ OneLineIdents s' := by
  unfold OneLineIdents at hs ⊢
  -- along the derivation; what is left has no other tokens
  induction h with
  | number => exact ⟨trivial, fun t ht => hs t (List.mem_cons_of_mem _ ht)⟩
  | call type hcolon args ih =>
      rw [List.forall_mem_cons, List.forall_mem_cons] at hs
      exact ih hs.2.2 ⟨hs.1 type, trivial⟩
  | assign type heq value ih =>
      rw [List.forall_mem_cons, List.forall_mem_cons] at hs
      obtain ⟨hvalue, hrest⟩ := ih hs.2.2 trivial
      exact ⟨⟨hs.1 type, hvalue⟩, hrest⟩
  | ident type =>
      rw [List.forall_mem_cons] at hs
      exact ⟨hs.1 type, hs.2⟩
  | paren left inner right ih =>
      rw [List.forall_mem_cons] at hs
      obtain ⟨hinner, hrest⟩ := ih hs.2 trivial
      rw [List.forall_mem_cons] at hrest
      exact ⟨hinner, hrest.2⟩
  | unary type operand ih =>
      rw [List.forall_mem_cons] at hs
      obtain ⟨hoperand, hrest⟩ := ih hs.2 trivial
      exact ⟨⟨type, hoperand⟩, hrest⟩
  | primary _ _ ih => exact ih hs trivial
  | binary _ _ ih₁ ih₂ =>
      obtain ⟨hleft, hrest⟩ := ih₁ hs trivial
      exact ih₂ hrest hleft
  | loopEnd => exact ⟨hg, hs⟩
  | loopStep op _ _ ih₁ ih₂ =>
      rw [List.forall_mem_cons] at hs
      obtain ⟨hright, hrest⟩ := ih₁ hs.2 trivial
      exact ih₂ hrest ⟨levelOfOp_of_opsAt op, hg, hright⟩
  | argsEnd =>
      rw [List.forall_mem_cons] at hs
      exact ⟨hg, hs.2⟩
  | argsComma _ _ _ _ ih₁ ih₂ =>
      obtain ⟨harg, hrest⟩ := ih₁ hs trivial
      rw [List.forall_mem_cons] at hrest
      exact ih₂ hrest.2 ⟨hg.1, allDumpable_append.2 ⟨hg.2, harg, trivial⟩⟩
  | argsLast _ _ _ ih =>
      obtain ⟨harg, hrest⟩ := ih hs trivial
      rw [List.forall_mem_cons] at hrest
      exact ⟨⟨hg.1, allDumpable_append.2 ⟨hg.2, harg, trivial⟩⟩, hrest.2⟩

/-- The statements a goal has so far. -/
def StmtGoal.Dumpable : StmtGoal → Prop
  | .stmt => True
  | .block stmts => AllDumpable stmts
  | .program stmts => AllDumpable stmts

/-- So are statements. -/
theorem ReadsStmt.dumpable {g : StmtGoal} {s s' : TokenSource} {e : ASTNode} {events : List Event}
    (h : ReadsStmt g s e s' events) (hs : OneLineIdents s) (hg : g.Dumpable) :
    Dumpable e ∧ OneLineIdents s' := by
  -- what is read takes its identifiers from the tokens
  unfold OneLineIdents at hs ⊢
  induction h with
  | varDecl hv hx heq value =>
      simp only [List.forall_mem_cons] at hs
      obtain ⟨hvalue, hrest⟩ := value.dumpable hs.2.2.2 trivial
      exact ⟨⟨hs.2.1 hx, hvalue⟩, hrest⟩
  | varDeclTyped hv hx harrow heq value =>
      simp only [List.forall_mem_cons] at hs
      obtain ⟨hvalue, hrest⟩ := value.dumpable hs.2.2.2.2.2 trivial
      exact ⟨⟨hs.2.1 hx, hvalue⟩, hrest⟩
  | primary _ inner => exact inner.dumpable hs trivial
  | block _ _ ih =>
      rw [List.forall_mem_cons] at hs
      exact ih hs.2 trivial
  | ifThen hi hp condition hr hl _ _ ih =>
      simp only [List.forall_mem_cons] at hs
      obtain ⟨hcondition, hrest⟩ := condition.dumpable hs.2.2 trivial
      unfold OneLineIdents at hrest
      simp only [List.forall_mem_cons] at hrest
      obtain ⟨hblock, hrest'⟩ := ih hrest.2.2 trivial
      exact ⟨⟨hcondition, hblock⟩, hrest'⟩
  | ifElse hi hp condition hr hl _ hels hl' _ ih₁ ih₂ =>
      simp only [List.forall_mem_cons] at hs
      obtain ⟨hcondition, hrest⟩ := condition.dumpable hs.2.2 trivial
      unfold OneLineIdents at hrest
      simp only [List.forall_mem_cons] at hrest
      obtain ⟨hblock, hrest'⟩ := ih₁ hrest.2.2 trivial
      simp only [List.forall_mem_cons] at hrest'
      obtain ⟨hblock', hrest''⟩ := ih₂ hrest'.2.2 trivial
      exact ⟨⟨hcondition, hblock, hblock'⟩, hrest''⟩
  | blockEnd =>
      rw [List.forall_mem_cons] at hs
      exact ⟨hg, hs.2⟩
  | blockStmt _ _ _ ih₁ ih₂ | programStmt _ _ _ ih₁ ih₂ =>
      obtain ⟨hstmt, hrest⟩ := ih₁ hs trivial
      exact ih₂ hrest (allDumpable_append.2 ⟨hg, hstmt, trivial⟩)
  | blockSkip _ _ _ _ ih | programSkip _ _ ih =>
      rw [List.forall_mem_cons] at hs
      exact ih hs.2 hg
  | programEnd => exact ⟨hg, hs⟩

/-- `e` is a tree `parseProgram` returns. -/
def Parsed (e : ASTNode) : Prop := ∃ tokens, OneLineIdents tokens ∧ parseProgram tokens = .ok e

/-- **Whatever the parser returns is dumpable.** -/
theorem Parsed.dumpable {e : ASTNode} (h : Parsed e) : Dumpable e := by
  obtain ⟨tokens, hidents, hparse⟩ := h
  obtain ⟨events, hread⟩ := parseProgram_eq_ok_iff.1 hparse
  exact (hread.dumpable hidents trivial).1

end SproutLang.Compiler
