import WriterAgent.Calc.SpreadsheetImport.Translate
import WriterAgent.Foundations.PythonParser

/-!
# Operands and their neighbours

When the emitted text of a formula is read back with Python's precedence, an
operand of `MOD`, `QUOTIENT` or `POWER` can be captured by an operator next to
it.
-/

namespace WriterAgent.Calc.SpreadsheetImport

open PyText PyGrammar List

def InfixOp.binOp : InfixOp → BinOp
  | .add => .add
  | .sub => .sub
  | .mul => .mul
  | .div => .div
  | .pow => .pow
  | .eq => .eq
  | .ne => .ne
  | .lt => .lt
  | .gt => .gt
  | .le => .le
  | .ge => .ge

def BinaryFunction.binOp : BinaryFunction → BinOp
  | .mod => .mod
  | .power => .pow
  | .quotient => .floorDiv

/-- A number is a literal; one too large for a double becomes a name. -/
def operandTree (value : ℚ≥0) : Tree :=
  match Binary64.ofRat value with
  | .finite _ => .number (emitOperand value)
  | _ => .name (emitOperand value)

/-- `data`, or its item at the position of the canonical range. -/
def refTree (ranges : List Text) (address : Text) : Tree :=
  if ranges.length = 1 then .name "data".toList
  else .item "data".toList (.number (natText (ranges.idxOf (canonicalRange address))))

mutual

/-- Every node's operator applied to the trees of its own arguments. -/
def exprTree (ranges : List Text) : FormulaNode → Tree
  | .number value => operandTree value
  | .range address => refTree ranges address
  | .signed .minus right => .unary .neg (exprTree ranges right)
  | .signed .plus right => exprTree ranges right
  | .infixOp op left right => .binary op.binOp (exprTree ranges left) (exprTree ranges right)
  | .binaryFunction name first second =>
    .binary name.binOp (exprTree ranges first) (exprTree ranges second)
  | .unaryFunction .abs arg => .call "np.abs".toList (.cons (exprTree ranges arg) .nil)
  | .unaryFunction .int arg => .call "np.floor".toList (.cons (exprTree ranges arg) .nil)
  | .unaryFunction .not arg => .unary .not (exprTree ranges arg)
  | .ifFunction test yes no =>
    .ifElse (exprTree ranges yes) (exprTree ranges test) (exprTree ranges no)
  | .logicalFunction .and args => .call "all".toList (.cons (.list (exprTrees ranges args)) .nil)
  | .logicalFunction .or args => .call "any".toList (.cons (.list (exprTrees ranges args)) .nil)

def exprTrees (ranges : List Text) : FormulaNodes → Trees
  | .nil => .nil
  | .cons head rest => .cons (exprTree ranges head) (exprTrees ranges rest)

end

/-- The level of the outermost operator that the emitted text leaves without
parentheses. -/
def bareLevel : FormulaNode → Nat
  | .signed .plus right => bareLevel right
  | .binaryFunction name _ _ => name.binOp.level
  | _ => 8

mutual

/-- No operand of an operator is a bare function of a looser level. -/
def Grouped : FormulaNode → Prop
  | .number _ => True
  | .range _ => True
  | .signed .minus right => UnOp.neg.level ≤ bareLevel right ∧ Grouped right
  | .signed .plus right => Grouped right
  | .infixOp op left right =>
    (op.binOp.leftLevel ≤ bareLevel left ∧ Grouped left) ∧
      (op.binOp.rightLevel ≤ bareLevel right ∧ Grouped right)
  | .binaryFunction name first second =>
    (name.binOp.leftLevel ≤ bareLevel first ∧ Grouped first) ∧
      (name.binOp.rightLevel ≤ bareLevel second ∧ Grouped second)
  | .unaryFunction _ arg => Grouped arg
  | .ifFunction test yes no => Grouped yes ∧ Grouped test ∧ Grouped no
  | .logicalFunction _ args => GroupedAll args

def GroupedAll : FormulaNodes → Prop
  | .nil => True
  | .cons head rest => Grouped head ∧ GroupedAll rest

end

def operandToken (value : ℚ≥0) : Token :=
  match Binary64.ofRat value with
  | .finite _ => .number (emitOperand value)
  | _ => .name (emitOperand value)

def refTokens (ranges : List Text) (address : Text) : List Token :=
  if ranges.length = 1 then [.name "data".toList]
  else .name "data".toList :: .lbracket ::
    ([.number (natText (ranges.idxOf (canonicalRange address)))] ++ [.rbracket])

mutual

def exprTokens (ranges : List Text) : FormulaNode → List Token
  | .number value => [operandToken value]
  | .range address => refTokens ranges address
  | .signed .minus right => .lparen :: (UnOp.neg.token :: exprTokens ranges right ++ [.rparen])
  | .signed .plus right => exprTokens ranges right
  | .infixOp op left right =>
    .lparen :: ((exprTokens ranges left ++ .op op.binOp :: exprTokens ranges right) ++ [.rparen])
  | .binaryFunction name first second =>
    exprTokens ranges first ++ .op name.binOp :: exprTokens ranges second
  | .unaryFunction .abs arg =>
    .name "np.abs".toList :: .lparen :: (exprTokens ranges arg ++ [.rparen])
  | .unaryFunction .int arg =>
    .name "np.floor".toList :: .lparen :: (exprTokens ranges arg ++ [.rparen])
  | .unaryFunction .not arg => .lparen :: (UnOp.not.token :: exprTokens ranges arg ++ [.rparen])
  | .ifFunction test yes no =>
    .lparen :: ((exprTokens ranges yes ++ .kwIf :: (exprTokens ranges test ++
      .kwElse :: exprTokens ranges no)) ++ [.rparen])
  | .logicalFunction .and args =>
    .name "all".toList :: .lparen ::
      ((.lbracket :: (exprsTokens ranges args ++ [.rbracket])) ++ [.rparen])
  | .logicalFunction .or args =>
    .name "any".toList :: .lparen ::
      ((.lbracket :: (exprsTokens ranges args ++ [.rbracket])) ++ [.rparen])

def exprsTokens (ranges : List Text) : FormulaNodes → List Token
  | .nil => []
  | .cons head .nil => exprTokens ranges head
  | .cons head (.cons next rest) =>
    exprTokens ranges head ++ .comma :: exprsTokens ranges (.cons next rest)

end

theorem isWord_operandToken (value : ℚ≥0) : (operandToken value).isWord = true := by
  unfold operandToken
  split
  · exact Token.isWord_number _
  · exact Token.isWord_name _

variable {level : Nat}

section Shape

variable (ranges : List Text)

theorem refTokens_nested (address : Text) : Nested (refTokens ranges address) := by
  unfold refTokens
  split
  · exact Nested.word (Token.isWord_name _)
  · apply Nested.cons (Token.isWord_name _)
    apply @Nested.cons .lbracket rfl
    exact (Nested.word (Token.isWord_number _)).append (@Nested.word .rbracket rfl)

mutual

theorem exprTokens_nested : ∀ node, Nested (exprTokens ranges node)
  | .number value => Nested.word (isWord_operandToken value)
  | .range address => refTokens_nested ranges address
  | .signed .minus right => (Nested.cons UnOp.neg.isWord_token (exprTokens_nested right)).paren
  | .signed .plus right => exprTokens_nested right
  | .infixOp op left right =>
    ((exprTokens_nested left).append
      (Nested.cons (Token.isWord_op _) (exprTokens_nested right))).paren
  | .binaryFunction name first second =>
    (exprTokens_nested first).append (Nested.cons (Token.isWord_op _) (exprTokens_nested second))
  | .unaryFunction .abs arg | .unaryFunction .int arg =>
    Nested.cons (Token.isWord_name _) (exprTokens_nested arg).paren
  | .unaryFunction .not arg => (Nested.cons UnOp.not.isWord_token (exprTokens_nested arg)).paren
  | .ifFunction test yes no => by
    apply Nested.paren
    apply (exprTokens_nested yes).append
    apply @Nested.cons .kwIf rfl
    apply (exprTokens_nested test).append
    exact @Nested.cons .kwElse rfl _ (exprTokens_nested no)
  | .logicalFunction .and args | .logicalFunction .or args => by
    apply Nested.cons (Token.isWord_name _)
    apply Nested.paren
    apply @Nested.cons .lbracket rfl
    exact (exprsTokens_nested args).append (@Nested.word .rbracket rfl)

theorem exprsTokens_nested : ∀ nodes, Nested (exprsTokens ranges nodes)
  | .nil => Nested.nil
  | .cons head .nil => exprTokens_nested head
  | .cons head (.cons next rest) =>
    (exprTokens_nested head).append
      (@Nested.cons .comma rfl _ (exprsTokens_nested (.cons next rest)))

end

theorem size_operandTree (value : ℚ≥0) : (operandTree value).size = 1 := by
  unfold operandTree
  split
  · rfl
  · rfl

theorem words_refTokens (address : Text) :
    words (refTokens ranges address) = (refTree ranges address).size := by
  unfold refTokens refTree
  split
  · simp [Tree.size]
  · simp [Tree.size, Token.isWord]

mutual

theorem words_exprTokens : ∀ node, words (exprTokens ranges node) = (exprTree ranges node).size
  | .number value => by
    simp [exprTokens, exprTree, size_operandTree, isWord_operandToken]
  | .range address => words_refTokens ranges address
  | .signed .minus right => by
    simp [exprTokens, exprTree, Tree.size, words_exprTokens right, Nat.add_comm]
  | .signed .plus right => by
    simp only [exprTokens, exprTree]
    exact words_exprTokens right
  | .infixOp op left right => by
    simp [exprTokens, exprTree, Tree.size, words_exprTokens left, words_exprTokens right]
    omega
  | .binaryFunction name first second => by
    simp [exprTokens, exprTree, Tree.size, words_exprTokens first, words_exprTokens second]
    omega
  | .unaryFunction .abs arg | .unaryFunction .int arg => by
    simp [exprTokens, exprTree, Tree.size, Trees.size, words_exprTokens arg, Nat.add_comm]
  | .unaryFunction .not arg => by
    simp [exprTokens, exprTree, Tree.size, words_exprTokens arg, Nat.add_comm]
  | .ifFunction test yes no => by
    simp [exprTokens, exprTree, Tree.size, Token.isWord,
      words_exprTokens test, words_exprTokens yes, words_exprTokens no]
    omega
  | .logicalFunction .and args | .logicalFunction .or args => by
    simp [exprTokens, exprTree, Tree.size, Trees.size, Token.isWord, words_exprsTokens args]
    omega

theorem words_exprsTokens : ∀ nodes,
    words (exprsTokens ranges nodes) = (exprTrees ranges nodes).size
  | .nil => rfl
  | .cons head .nil => by
    simp [exprsTokens, exprTrees, Trees.size, words_exprTokens head]
  | .cons head (.cons next rest) => by
    have later := words_exprsTokens (.cons next rest)
    simp only [exprTrees] at later
    simp [exprsTokens, exprTrees, Trees.size, Token.isWord, words_exprTokens head, later]
    omega

end

theorem le_bareLevel : ∀ node, 5 ≤ bareLevel node
  | .number _ => show 5 ≤ 8 by decide
  | .range _ => show 5 ≤ 8 by decide
  | .signed .minus _ => show 5 ≤ 8 by decide
  | .signed .plus right => le_bareLevel right
  | .infixOp _ _ _ => show 5 ≤ 8 by decide
  | .binaryFunction .mod _ _ => show 5 ≤ 5 by decide
  | .binaryFunction .power _ _ => show 5 ≤ 7 by decide
  | .binaryFunction .quotient _ _ => show 5 ≤ 5 by decide
  | .unaryFunction _ _ => show 5 ≤ 8 by decide
  | .ifFunction _ _ _ => show 5 ≤ 8 by decide
  | .logicalFunction _ _ => show 5 ≤ 8 by decide

theorem derives_operand (bound : level ≤ 8) (value : ℚ≥0) :
    Derives level [operandToken value] (operandTree value) := by
  unfold operandToken operandTree
  split
  · exact derives_number bound _
  · exact derives_name bound _

theorem derives_ref (bound : level ≤ 8) (address : Text) :
    Derives level (refTokens ranges address) (refTree ranges address) := by
  unfold refTokens refTree
  split
  · exact derives_name bound _
  · exact (derives_item bound).mpr (derives_number (Nat.zero_le 8) _)

theorem derives_between {op : BinOp} {left right : FormulaNode} :
    Derives level (exprTokens ranges left ++ .op op :: exprTokens ranges right)
        (.binary op (exprTree ranges left) (exprTree ranges right)) ↔
      level ≤ op.level ∧ Derives op.leftLevel (exprTokens ranges left) (exprTree ranges left) ∧
        Derives op.rightLevel (exprTokens ranges right) (exprTree ranges right) :=
  derives_binary (exprTokens_nested ranges left).balanced (words_exprTokens ranges left)

theorem leftLevel_le (op : BinOp) : op.leftLevel ≤ 8 := by
  cases op <;> decide

theorem rightLevel_le (op : BinOp) : op.rightLevel ≤ 8 := by
  cases op <;> decide

mutual

theorem derives_exprTokens_iff : ∀ {level : Nat}, level ≤ 8 → ∀ node,
    Derives level (exprTokens ranges node) (exprTree ranges node) ↔
      level ≤ bareLevel node ∧ Grouped node
  | level, bound, .number value => by
    simp only [exprTokens, exprTree, bareLevel, Grouped, and_true]
    exact ⟨fun _ => bound, fun _ => derives_operand bound value⟩
  | level, bound, .range address => by
    simp only [exprTokens, exprTree, bareLevel, Grouped, and_true]
    exact ⟨fun _ => bound, fun _ => derives_ref ranges bound address⟩
  | level, bound, .signed .minus right => by
    have inner := Nested.cons UnOp.neg.isWord_token (exprTokens_nested ranges right)
    simp only [exprTokens, exprTree, bareLevel, Grouped]
    rw [derives_paren bound inner, Parses, derives_unary,
      derives_exprTokens_iff (show UnOp.neg.level ≤ 8 by decide) right]
    exact ⟨fun both => ⟨bound, both.2⟩, fun both => ⟨Nat.zero_le _, both.2⟩⟩
  | level, bound, .signed .plus right => by
    simp only [exprTokens, exprTree, bareLevel, Grouped]
    exact derives_exprTokens_iff bound right
  | level, bound, .infixOp op left right => by
    have inner := (exprTokens_nested ranges left).append
      (Nested.cons (Token.isWord_op op.binOp) (exprTokens_nested ranges right))
    simp only [exprTokens, exprTree, bareLevel, Grouped]
    rw [derives_paren bound inner, Parses, derives_between,
      derives_exprTokens_iff (leftLevel_le _) left,
      derives_exprTokens_iff (rightLevel_le _) right]
    exact ⟨fun both => ⟨bound, both.2⟩, fun both => ⟨Nat.zero_le _, both.2⟩⟩
  | level, bound, .binaryFunction name first second => by
    simp only [exprTokens, exprTree, bareLevel, Grouped]
    rw [derives_between, derives_exprTokens_iff (leftLevel_le _) first,
      derives_exprTokens_iff (rightLevel_le _) second]
  | level, bound, .unaryFunction .abs arg
  | level, bound, .unaryFunction .int arg => by
    simp only [exprTokens, exprTree, bareLevel, Grouped]
    rw [derives_call bound, buildsItems_one, Parses, derives_exprTokens_iff (Nat.zero_le 8) arg]
    exact ⟨fun both => ⟨bound, both.2⟩, fun both => ⟨Nat.zero_le _, both.2⟩⟩
  | level, bound, .unaryFunction .not arg => by
    have inner := Nested.cons UnOp.not.isWord_token (exprTokens_nested ranges arg)
    simp only [exprTokens, exprTree, bareLevel, Grouped]
    rw [derives_paren bound inner, Parses, derives_unary,
      derives_exprTokens_iff (show UnOp.not.level ≤ 8 by decide) arg]
    have tight : UnOp.not.level ≤ bareLevel arg :=
      Nat.le_trans (by decide) (le_bareLevel arg)
    exact ⟨fun both => ⟨bound, both.2.2⟩, fun both => ⟨Nat.zero_le _, tight, both.2⟩⟩
  | level, bound, .ifFunction test yes no => by
    have inner := (exprTokens_nested ranges yes).append
      (@Nested.cons .kwIf rfl _ ((exprTokens_nested ranges test).append
        (@Nested.cons .kwElse rfl _ (exprTokens_nested ranges no))))
    have tight : ∀ node, 1 ≤ bareLevel node := fun node =>
      Nat.le_trans (by decide) (le_bareLevel node)
    simp only [exprTokens, exprTree, bareLevel, Grouped]
    rw [derives_paren bound inner, Parses, derives_ifElse (exprTokens_nested ranges yes).balanced
        (words_exprTokens ranges yes) (words_exprTokens ranges test),
      derives_exprTokens_iff (by decide) yes,
      derives_exprTokens_iff (by decide) test, Parses,
      derives_exprTokens_iff (Nat.zero_le 8) no]
    constructor
    · rintro ⟨_, ⟨_, groupedYes⟩, ⟨_, groupedTest⟩, ⟨_, groupedNo⟩⟩
      exact ⟨bound, groupedYes, groupedTest, groupedNo⟩
    · rintro ⟨_, groupedYes, groupedTest, groupedNo⟩
      exact ⟨rfl, ⟨tight yes, groupedYes⟩, ⟨tight test, groupedTest⟩, ⟨Nat.zero_le _, groupedNo⟩⟩
  | level, bound, .logicalFunction .and args
  | level, bound, .logicalFunction .or args => by
    simp only [exprTokens, exprTree, bareLevel, Grouped]
    rw [derives_call bound, buildsItems_one, Parses,
      derives_list (Nat.zero_le 8), buildsItems_exprsTokens_iff args]
    exact ⟨fun both => ⟨bound, both⟩, fun both => both.2⟩

theorem buildsItems_exprsTokens_iff : ∀ nodes,
    BuildsItems (exprsTokens ranges nodes) (exprTrees ranges nodes) ↔ GroupedAll nodes
  | .nil => by
    simp only [exprsTokens, exprTrees, GroupedAll, iff_true]
    exact .nil
  | .cons head .nil => by
    simp only [exprsTokens, exprTrees, GroupedAll, and_true]
    rw [buildsItems_one, Parses, derives_exprTokens_iff (Nat.zero_le 8) head]
    exact ⟨fun both => both.2, fun grouped => ⟨Nat.zero_le _, grouped⟩⟩
  | .cons head (.cons next rest) => by
    have later := buildsItems_exprsTokens_iff (.cons next rest)
    simp only [exprTrees, GroupedAll] at later
    simp only [exprsTokens, exprTrees, GroupedAll]
    rw [buildsItems_cons (words_exprTokens ranges head), later, Parses,
      derives_exprTokens_iff (Nat.zero_le 8) head]
    exact ⟨fun both => ⟨both.1.2, both.2⟩, fun both => ⟨⟨Nat.zero_le _, both.1⟩, both.2⟩⟩

end

omit ranges in
theorem lexesBefore_infixOp (op : InfixOp) : LexesBefore op.text [.op op.binOp] := by
  cases op with
  | add | sub | mul | div | lt | gt => exact lexesBefore_spaced [] rfl fun _ => rfl
  | pow => exact lexesBefore_spaced ['*'] rfl fun _ => rfl
  | eq | ne | le | ge => exact lexesBefore_spaced ['='] rfl fun _ => rfl

omit ranges in
theorem lexes_operand (value : ℚ≥0) : Lexes (emitOperand value) [operandToken value] := by
  unfold operandToken emitOperand
  cases Binary64.ofRat value with
  | nan =>
    exact @lexes_word 'n' "an".toList (.name "nan".toList) (by decide) (by decide) (by decide)
  | infinite negative =>
    exact @lexes_word 'i' "nf".toList (.name "inf".toList) (by decide) (by decide) (by decide)
  | finite q =>
    simp only
    split
    · obtain ⟨number, text⟩ := exists_numberText_natText ⌊q⌋.toNat
      rw [← text]
      exact lexes_number number
    · obtain ⟨number, text⟩ := Binary64.exists_numberText_repr q
      rw [← text]
      exact lexes_number number

theorem lexes_ref (address : Text) : Lexes (refExpr ranges address) (refTokens ranges address) := by
  unfold refExpr refTokens
  split
  · exact @lexes_word 'd' "ata".toList (.name "data".toList) (by decide) (by decide) (by decide)
  · obtain ⟨number, text⟩ := exists_numberText_natText (ranges.idxOf (canonicalRange address))
    have opened : LexesBefore "data[".toList [.name "data".toList, .lbracket] :=
      lexesBefore_word "ata".toList (by decide) (by decide) (by decide)
        lexesBefore_lbracket rfl (cons_ne_nil _ _)
    have index := (lexes_number number).append lexesBefore_rbracket rfl (cons_ne_nil _ _)
    rw [← text]
    exact opened.append index.lexes

omit ranges in
theorem endsWord_infixOp (op : InfixOp) : EndsWord op.text ∧ op.text ≠ [] := by
  cases op with
  | _ => exact ⟨rfl, cons_ne_nil _ _⟩

mutual

theorem lexes_emitExpr : ∀ node, Lexes (emitExpr ranges node) (exprTokens ranges node)
  | .number value => lexes_operand value
  | .range address => lexes_ref ranges address
  | .signed .minus right =>
    (lexes_emitExpr right).parenthesised (lexesBefore_lparen.trans lexesBefore_minus)
  | .signed .plus right => lexes_emitExpr right
  | .infixOp op left right => by
    obtain ⟨ends, nonempty⟩ := endsWord_infixOp op
    have operator := (lexes_emitExpr left).append (lexesBefore_infixOp op)
      ends nonempty
    have inner := (operator.append (lexes_emitExpr right)).parenthesised lexesBefore_lparen
    simpa [exprTokens, emitExpr] using inner
  | .binaryFunction .mod first second => by
    have operator := (lexes_emitExpr first).append
      (@lexesBefore_spaced '%' [] (.op .mod) rfl fun _ => rfl) rfl
      (cons_ne_nil _ _)
    have both := operator.append (lexes_emitExpr second)
    simpa [exprTokens, emitExpr, BinaryFunction.emit, BinaryFunction.binOp] using both
  | .binaryFunction .power first second => by
    have operator := (lexes_emitExpr first).append
      (@lexesBefore_spaced '*' ['*'] (.op .pow) rfl fun _ => rfl) rfl
      (cons_ne_nil _ _)
    have both := operator.append (lexes_emitExpr second)
    simpa [exprTokens, emitExpr, BinaryFunction.emit, BinaryFunction.binOp] using both
  | .binaryFunction .quotient first second => by
    have operator := (lexes_emitExpr first).append
      (@lexesBefore_spaced '/' ['/'] (.op .floorDiv) rfl fun _ => rfl) rfl
      (cons_ne_nil _ _)
    have both := operator.append (lexes_emitExpr second)
    simpa [exprTokens, emitExpr, BinaryFunction.emit, BinaryFunction.binOp] using both
  | .unaryFunction .abs arg =>
    (lexes_emitExpr arg).parenthesised (lexesBefore_call "p.abs".toList
      (by decide) (by decide) (by decide))
  | .unaryFunction .int arg =>
    (lexes_emitExpr arg).parenthesised (lexesBefore_call "p.floor".toList
      (by decide) (by decide) (by decide))
  | .unaryFunction .not arg =>
    (lexes_emitExpr arg).parenthesised (lexesBefore_lparen.trans
      (lexesBefore_word "ot".toList (by decide) (by decide) (by decide)
        lexesBefore_space rfl (cons_ne_nil _ _)))
  | .ifFunction test yes no => by
    have keywordIf : LexesBefore " if ".toList [.kwIf] :=
      lexesBefore_keyword "f".toList (by decide) (by decide) (by decide)
    have keywordElse : LexesBefore " else ".toList [.kwElse] :=
      lexesBefore_keyword "lse".toList (by decide) (by decide) (by decide)
    have body := (lexes_emitExpr yes).append keywordIf rfl (cons_ne_nil _ _)
    have tested := (lexes_emitExpr test).append keywordElse rfl (cons_ne_nil _ _)
    have inner := ((body.trans tested).append (lexes_emitExpr no)).parenthesised lexesBefore_lparen
    simpa [exprTokens, emitExpr, emitIf] using inner
  | .logicalFunction .and args => by
    have opened := @lexesBefore_call 'a' "ll".toList (by decide) (by decide) (by decide)
    have inner := opened.bracketed (lexes_emitExprs args)
    simpa [exprTokens, emitExpr, LogicalFunction.emit] using inner
  | .logicalFunction .or args => by
    have opened := @lexesBefore_call 'a' "ny".toList (by decide) (by decide) (by decide)
    have inner := opened.bracketed (lexes_emitExprs args)
    simpa [exprTokens, emitExpr, LogicalFunction.emit] using inner

theorem lexes_emitExprs : ∀ nodes, Lexes (emitExprs ranges nodes) (exprsTokens ranges nodes)
  | .nil => by
    intro rest _
    simp [emitExprs, exprsTokens]
  | .cons head .nil => lexes_emitExpr head
  | .cons head (.cons next rest) => by
    have comma := (lexes_emitExpr head).append lexesBefore_comma rfl (cons_ne_nil _ _)
    have both := comma.append (lexes_emitExprs (.cons next rest))
    simpa [exprsTokens, emitExprs] using both

end

end Shape

/-- `=2*MOD(7;4)`. -/
def twoTimesMod : FormulaNode :=
  .infixOp .mul (.number 2) (.binaryFunction .mod (.number 7) (.number 4))

end WriterAgent.Calc.SpreadsheetImport
