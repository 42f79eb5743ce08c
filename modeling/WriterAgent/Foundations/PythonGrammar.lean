import WriterAgent.Foundations.Text

/-!
# The grammar of Python expressions

Tokens and trees of the part of Python's expression grammar that generated
formula code uses, with the precedence levels of the language reference.  The
grammar is a relation between token lists and trees; parentheses leave no
trace in a tree.
-/

namespace PyGrammar

open PyText List

/-- Binary operators and comparisons. -/
inductive BinOp where
  | add | sub | mul | div | floorDiv | mod | pow
  | eq | ne | lt | gt | le | ge
deriving DecidableEq, Repr

inductive UnOp where
  | neg | pos | not
deriving DecidableEq, Repr

/-- A dotted name is one token. -/
inductive Token where
  | name (text : Text)
  | number (text : Text)
  | op (op : BinOp)
  | lparen | rparen | lbracket | rbracket | comma
  | kwIf | kwElse | kwNot
deriving DecidableEq, Repr

mutual

inductive Tree where
  | name (text : Text)
  | number (text : Text)
  | call (function : Text) (args : Trees)
  | item (object : Text) (index : Tree)
  | list (items : Trees)
  | unary (op : UnOp) (operand : Tree)
  | binary (op : BinOp) (left right : Tree)
  | ifElse (body test orElse : Tree)

inductive Trees where
  | nil
  | cons (head : Tree) (rest : Trees)

end

deriving instance DecidableEq for Tree, Trees
deriving instance Repr for Tree, Trees

/-! ## Precedence

Levels from loose to tight: 0 conditional expression, 1 disjunction, 2 `not`,
3 comparison, 4 sum, 5 term, 6 factor, 7 power, 8 primary. -/

/-- The level of an operator's result.  Comparisons are not chained here. -/
def BinOp.level : BinOp → Nat
  | .add | .sub => 4
  | .mul | .div | .floorDiv | .mod => 5
  | .pow => 7
  | .eq | .ne | .lt | .gt | .le | .ge => 3

def BinOp.leftLevel : BinOp → Nat
  | .add | .sub => 4
  | .mul | .div | .floorDiv | .mod => 5
  | .pow => 8
  | .eq | .ne | .lt | .gt | .le | .ge => 4

def BinOp.rightLevel : BinOp → Nat
  | .add | .sub => 5
  | .mul | .div | .floorDiv | .mod => 6
  | .pow => 6
  | .eq | .ne | .lt | .gt | .le | .ge => 4

/-- A sign is a factor of a factor, and `not` an inversion of an inversion. -/
def UnOp.level : UnOp → Nat
  | .neg | .pos => 6
  | .not => 2

def UnOp.token : UnOp → Token
  | .neg => .op .sub
  | .pos => .op .add
  | .not => .kwNot

mutual

/-- The tokens spell the tree, whose outermost construct has the level. -/
inductive Builds : Nat → List Token → Tree → Prop where
  | name (text : Text) : Builds 8 [.name text] (.name text)
  | number (text : Text) : Builds 8 [.number text] (.number text)
  | paren {level : Nat} {tokens : List Token} {tree : Tree} : Builds level tokens tree →
      Builds 8 (.lparen :: (tokens ++ [.rparen])) tree
  | call (function : Text) {tokens : List Token} {args : Trees} : BuildsItems tokens args →
      Builds 8 (.name function :: .lparen :: (tokens ++ [.rparen])) (.call function args)
  | item (object : Text) {level : Nat} {tokens : List Token} {index : Tree} :
      Builds level tokens index →
      Builds 8 (.name object :: .lbracket :: (tokens ++ [.rbracket])) (.item object index)
  | list {tokens : List Token} {items : Trees} : BuildsItems tokens items →
      Builds 8 (.lbracket :: (tokens ++ [.rbracket])) (.list items)
  | unary (op : UnOp) {level : Nat} {tokens : List Token} {operand : Tree} :
      Builds level tokens operand → op.level ≤ level →
      Builds op.level (op.token :: tokens) (.unary op operand)
  | binary (op : BinOp) {leftLevel rightLevel : Nat}
      {leftTokens rightTokens : List Token} {left right : Tree} :
      Builds leftLevel leftTokens left → op.leftLevel ≤ leftLevel →
      Builds rightLevel rightTokens right → op.rightLevel ≤ rightLevel →
      Builds op.level (leftTokens ++ .op op :: rightTokens) (.binary op left right)
  | ifElse {bodyLevel testLevel orElseLevel : Nat}
      {bodyTokens testTokens orElseTokens : List Token}
      {body test orElse : Tree} :
      Builds bodyLevel bodyTokens body → 1 ≤ bodyLevel →
      Builds testLevel testTokens test → 1 ≤ testLevel →
      Builds orElseLevel orElseTokens orElse →
      Builds 0 (bodyTokens ++ .kwIf :: (testTokens ++ .kwElse :: orElseTokens))
        (.ifElse body test orElse)

/-- Expressions between commas. -/
inductive BuildsItems : List Token → Trees → Prop where
  | nil : BuildsItems [] .nil
  | one {level : Nat} {tokens : List Token} {tree : Tree} :
      Builds level tokens tree → BuildsItems tokens (.cons tree .nil)
  | cons {level : Nat} {tokens restTokens : List Token} {tree next : Tree}
      {rest : Trees} :
      Builds level tokens tree → BuildsItems restTokens (.cons next rest) →
      BuildsItems (tokens ++ .comma :: restTokens) (.cons tree (.cons next rest))

end

/-- An expression of at least the level. -/
def Derives (level : Nat) (tokens : List Token) (tree : Tree) : Prop :=
  ∃ own, level ≤ own ∧ Builds own tokens tree

/-- The tokens of a whole expression. -/
abbrev Parses (tokens : List Token) (tree : Tree) : Prop :=
  Derives 0 tokens tree

def opens (tokens : List Token) : Nat := tokens.count .lparen
def closes (tokens : List Token) : Nat := tokens.count .rparen

/-- Parentheses are matched. -/
structure Nested (tokens : List Token) : Prop where
  balanced : closes tokens = opens tokens
  front : ∀ front back, tokens = front ++ back → closes front ≤ opens front

def Token.isWord (token : Token) : Bool :=
  decide (token ≠ .lparen ∧ token ≠ .rparen)

def words (tokens : List Token) : Nat := tokens.countP Token.isWord

@[simp] theorem opens_nil : opens [] = 0 := rfl
@[simp] theorem closes_nil : closes [] = 0 := rfl
@[simp] theorem words_nil : words [] = 0 := rfl

@[simp] theorem opens_append (front back : List Token) :
    opens (front ++ back) = opens front + opens back :=
  count_append

@[simp] theorem closes_append (front back : List Token) :
    closes (front ++ back) = closes front + closes back :=
  count_append

@[simp] theorem words_append (front back : List Token) :
    words (front ++ back) = words front + words back :=
  countP_append

variable {tokens left right : List Token} {level : Nat} {tree : Tree} {token : Token}

@[simp] theorem opens_cons_word (word : token.isWord) (rest : List Token) :
    opens (token :: rest) = opens rest := by
  have different : token ≠ .lparen := by
    simp only [Token.isWord, decide_eq_true_eq] at word
    exact word.1
  exact count_cons_of_ne different

@[simp] theorem closes_cons_word (word : token.isWord) (rest : List Token) :
    closes (token :: rest) = closes rest := by
  have different : token ≠ .rparen := by
    simp only [Token.isWord, decide_eq_true_eq] at word
    exact word.2
  exact count_cons_of_ne different

@[simp] theorem words_cons_word (word : token.isWord) (rest : List Token) :
    words (token :: rest) = words rest + 1 := by
  rw [words, countP_cons_of_pos word, words]

@[simp] theorem opens_lparen (rest : List Token) : opens (.lparen :: rest) = opens rest + 1 :=
  count_cons_self

@[simp] theorem opens_rparen (rest : List Token) : opens (.rparen :: rest) = opens rest :=
  count_cons_of_ne (by decide)

@[simp] theorem closes_lparen (rest : List Token) : closes (.lparen :: rest) = closes rest :=
  count_cons_of_ne (by decide)

@[simp] theorem closes_rparen (rest : List Token) : closes (.rparen :: rest) = closes rest + 1 :=
  count_cons_self

@[simp] theorem words_lparen (rest : List Token) : words (.lparen :: rest) = words rest :=
  countP_cons_of_neg (by decide)

@[simp] theorem words_rparen (rest : List Token) : words (.rparen :: rest) = words rest :=
  countP_cons_of_neg (by decide)

@[simp] theorem Token.isWord_name (text : Text) : (Token.name text).isWord = true := by
  simp [Token.isWord]

@[simp] theorem Token.isWord_number (text : Text) : (Token.number text).isWord = true := by
  simp [Token.isWord]

@[simp] theorem Token.isWord_op (op : BinOp) : (Token.op op).isWord = true := by
  simp [Token.isWord]

@[simp] theorem UnOp.isWord_token (op : UnOp) : op.token.isWord = true := by
  cases op with
  | neg | pos | not => rfl

theorem Nested.nil : Nested [] where
  balanced := rfl
  front := by
    intro front back split
    obtain ⟨rfl, _⟩ := append_eq_nil_iff.mp split.symm
    exact Nat.le_refl _

theorem Nested.word {token : Token} (word : token.isWord) : Nested [token] where
  balanced := by simp [word]
  front := by
    intro front back split
    cases front with
    | nil => exact Nat.le_refl _
    | cons first rest =>
      obtain ⟨rfl, tail⟩ := List.cons.inj split
      obtain ⟨rfl, _⟩ := append_eq_nil_iff.mp tail.symm
      simp [word]

theorem Nested.append (nestedLeft : Nested left) (nestedRight : Nested right) :
    Nested (left ++ right) where
  balanced := by rw [closes_append, opens_append, nestedLeft.balanced, nestedRight.balanced]
  front := by
    intro front back split
    rcases append_eq_append_iff.mp split with
      ⟨middle, rfl, rest⟩ | ⟨middle, rfl, rest⟩
    · have within := nestedRight.front middle back rest
      rw [closes_append, opens_append, nestedLeft.balanced]
      omega
    · exact nestedLeft.front front middle rfl

theorem Nested.cons {token : Token} (word : token.isWord) {rest : List Token}
    (nested : Nested rest) : Nested (token :: rest) :=
  (Nested.word word).append nested

theorem Nested.paren {tokens : List Token} (nested : Nested tokens) :
    Nested (.lparen :: (tokens ++ [.rparen])) where
  balanced := by simp [nested.balanced]
  front := by
    intro front back split
    cases front with
    | nil => exact Nat.le_refl _
    | cons first rest =>
      obtain ⟨rfl, tail⟩ := List.cons.inj split
      rcases append_eq_append_iff.mp tail with
        ⟨middle, rfl, last⟩ | ⟨middle, rfl, _⟩
      · -- `rest` covers the inner tokens and at most the closing one.
        have short : closes middle ≤ 1 := by
          have total := congrArg closes last
          simp only [closes_append, closes_rparen, closes_nil] at total
          omega
        have inner := nested.balanced
        simp only [closes_lparen, opens_lparen, closes_append, opens_append]
        omega
      · have within := nested.front rest middle rfl
        simp only [closes_lparen, opens_lparen]
        omega

theorem Nested.open_front {front back : List Token} (nested : Nested tokens)
    (split : tokens = front ++ back) :
    closes (.lparen :: front) < opens (.lparen :: front) := by
  have within := nested.front front back split
  simp only [closes_lparen, opens_lparen]
  omega

mutual

/-- The number of tokens of a tree other than grouping parentheses. -/
def Tree.size : Tree → Nat
  | .name _ => 1
  | .number _ => 1
  | .call _ args => 1 + args.size
  | .item _ index => 3 + index.size
  | .list items => 2 + items.size
  | .unary _ operand => 1 + operand.size
  | .binary _ left right => 1 + left.size + right.size
  | .ifElse body test orElse => 2 + body.size + test.size + orElse.size

def Trees.size : Trees → Nat
  | .nil => 0
  | .cons tree .nil => tree.size
  | .cons tree (.cons next rest) => 1 + tree.size + (Trees.cons next rest).size

end

theorem Tree.size_pos (tree : Tree) : 0 < tree.size := by
  cases tree with
  | name | number => simp [Tree.size]
  | call | item | list | unary | binary | ifElse => rw [Tree.size]; omega

mutual

theorem Builds.nested : ∀ {level : Nat} {tokens : List Token} {tree : Tree},
    Builds level tokens tree → Nested tokens
  | _, _, _, .name text => Nested.word (Token.isWord_name text)
  | _, _, _, .number text => Nested.word (Token.isWord_number text)
  | _, _, _, .paren inner => inner.nested.paren
  | _, _, _, .call function items => Nested.cons (Token.isWord_name function) items.nested.paren
  | _, _, _, .item object inner => by
    apply Nested.cons (Token.isWord_name object)
    apply @Nested.cons .lbracket rfl
    exact inner.nested.append (@Nested.word .rbracket rfl)
  | _, _, _, .list items => by
    apply @Nested.cons .lbracket rfl
    exact items.nested.append (@Nested.word .rbracket rfl)
  | _, _, _, .unary op inner _ => Nested.cons op.isWord_token inner.nested
  | _, _, _, .binary op left _ right _ =>
    left.nested.append (Nested.cons (Token.isWord_op op) right.nested)
  | _, _, _, .ifElse body _ test _ orElse => by
    apply body.nested.append
    apply @Nested.cons .kwIf rfl
    apply test.nested.append
    exact @Nested.cons .kwElse rfl _ orElse.nested

theorem BuildsItems.nested : ∀ {tokens : List Token} {trees : Trees},
    BuildsItems tokens trees → Nested tokens
  | _, _, .nil => Nested.nil
  | _, _, .one inner => inner.nested
  | _, _, .cons inner rest => by
    apply inner.nested.append
    exact @Nested.cons .comma rfl _ rest.nested

end

mutual

theorem Builds.words_eq : ∀ {level : Nat} {tokens : List Token} {tree : Tree},
    Builds level tokens tree → words tokens = tree.size
  | _, _, _, .name text => by simp [Tree.size]
  | _, _, _, .number text => by simp [Tree.size]
  | _, _, _, .paren inner => by simp [inner.words_eq]
  | _, _, _, .call function items => by
    simp [Tree.size, items.words_eq, Nat.add_comm]
  | _, _, _, .item object inner => by
    have inside := inner.words_eq
    simp [Tree.size, Token.isWord, inside]
    omega
  | _, _, _, .list items => by
    have inside := items.words_eq
    simp [Tree.size, Token.isWord, inside]
    omega
  | _, _, _, .unary op inner _ => by
    simp [Tree.size, inner.words_eq, Nat.add_comm]
  | _, _, _, .binary op left _ right _ => by
    simp [Tree.size, left.words_eq, right.words_eq]
    omega
  | _, _, _, .ifElse body _ test _ orElse => by
    simp [Tree.size, Token.isWord, body.words_eq, test.words_eq, orElse.words_eq]
    omega

theorem BuildsItems.words_eq : ∀ {tokens : List Token} {trees : Trees},
    BuildsItems tokens trees → words tokens = trees.size
  | _, _, .nil => rfl
  | _, _, .one inner => by simp [Trees.size, inner.words_eq]
  | _, _, .cons inner rest => by
    simp [Trees.size, Token.isWord, inner.words_eq, rest.words_eq]
    omega

end

theorem Builds.ne_nil (builds : Builds level tokens tree) : tokens ≠ [] := by
  rintro rfl
  have none := builds.words_eq
  have some := tree.size_pos
  rw [words_nil] at none
  omega

/-! ## Splitting at a token

Two splits of one list at tokens that are no parentheses agree when their
front parts hold equally many such tokens. -/

theorem split_unique {left right left' right' : List Token} {token token' : Token}
    (word : token.isWord) (word' : token'.isWord)
    (same : left ++ token :: right = left' ++ token' :: right') (count : words left = words left') :
    left = left' ∧ token = token' ∧ right = right' := by
  induction left generalizing left' with
  | nil =>
    cases left' with
    | nil =>
      obtain ⟨first, rest⟩ := List.cons.inj same
      exact ⟨rfl, first, rest⟩
    | cons head rest =>
      obtain ⟨rfl, _⟩ := List.cons.inj same
      simp [word] at count
  | cons head rest ih =>
    cases left' with
    | nil =>
      obtain ⟨rfl, _⟩ := List.cons.inj same
      simp [word'] at count
    | cons head' rest' =>
      obtain ⟨rfl, tail⟩ := List.cons.inj same
      have fewer : words rest = words rest' := by
        by_cases isWord : head.isWord = true
        · simpa [isWord] using count
        · simpa [words, countP_cons_of_neg isWord] using count
      obtain ⟨rfl, equal⟩ := ih tail fewer
      exact ⟨rfl, equal⟩

theorem not_paren_of_balanced (balanced : closes left = opens left)
    (some : left ≠ []) (nested : Nested tokens) :
    left ++ token :: right ≠ .lparen :: (tokens ++ [.rparen]) := by
  intro same
  cases left with
  | nil => exact some rfl
  | cons first front =>
    obtain ⟨rfl, tail⟩ := List.cons.inj same
    rcases append_eq_append_iff.mp tail with
      ⟨middle, rfl, last⟩ | ⟨middle, rfl, last⟩
    · have deeper := nested.open_front rfl
      omega
    · cases middle with
      | nil =>
        rw [append_nil] at balanced
        have deeper := nested.open_front (append_nil tokens).symm
        omega
      | cons next rest =>
        have tooLong := congrArg List.length last
        simp only [length_cons, length_append, length_nil] at tooLong
        omega

theorem Derives.mono {level' : Nat} (derives : Derives level tokens tree)
    (looser : level' ≤ level) : Derives level' tokens tree := by
  obtain ⟨own, within, builds⟩ := derives
  exact ⟨own, looser.trans within, builds⟩

theorem derives_name (bound : level ≤ 8) (text : Text) : Derives level [.name text] (.name text) :=
  ⟨8, bound, .name text⟩

theorem derives_number (bound : level ≤ 8) (text : Text) :
    Derives level [.number text] (.number text) :=
  ⟨8, bound, .number text⟩

theorem derives_paren (bound : level ≤ 8) (nested : Nested tokens) :
    Derives level (.lparen :: (tokens ++ [.rparen])) tree ↔ Parses tokens tree := by
  constructor
  · rintro ⟨own, _, builds⟩
    generalize whole : Token.lparen :: (tokens ++ [.rparen]) = all at builds
    cases builds with
    | name | number | call | item | list => simp at whole
    | paren inner =>
      obtain ⟨_, tail⟩ := List.cons.inj whole
      obtain ⟨rfl, _⟩ := append_inj' tail rfl
      exact ⟨_, Nat.zero_le _, inner⟩
    | unary op inner _ =>
      obtain ⟨first, _⟩ := List.cons.inj whole
      cases op with
      | neg | pos | not => exact absurd first nofun
    | binary op left _ right _ =>
      exact absurd whole.symm (not_paren_of_balanced
        left.nested.balanced left.ne_nil nested)
    | ifElse body _ test _ orElse =>
      exact absurd whole.symm (not_paren_of_balanced body.nested.balanced body.ne_nil nested)
  · rintro ⟨own, _, builds⟩
    exact ⟨8, bound, .paren builds⟩

theorem derives_unary {op : UnOp} {operand : Tree} :
    Derives level (op.token :: tokens) (.unary op operand) ↔
      level ≤ op.level ∧ Derives op.level tokens operand := by
  constructor
  · rintro ⟨own, within, builds⟩
    generalize whole : op.token :: tokens = all at builds
    cases builds with
    | paren inner =>
      obtain ⟨first, _⟩ := List.cons.inj whole
      cases op with
      | neg | pos | not => exact absurd first nofun
    | unary op inner bound =>
      obtain ⟨_, rfl⟩ := List.cons.inj whole
      exact ⟨within, _, bound, inner⟩
  · rintro ⟨bound, own, within, builds⟩
    exact ⟨_, bound, .unary op builds within⟩

theorem derives_binary {op : BinOp} {leftTree rightTree : Tree}
    (balanced : closes left = opens left) (count : words left = leftTree.size) :
    Derives level (left ++ .op op :: right) (.binary op leftTree rightTree) ↔
      level ≤ op.level ∧ Derives op.leftLevel left leftTree ∧
        Derives op.rightLevel right rightTree := by
  constructor
  · rintro ⟨own, within, builds⟩
    generalize whole : left ++ .op op :: right = all at builds
    cases builds with
    | paren inner =>
      have some : left ≠ [] := by
        rintro rfl
        have positive := leftTree.size_pos
        rw [words_nil] at count
        omega
      exact absurd whole (not_paren_of_balanced balanced some inner.nested)
    | binary op builtLeft leftBound builtRight rightBound =>
      obtain ⟨rfl, _, rfl⟩ := split_unique (Token.isWord_op op)
        (Token.isWord_op op) whole (count.trans builtLeft.words_eq.symm)
      exact ⟨within, ⟨_, leftBound, builtLeft⟩, ⟨_, rightBound, builtRight⟩⟩
  · rintro ⟨bound, ⟨_, leftBound, builtLeft⟩, ⟨_, rightBound, builtRight⟩⟩
    exact ⟨_, bound, .binary op builtLeft leftBound builtRight rightBound⟩

theorem derives_ifElse {body test orElse : List Token} {bodyTree testTree orElseTree : Tree}
    (bodyBalanced : closes body = opens body) (bodyCount : words body = bodyTree.size)
    (testCount : words test = testTree.size) :
    Derives level (body ++ .kwIf :: (test ++ .kwElse :: orElse))
        (.ifElse bodyTree testTree orElseTree) ↔
      level = 0 ∧ Derives 1 body bodyTree ∧ Derives 1 test testTree ∧ Parses orElse orElseTree := by
  constructor
  · rintro ⟨own, within, builds⟩
    generalize whole : body ++ .kwIf :: (test ++ .kwElse :: orElse) = all at builds
    cases builds with
    | paren inner =>
      have some : body ≠ [] := by
        rintro rfl
        have positive := bodyTree.size_pos
        rw [words_nil] at bodyCount
        omega
      exact absurd whole (not_paren_of_balanced bodyBalanced some inner.nested)
    | ifElse builtBody bodyBound builtTest testBound builtOrElse =>
      obtain ⟨rfl, _, rest⟩ := @split_unique _ _ _ _ .kwIf .kwIf rfl rfl
        whole (bodyCount.trans builtBody.words_eq.symm)
      obtain ⟨rfl, _, rfl⟩ := @split_unique _ _ _ _ .kwElse .kwElse rfl rfl
        rest (testCount.trans builtTest.words_eq.symm)
      exact ⟨by omega, ⟨_, bodyBound, builtBody⟩, ⟨_, testBound, builtTest⟩,
        ⟨_, Nat.zero_le _, builtOrElse⟩⟩
  · rintro ⟨rfl, ⟨_, bodyBound, builtBody⟩, ⟨_, testBound, builtTest⟩, ⟨_, _, builtOrElse⟩⟩
    exact ⟨0, Nat.le_refl 0, .ifElse builtBody bodyBound builtTest testBound builtOrElse⟩

theorem derives_call (bound : level ≤ 8) {function : Text} {args : Trees} :
    Derives level (.name function :: .lparen :: (tokens ++ [.rparen]))
        (.call function args) ↔ BuildsItems tokens args := by
  constructor
  · rintro ⟨own, _, builds⟩
    generalize whole : Token.name function :: .lparen :: (tokens ++ [.rparen]) = all at builds
    cases builds with
    | paren inner => simp at whole
    | call function items =>
      obtain ⟨_, tail⟩ := List.cons.inj whole
      obtain ⟨_, inside⟩ := List.cons.inj tail
      obtain ⟨rfl, _⟩ := append_inj' inside rfl
      exact items
  · exact fun items => ⟨8, bound, .call function items⟩

theorem derives_item (bound : level ≤ 8) {object : Text} {index : Tree} :
    Derives level (.name object :: .lbracket :: (tokens ++ [.rbracket]))
        (.item object index) ↔ Parses tokens index := by
  constructor
  · rintro ⟨own, _, builds⟩
    generalize whole : Token.name object :: .lbracket :: (tokens ++ [.rbracket]) = all at builds
    cases builds with
    | paren inner => simp at whole
    | item object inner =>
      obtain ⟨_, tail⟩ := List.cons.inj whole
      obtain ⟨_, inside⟩ := List.cons.inj tail
      obtain ⟨rfl, _⟩ := append_inj' inside rfl
      exact ⟨_, Nat.zero_le _, inner⟩
  · rintro ⟨own, _, inner⟩
    exact ⟨8, bound, .item object inner⟩

theorem derives_list (bound : level ≤ 8) {items : Trees} :
    Derives level (.lbracket :: (tokens ++ [.rbracket])) (.list items) ↔
      BuildsItems tokens items := by
  constructor
  · rintro ⟨own, _, builds⟩
    generalize whole : Token.lbracket :: (tokens ++ [.rbracket]) = all at builds
    cases builds with
    | paren inner => simp at whole
    | list items =>
      obtain ⟨_, inside⟩ := List.cons.inj whole
      obtain ⟨rfl, _⟩ := append_inj' inside rfl
      exact items
  · exact fun items => ⟨8, bound, .list items⟩

theorem buildsItems_one : BuildsItems tokens (.cons tree .nil) ↔ Parses tokens tree := by
  constructor
  · intro items
    cases items with
    | one inner => exact ⟨_, Nat.zero_le _, inner⟩
  · rintro ⟨own, _, inner⟩
    exact .one inner

theorem buildsItems_cons {restTokens : List Token} {next : Tree} {rest : Trees}
    (count : words tokens = tree.size) :
    BuildsItems (tokens ++ .comma :: restTokens) (.cons tree (.cons next rest)) ↔
      Parses tokens tree ∧ BuildsItems restTokens (.cons next rest) := by
  constructor
  · intro items
    generalize whole : tokens ++ .comma :: restTokens = all at items
    cases items with
    | cons inner later =>
      obtain ⟨rfl, _, rfl⟩ := @split_unique _ _ _ _ .comma .comma rfl rfl
        whole (count.trans inner.words_eq.symm)
      exact ⟨⟨_, Nat.zero_le _, inner⟩, later⟩
  · rintro ⟨⟨own, _, inner⟩, later⟩
    exact .cons inner later

end PyGrammar
