import Mathlib.Algebra.Order.Floor.Ring
import Mathlib.Data.Rat.Floor
import WriterAgent.Calc.Python.SanitizeTokens
import WriterAgent.Foundations.PythonParser

/-!
# What sanitized code computes

Arithmetic expressions over an ordered field with a floor.  A rewritten
`float` call is a sum without parentheses around it, and a rewritten `int`
call rounds down.
-/

namespace WriterAgent.Calc.Python

open PyText PyGrammar List Option Bool

abbrev floatName : Text := "float".toList
abbrev intName : Text := "int".toList
abbrev callNames : List Text := [floatName, intName]

def arithmeticOps : List BinOp := [.add, .sub, .mul, .div, .floorDiv, .pow]

mutual

/-- Variables, decimal literals, the arithmetic operators, and calls of
`float` and `int` with one argument. -/
def isArithmetic : Tree → Bool
  | .name _ => true
  | .number text => text.all fun c => isAsciiDigit c || c == '.'
  | .unary op operand => op == .neg && isArithmetic operand
  | .binary op left right => decide (op ∈ arithmeticOps) && isArithmetic left && isArithmetic right
  | .call function args => decide (function ∈ callNames) && isArithmeticArg args
  | _ => false

def isArithmeticArg : Trees → Bool
  | .cons tree .nil => isArithmetic tree
  | _ => false

end

def literalValue (text : Text) : ℚ :=
  let whole := text.takeWhile isAsciiDigit
  let fraction := (text.dropWhile isAsciiDigit).drop 1
  digitsValue (whole ++ fraction) / 10 ^ fraction.length

section Meaning

variable {α : Type*} [Field α] [LinearOrder α] [FloorRing α]

/-- `int` of an exact number. -/
def truncate (a : α) : α := if 0 ≤ a then (⌊a⌋ : α) else (⌈a⌉ : α)

def applyOp (power : α → α → Option α) : BinOp → α → α → Option α
  | .add, a, b => some (a + b)
  | .sub, a, b => some (a - b)
  | .mul, a, b => some (a * b)
  | .div, a, b => if b = 0 then none else some (a / b)
  | .floorDiv, a, b => if b = 0 then none else some (⌊a / b⌋ : α)
  | .pow, a, b => power a b
  | _, _, _ => none

mutual

def value (power : α → α → Option α) (env : Text → α) : Tree → Option α
  | .name text => some (env text)
  | .number text => some (literalValue text : α)
  | .unary .neg operand => (value power env operand).map fun a => -a
  | .binary op left right =>
    (value power env left).bind fun a =>
      (value power env right).bind fun b => applyOp power op a b
  | .call function args =>
    (argValue power env args).bind fun a =>
      if function = floatName then some a
      else if function = intName then some (truncate a)
      else none
  | _ => none

def argValue (power : α → α → Option α) (env : Text → α) : Trees → Option α
  | .cons tree .nil => value power env tree
  | _ => none

end

mutual

/-- Where an outermost `int` call has a value, its argument is no negative
fraction. -/
def IntsExact (power : α → α → Option α) (env : Text → α) : Tree → Prop
  | .unary _ operand => IntsExact power env operand
  | .binary _ left right => IntsExact power env left ∧ IntsExact power env right
  | .call function args =>
    if function = intName then
      ∀ a, argValue power env args = some a → 0 ≤ a ∨ ∃ n : ℤ, a = n
    else ArgExact power env args
  | _ => True

def ArgExact (power : α → α → Option α) (env : Text → α) : Trees → Prop
  | .cons tree .nil => IntsExact power env tree
  | _ => True

end

end Meaning

def isTight (token : Token) : Bool :=
  token ∈ [Token.op .mul, .op .div, .op .floorDiv, .op .pow]

/-- No outermost `float` call stands directly before a tight operator. -/
inductive FloatsDetached : List Token → Prop where
  | nil : FloatsDetached []
  | keep {token : Token} {rest : List Token} :
      ¬ (token = .name floatName ∧ rest.head? = some .lparen) →
      FloatsDetached rest → FloatsDetached (token :: rest)
  | call {inner rest : List Token} :
      Nested inner → rest.head?.any isTight = false → FloatsDetached rest →
      FloatsDetached (.name floatName :: .lparen :: (inner ++ .rparen :: rest))

variable {tree tree' : Tree} {tokens front back rest : List Token} {level : Nat} {text : Text}

theorem nested_rparen_unique {front' back' : List Token} (nested : Nested front)
    (nested' : Nested front') (same : front ++ .rparen :: back = front' ++ .rparen :: back') :
    front = front' ∧ back = back' := by
  have short : ∀ {left right : List Token} (middle : List Token),
      Nested left → Nested (left ++ middle) →
      .rparen :: right = middle ++ .rparen :: back' ∨ .rparen :: right = middle ++ .rparen :: back →
      middle = [] := by
    intro left right middle outer whole heads
    cases middle with
    | nil => rfl
    | cons token middle =>
      obtain rfl : token = .rparen := by
        rcases heads with heads | heads <;> exact (List.cons.inj heads).1.symm
      have bound := whole.front (left ++ [.rparen]) middle (by simp)
      simp only [closes_append, opens_append, closes_rparen, opens_rparen,
        closes_nil, opens_nil, outer.balanced] at bound
      omega
  rcases append_eq_append_iff.mp same with
    ⟨middle, rfl, rest⟩ | ⟨middle, rfl, rest⟩
  · obtain rfl := short middle nested nested' (Or.inl rest)
    exact ⟨by simp, (List.cons.inj rest).2⟩
  · obtain rfl := short middle nested' nested (Or.inr rest)
    exact ⟨by simp, (List.cons.inj rest).2.symm⟩

variable {token : Token}

theorem FloatsDetached.tail {rest : List Token} (detached : FloatsDetached (token :: rest))
    (other : ¬ (token = .name floatName ∧ rest.head? = some .lparen)) :
    FloatsDetached rest := by
  cases detached with
  | keep _ later => exact later
  | call nested loose later => exact absurd ⟨rfl, rfl⟩ other

theorem FloatsDetached.after_call {inner : List Token} (detached : FloatsDetached
      (.name floatName :: .lparen :: (inner ++ .rparen :: rest)))
    (nested : Nested inner) :
    rest.head?.any isTight = false ∧ FloatsDetached rest := by
  generalize whole : Token.name floatName :: .lparen ::
    (inner ++ .rparen :: rest) = tokens at detached
  cases detached with
  | nil => cases whole
  | keep other later =>
    obtain ⟨rfl, rfl⟩ := List.cons.inj whole
    exact absurd ⟨rfl, rfl⟩ other
  | call nested' loose later =>
    have same := (List.cons.inj (List.cons.inj whole).2).2
    obtain ⟨_, rfl⟩ := nested_rparen_unique nested nested' same
    exact ⟨loose, later⟩

variable {wrap : List Token → List Token} {function : Text}

theorem Rewrites.append {left left' right right' : List Token}
    (first : Rewrites function wrap left left') (second : Rewrites function wrap right right')
    (follows : FollowsOperand right) :
    Rewrites function wrap (left ++ right) (left' ++ right') := by
  induction first with
  | nil => exact second
  | @keep token rest rest' other _ ih =>
    refine .keep ?_ ih
    rintro ⟨named, opening⟩
    cases rest with
    | nil => exact follows.head?_ne opening
    | cons next rest => exact other ⟨named, opening⟩
  | @call inner rest rest' nested after _ ih =>
    have after' : FollowsOperand (rest ++ right) := by
      cases rest with
      | nil => exact follows
      | cons next rest => exact after
    have shape : Token.name function :: .lparen ::
        (inner ++ .rparen :: rest) ++ right = .name function :: .lparen ::
            (inner ++ .rparen :: (rest ++ right)) := by simp
    rw [shape, append_assoc]
    exact .call nested after' ih

theorem Rewrites.word (other : token ≠ .name function) {rest rest' : List Token}
    (rewrites : Rewrites function wrap rest rest') :
    Rewrites function wrap (token :: rest) (token :: rest') :=
  .keep (fun ⟨named, _⟩ => other named) rewrites

theorem Rewrites.paren {tokens tokens' : List Token}
    (rewrites : Rewrites function wrap tokens tokens') :
    Rewrites function wrap (.lparen :: (tokens ++ [.rparen]))
      (.lparen :: (tokens' ++ [.rparen])) := by
  apply Rewrites.word
  · exact nofun
  · apply rewrites.append
    · exact .word (by exact nofun) .nil
    · exact .rparen []

def wrapFloat (inner : List Token) : List Token :=
  .lparen :: (inner ++ [.rparen, .op .add, .number "0.0".toList])

def wrapInt (inner : List Token) : List Token :=
  .lparen :: .lparen :: (inner ++ [.rparen, .op .floorDiv, .number ['1'], .rparen])

section Passes

variable {α : Type*} [Field α] [LinearOrder α] [FloorRing α] (power : α → α → Option α)

/-- The second tree is arithmetic too, has the values of the first one, and
its `int` calls are exact where those of the first one are. -/
structure Agrees (tree tree' : Tree) : Prop where
  arithmetic : isArithmetic tree' = true
  sameValue : ∀ env v, value power env tree = some v → value power env tree' = some v
  exact : ∀ env v, value power env tree = some v →
    IntsExact power env tree → IntsExact power env tree'

variable {power}

theorem Agrees.refl (arithmetic : isArithmetic tree = true) : Agrees power tree tree :=
  ⟨arithmetic, fun _ _ same => same, fun _ _ _ exact => exact⟩

theorem Agrees.neg (agrees : Agrees power tree tree') :
    Agrees power (.unary .neg tree) (.unary .neg tree') := by
  constructor
  · simp [isArithmetic, agrees.arithmetic]
  · intro env v found
    simp only [value, map_eq_some_iff] at found ⊢
    obtain ⟨a, found, rfl⟩ := found
    exact ⟨a, agrees.sameValue env a found, rfl⟩
  · intro env v found exact
    simp only [value, map_eq_some_iff] at found
    obtain ⟨a, found, _⟩ := found
    exact agrees.exact env a found exact

theorem Agrees.binary {op : BinOp} (known : op ∈ arithmeticOps) {left left' right right' : Tree}
    (first : Agrees power left left') (second : Agrees power right right') :
    Agrees power (.binary op left right) (.binary op left' right') := by
  constructor
  · simp [isArithmetic, known, first.arithmetic, second.arithmetic]
  · intro env v found
    simp only [value, bind_eq_some_iff] at found ⊢
    obtain ⟨a, foundLeft, b, foundRight, result⟩ := found
    exact ⟨a, first.sameValue env a foundLeft, b, second.sameValue env b foundRight, result⟩
  · intro env v found exact
    simp only [value, bind_eq_some_iff] at found
    obtain ⟨a, foundLeft, b, foundRight, _⟩ := found
    exact ⟨first.exact env a foundLeft exact.1, second.exact env b foundRight exact.2⟩

theorem Agrees.int (agrees : Agrees power tree tree') :
    Agrees power (.call intName (.cons tree .nil)) (.call intName (.cons tree' .nil)) := by
  constructor
  · simp [isArithmetic, isArithmeticArg, agrees.arithmetic]
  · intro env v found
    simp only [value, argValue, bind_eq_some_iff] at found ⊢
    obtain ⟨a, found, result⟩ := found
    exact ⟨a, agrees.sameValue env a found, result⟩
  · intro env v found exact
    simp only [value, argValue, bind_eq_some_iff] at found
    obtain ⟨a, found, _⟩ := found
    simp only [IntsExact, argValue, if_true] at exact ⊢
    intro b other
    rw [agrees.sameValue env a found] at other
    obtain rfl := some.inj other
    exact exact a found

theorem Agrees.float (arithmetic : isArithmetic tree = true) :
    Agrees power (.call floatName (.cons tree .nil)) tree := by
  constructor
  · exact arithmetic
  · intro env v found
    simp only [value, argValue, bind_eq_some_iff, if_true] at found
    obtain ⟨a, found, same⟩ := found
    rw [found, same]
  · intro env v found exact
    exact exact

theorem Agrees.addZero (agrees : Agrees power tree tree') :
    Agrees power tree (.binary .add tree' (.number "0.0".toList)) := by
  have zero : literalValue "0.0".toList = 0 := by decide +kernel
  constructor
  · simp [isArithmetic, arithmeticOps, agrees.arithmetic]
    decide
  · intro env v found
    simp only [value, bind_eq_some_iff]
    refine ⟨v, agrees.sameValue env v found, _, rfl, ?_⟩
    rw [zero]
    simp [applyOp]
  · intro env v found exact
    exact ⟨agrees.exact env v found exact, trivial⟩

/-- What the float pass makes of an operand before the rest of the tokens. -/
inductive FloatPass (power : α → α → Option α) (rest : List Token)
    (level : Nat) (tokens : List Token) (tree : Tree) : Prop where
  /-- An expression of the same level. -/
  | whole {tokens' : List Token} {tree' : Tree} : Rewrites floatName wrapFloat tokens tokens' →
      Derives level tokens' tree' → Agrees power tree tree' →
      FloatPass power rest level tokens tree
  /-- Such an expression with a bare `+0.0` behind it. -/
  | bare {front : List Token} {tree' : Tree} : Rewrites floatName wrapFloat tokens
        (front ++ [.op .add, .number "0.0".toList]) →
      Derives level front tree' → Agrees power tree tree' →
      rest.head?.any isTight = false →
      FloatPass power rest level tokens tree

theorem FloatPass.sum (pass : FloatPass power rest level tokens tree) (bound : 4 ≤ level) :
    ∃ tokens' tree', Rewrites floatName wrapFloat tokens tokens' ∧
      Derives 4 tokens' tree' ∧ Agrees power tree tree' := by
  cases pass with
  | whole rewrites derives agrees => exact ⟨_, _, rewrites, derives.mono bound, agrees⟩
  | bare rewrites derives agrees loose =>
    refine ⟨_, _, rewrites, ?_, agrees.addZero⟩
    obtain ⟨own, within, builds⟩ := derives
    exact ⟨4, Nat.le_refl 4, .binary .add builds (bound.trans within) (.number _) (by decide)⟩

theorem FloatPass.left {op : BinOp} (known : op ∈ arithmeticOps)
    (pass : FloatPass power (.op op :: rest) level tokens tree) (bound : op.leftLevel ≤ level) :
    ∃ tokens' tree', Rewrites floatName wrapFloat tokens tokens' ∧
      Derives op.leftLevel tokens' tree' ∧ Agrees power tree tree' := by
  have loosest : 4 ≤ op.leftLevel := by cases op <;> decide
  cases pass with
  | whole rewrites derives agrees => exact ⟨_, _, rewrites, derives.mono bound, agrees⟩
  | bare rewrites derives agrees loose =>
    have sum : op.leftLevel = 4 := by
      rw [List.head?_cons] at loose
      revert known loose
      cases op <;> decide
    rw [sum]
    exact FloatPass.sum (.bare rewrites derives agrees loose) (sum ▸ bound)

/-- The derivations of arithmetic expressions. -/
inductive BuildsArithmetic : Nat → List Token → Tree → Prop where
  | name (text : Text) : BuildsArithmetic 8 [.name text] (.name text)
  | number (text : Text) : isArithmetic (.number text) = true →
      BuildsArithmetic 8 [.number text] (.number text)
  | paren {own : Nat} {tokens : List Token} {tree : Tree} : BuildsArithmetic own tokens tree →
      BuildsArithmetic 8 (.lparen :: (tokens ++ [.rparen])) tree
  | neg {own : Nat} {tokens : List Token} {tree : Tree} :
      BuildsArithmetic own tokens tree → 6 ≤ own →
      BuildsArithmetic 6 (UnOp.neg.token :: tokens) (.unary .neg tree)
  | binary {op : BinOp} {ownLeft ownRight : Nat} {leftTokens rightTokens : List Token}
      {left right : Tree} : op ∈ arithmeticOps →
      BuildsArithmetic ownLeft leftTokens left → op.leftLevel ≤ ownLeft →
      BuildsArithmetic ownRight rightTokens right → op.rightLevel ≤ ownRight →
      BuildsArithmetic op.level (leftTokens ++ .op op :: rightTokens) (.binary op left right)
  | call {function : Text} {own : Nat} {tokens : List Token} {tree : Tree} :
      function ∈ callNames → BuildsArithmetic own tokens tree →
      BuildsArithmetic 8 (.name function :: .lparen :: (tokens ++ [.rparen]))
        (.call function (.cons tree .nil))

theorem buildsArithmetic : ∀ {level : Nat} {tokens : List Token} {tree : Tree},
    Builds level tokens tree → isArithmetic tree = true → BuildsArithmetic level tokens tree
  | _, _, _, .name text, _ => .name text
  | _, _, _, .number text, arithmetic => .number text arithmetic
  | _, _, _, .paren builds, arithmetic => .paren (buildsArithmetic builds arithmetic)
  | _, _, _, .unary op builds bound, arithmetic => by
    simp only [isArithmetic, and_eq_true, beq_iff_eq] at arithmetic
    obtain ⟨rfl, arithmetic⟩ := arithmetic
    exact .neg (buildsArithmetic builds arithmetic) bound
  | _, _, _, .binary op left leftBound right rightBound, arithmetic => by
    simp only [isArithmetic, and_eq_true, decide_eq_true_eq] at arithmetic
    exact .binary arithmetic.1.1 (buildsArithmetic left arithmetic.1.2) leftBound
      (buildsArithmetic right arithmetic.2) rightBound
  | _, _, _, .call function (.one builds), arithmetic => by
    simp only [isArithmetic, isArithmeticArg, and_eq_true, decide_eq_true_eq] at arithmetic
    exact .call arithmetic.1 (buildsArithmetic builds arithmetic.2)
  | _, _, .call function .nil, .call _ _, arithmetic
  | _, _, .call function (.cons _ (.cons _ _)), .call _ _, arithmetic => by
    simp [isArithmetic, isArithmeticArg] at arithmetic

namespace BuildsArithmetic

theorem builds (arithmetic : BuildsArithmetic level tokens tree) : Builds level tokens tree := by
  induction arithmetic with
  | name text => exact .name text
  | number text _ => exact .number text
  | paren _ inner => exact .paren inner
  | neg _ bound inner => exact .unary .neg inner bound
  | binary _ _ leftBound _ rightBound left right => exact .binary _ left leftBound right rightBound
  | call _ _ inner => exact .call _ (.one inner)

theorem isArithmetic (arithmetic : BuildsArithmetic level tokens tree) :
    Python.isArithmetic tree = true := by
  induction arithmetic with
  | name text => rfl
  | number text literal => exact literal
  | paren _ inner => exact inner
  | neg _ _ inner => simp [Python.isArithmetic, inner]
  | binary known _ _ _ _ left right => simp [Python.isArithmetic, known, left, right]
  | call known _ inner => simp [Python.isArithmetic, isArithmeticArg, known, inner]

theorem four_le (arithmetic : BuildsArithmetic level tokens tree) : 4 ≤ level := by
  cases arithmetic with
  | name | number | paren | neg | call => decide
  | @binary op _ _ _ _ _ _ known =>
    revert known
    cases op <;> decide

variable (power) in
theorem floatPass (arithmetic : BuildsArithmetic level tokens tree)
    (follows : FollowsOperand rest) (detached : FloatsDetached (tokens ++ rest)) :
    FloatsDetached rest ∧ FloatPass power rest level tokens tree := by
  induction arithmetic generalizing rest with
  | name text =>
    have noCall : ¬ (Token.name text = .name floatName ∧
        rest.head? = some .lparen) := fun ⟨_, opening⟩ =>
      follows.head?_ne opening
    refine ⟨detached.tail noCall, .whole ?_ (derives_name (Nat.le_refl 8) text) (.refl rfl)⟩
    exact .keep (fun ⟨_, opening⟩ => nomatch opening) .nil
  | number text literal =>
    exact ⟨detached.tail nofun, .whole (.word (by exact nofun) .nil)
      (derives_number (Nat.le_refl 8) text) (.refl literal)⟩
  | @paren _ tokens _ inner ih =>
    have shape : Token.lparen :: (tokens ++ [.rparen]) ++ rest =
        .lparen :: (tokens ++ .rparen :: rest) := by simp
    rw [shape] at detached
    obtain ⟨later, pass⟩ := ih (.rparen rest) (detached.tail nofun)
    obtain ⟨tokens', tree', rewrites, ⟨own, _, builds'⟩, agrees⟩ := pass.sum inner.four_le
    exact ⟨later.tail nofun, .whole rewrites.paren ⟨8, Nat.le_refl 8, .paren builds'⟩ agrees⟩
  | neg inner bound ih =>
    obtain ⟨later, pass⟩ := ih follows (detached.tail nofun)
    refine ⟨later, ?_⟩
    cases pass with
    | whole rewrites derives agrees =>
      refine .whole (.word (by exact nofun) rewrites) ?_ agrees.neg
      obtain ⟨own, within, builds'⟩ := derives.mono bound
      exact ⟨6, Nat.le_refl 6, .unary .neg builds' within⟩
    | @bare front _ rewrites derives agrees loose =>
      have rewrites' : Rewrites floatName wrapFloat _
          ((UnOp.neg.token :: front) ++ [.op .add, .number "0.0".toList]) :=
        .word (by exact nofun) rewrites
      obtain ⟨own, within, builds'⟩ := derives.mono bound
      exact .bare rewrites' ⟨6, Nat.le_refl 6, .unary .neg builds' within⟩ agrees.neg loose
  | @binary op _ _ leftTokens rightTokens _ _ known left leftBound right rightBound
      ihLeft ihRight =>
    rw [append_assoc] at detached
    obtain ⟨middle, passLeft⟩ := ihLeft (.op op (rightTokens ++ rest)) detached
    obtain ⟨later, passRight⟩ := ihRight follows (middle.tail nofun)
    refine ⟨later, ?_⟩
    obtain ⟨left', leftTree', rewritesLeft, ⟨ownLeft, withinLeft, builtLeft⟩,
      agreesLeft⟩ := passLeft.left known leftBound
    have joined : ∀ {right' : List Token}, Rewrites floatName wrapFloat rightTokens right' →
        Rewrites floatName wrapFloat (leftTokens ++ .op op :: rightTokens)
          (left' ++ .op op :: right') := fun rewrites =>
      rewritesLeft.append (.word (by exact nofun) rewrites) (.op op _)
    cases passRight with
    | whole rewrites derives agrees =>
      obtain ⟨own, within, builds'⟩ := derives.mono rightBound
      exact .whole (joined rewrites)
        ⟨op.level, Nat.le_refl _, .binary op builtLeft withinLeft builds' within⟩
        (agreesLeft.binary known agrees)
    | @bare front _ rewrites derives agrees loose =>
      obtain ⟨own, within, builds'⟩ := derives.mono rightBound
      have rewrites' := joined rewrites
      have shape : left' ++ .op op :: (front ++ [.op .add, .number "0.0".toList]) =
            (left' ++ .op op :: front) ++ [.op .add, .number "0.0".toList] := by simp
      rw [shape] at rewrites'
      exact .bare rewrites'
        ⟨op.level, Nat.le_refl _, .binary op builtLeft withinLeft builds' within⟩
        (agreesLeft.binary known agrees) loose
  | @call function _ tokens _ known inner ih =>
    have shape : Token.name function :: .lparen :: (tokens ++ [.rparen]) ++
        rest = .name function :: .lparen :: (tokens ++ .rparen :: rest) := by
      simp
    rw [shape] at detached
    rcases mem_pair.mp known with rfl | rfl
    · have nested := inner.builds.nested
      obtain ⟨loose, later⟩ := detached.after_call nested
      have call : Rewrites floatName wrapFloat _ (wrapFloat tokens ++ []) :=
        .call nested .nil .nil
      have written : wrapFloat tokens ++ [] = (.lparen :: (tokens ++ [.rparen])) ++
            [.op .add, .number "0.0".toList] := by
        simp [wrapFloat]
      rw [written] at call
      exact ⟨later, .bare call ⟨8, Nat.le_refl 8, .paren inner.builds⟩
        (.float inner.isArithmetic) loose⟩
    · have noFloat : Token.name intName ≠ .name floatName := by decide
      obtain ⟨later, pass⟩ := ih (.rparen rest)
        ((detached.tail fun ⟨named, _⟩ => noFloat named).tail nofun)
      obtain ⟨tokens', tree', rewrites, ⟨own, _, builds'⟩, agrees⟩ := pass.sum inner.four_le
      exact ⟨later.tail nofun, .whole (.word noFloat rewrites.paren)
        ⟨8, Nat.le_refl 8, .call intName (.one builds')⟩ agrees.int⟩

end BuildsArithmetic

variable (power) in
/-- The second tree has the values of the first one where its `int` calls are
exact. -/
structure AgreesExact (tree tree' : Tree) : Prop where
  arithmetic : isArithmetic tree' = true
  sameValue : ∀ env v, value power env tree = some v →
    IntsExact power env tree → value power env tree' = some v

theorem AgreesExact.refl (arithmetic : isArithmetic tree = true) : AgreesExact power tree tree :=
  ⟨arithmetic, fun _ _ same _ => same⟩

theorem AgreesExact.neg (agrees : AgreesExact power tree tree') :
    AgreesExact power (.unary .neg tree) (.unary .neg tree') := by
  constructor
  · simp [isArithmetic, agrees.arithmetic]
  · intro env v found exact
    simp only [value, map_eq_some_iff] at found ⊢
    obtain ⟨a, found, rfl⟩ := found
    exact ⟨a, agrees.sameValue env a found exact, rfl⟩

theorem AgreesExact.binary {op : BinOp} (known : op ∈ arithmeticOps)
    {left left' right right' : Tree} (first : AgreesExact power left left')
    (second : AgreesExact power right right') :
    AgreesExact power (.binary op left right) (.binary op left' right') := by
  constructor
  · simp [isArithmetic, known, first.arithmetic, second.arithmetic]
  · intro env v found exact
    simp only [value, bind_eq_some_iff] at found ⊢
    obtain ⟨a, foundLeft, b, foundRight, result⟩ := found
    exact ⟨a, first.sameValue env a foundLeft exact.1, b,
      second.sameValue env b foundRight exact.2, result⟩

theorem AgreesExact.float (agrees : AgreesExact power tree tree') :
    AgreesExact power (.call floatName (.cons tree .nil)) (.call floatName (.cons tree' .nil)) := by
  constructor
  · simp [isArithmetic, isArithmeticArg, agrees.arithmetic]
  · intro env v found exact
    simp only [value, argValue, bind_eq_some_iff] at found ⊢
    obtain ⟨a, found, result⟩ := found
    exact ⟨a, agrees.sameValue env a found exact, result⟩

theorem truncate_eq_floor {a : α} [IsStrictOrderedRing α]
    (exact : 0 ≤ a ∨ ∃ n : ℤ, a = n) : truncate a = (⌊a⌋ : α) := by
  unfold truncate
  split
  · rfl
  · rename_i negative
    rcases exact with positive | ⟨n, rfl⟩
    · exact absurd positive negative
    · rw [Int.ceil_intCast, Int.floor_intCast]

theorem AgreesExact.int [IsStrictOrderedRing α] (arithmetic : isArithmetic tree = true) :
    AgreesExact power (.call intName (.cons tree .nil))
      (.binary .floorDiv tree (.number ['1'])) := by
  have one : literalValue ['1'] = 1 := by decide +kernel
  have different : intName ≠ floatName := by decide
  constructor
  · simp [isArithmetic, arithmeticOps, arithmetic]
    decide
  · intro env v found exact
    simp only [value, argValue, bind_eq_some_iff, if_neg different, if_true] at found
    obtain ⟨a, found, result⟩ := found
    simp only [value, bind_eq_some_iff]
    refine ⟨a, found, _, rfl, ?_⟩
    rw [one, ← result, truncate_eq_floor (exact a found)]
    simp [applyOp]

variable [IsStrictOrderedRing α]

def IntPass (power : α → α → Option α) (level : Nat) (tokens : List Token) (tree : Tree) : Prop :=
  ∃ tokens' tree', Rewrites intName wrapInt tokens tokens' ∧
    Derives level tokens' tree' ∧ AgreesExact power tree tree'

variable (power) in
theorem BuildsArithmetic.intPass (arithmetic : BuildsArithmetic level tokens tree) :
    IntPass power level tokens tree := by
  induction arithmetic with
  | name text =>
    exact ⟨_, _, .keep (fun ⟨_, opening⟩ => nomatch opening) .nil,
      derives_name (Nat.le_refl 8) text, .refl rfl⟩
  | number text literal =>
    exact ⟨_, _, .word (by exact nofun) .nil, derives_number (Nat.le_refl 8) text, .refl literal⟩
  | paren _ ih =>
    obtain ⟨tokens', tree', rewrites, ⟨own, _, builds'⟩, agrees⟩ := ih
    exact ⟨_, tree', rewrites.paren, ⟨8, Nat.le_refl 8, .paren builds'⟩, agrees⟩
  | neg _ bound ih =>
    obtain ⟨tokens', tree', rewrites, derives, agrees⟩ := ih
    obtain ⟨own, within, builds'⟩ := derives.mono bound
    exact ⟨_, _, .word (by exact nofun) rewrites,
      ⟨6, Nat.le_refl 6, .unary .neg builds' within⟩, agrees.neg⟩
  | @binary op _ _ _ _ _ _ known _ leftBound _ rightBound left right =>
    obtain ⟨left', leftTree', rewritesLeft, derivesLeft, agreesLeft⟩ := left
    obtain ⟨right', rightTree', rewritesRight, derivesRight, agreesRight⟩ := right
    obtain ⟨_, withinLeft, builtLeft⟩ := derivesLeft.mono leftBound
    obtain ⟨_, withinRight, builtRight⟩ := derivesRight.mono rightBound
    exact ⟨_, _, rewritesLeft.append (.word (by exact nofun) rewritesRight) (.op op _),
      ⟨op.level, Nat.le_refl _, .binary op builtLeft withinLeft builtRight
        withinRight⟩, agreesLeft.binary known agreesRight⟩
  | @call function _ tokens tree known inner ih =>
    rcases mem_pair.mp known with rfl | rfl
    · obtain ⟨tokens', tree', rewrites, ⟨own, _, builds'⟩, agrees⟩ := ih
      have noInt : Token.name floatName ≠ .name intName := by decide
      exact ⟨_, _, .word noInt rewrites.paren,
        ⟨8, Nat.le_refl 8, .call floatName (.one builds')⟩, agrees.float⟩
    · have call : Rewrites intName wrapInt _ (wrapInt tokens ++ []) :=
        .call inner.builds.nested .nil .nil
      have quotient : Builds 5 (.lparen :: (tokens ++ [.rparen]) ++ .op .floorDiv ::
            [.number ['1']]) (.binary .floorDiv tree (.number ['1'])) :=
        .binary .floorDiv (.paren inner.builds) (by decide) (.number _) (by decide)
      have written : wrapInt tokens ++ [] =
          .lparen :: ((.lparen :: (tokens ++ [.rparen]) ++ .op .floorDiv ::
            [.number ['1']]) ++ [.rparen]) := by
        simp [wrapInt]
      rw [written] at call
      exact ⟨_, _, call, ⟨8, Nat.le_refl 8, .paren quotient⟩, .int inner.isArithmetic⟩

end Passes

/-- Tokens of arithmetic expressions: only `float` and `int` are called, and
nothing is compared. -/
structure ArithmeticTokens (tokens : List Token) : Prop where
  calls : CallsOnly callNames tokens
  noComparison : ∀ token ∈ tokens, token ∉ [Token.op .eq, .op .ne, .op .le, .op .ge]

theorem CallsOnly.append {names : List Text} (first : CallsOnly names front)
    (second : CallsOnly names back) (follows : back.head? ≠ some .lparen) :
    CallsOnly names (front ++ back) := by
  intro before name after split
  rcases append_eq_append_iff.mp split with
    ⟨middle, _, rest⟩ | ⟨middle, rfl, rest⟩
  · exact second middle name after rest
  · cases middle with
    | nil => exact second [] name after rest.symm
    | cons token middle =>
      obtain ⟨rfl, tail⟩ := List.cons.inj rest
      cases middle with
      | nil =>
        have same : Token.lparen :: after = back := tail
        rw [← same] at follows
        exact absurd rfl follows
      | cons token middle =>
        obtain rfl := (List.cons.inj tail).1
        exact first before name middle rfl

theorem CallsOnly.singleton (names : List Text) (token : Token) : CallsOnly names [token] := by
  intro before name after split
  have lengths := congrArg List.length split
  simp only [length_append, length_cons, length_nil] at lengths
  omega

theorem ArithmeticTokens.append (first : ArithmeticTokens front)
    (second : ArithmeticTokens back) (follows : back.head? ≠ some .lparen) :
    ArithmeticTokens (front ++ back) where
  calls := first.calls.append second.calls follows
  noComparison token member := by
    rcases mem_append.mp member with inFront | inBack
    · exact first.noComparison token inFront
    · exact second.noComparison token inBack

theorem ArithmeticTokens.singleton (known : token ∉ [Token.op .eq, .op .ne, .op .le, .op .ge]) :
    ArithmeticTokens [token] where
  calls := .singleton _ token
  noComparison other member := by
    rw [mem_singleton.mp member]
    exact known

theorem ArithmeticTokens.cons (known : token ∉ [Token.op .eq, .op .ne, .op .le, .op .ge])
    (noName : ∀ name, token ≠ .name name) {rest : List Token} (arithmetic : ArithmeticTokens rest) :
    ArithmeticTokens (token :: rest) where
  calls := by
    intro before name after split
    cases before with
    | nil => exact absurd (List.cons.inj split).1 (noName name)
    | cons first before => exact arithmetic.calls before name after (List.cons.inj split).2
  noComparison other member := by
    rcases mem_cons.mp member with rfl | later
    · exact known
    · exact arithmetic.noComparison other later

theorem ArithmeticTokens.paren {tokens : List Token} (arithmetic : ArithmeticTokens tokens) :
    ArithmeticTokens (.lparen :: (tokens ++ [.rparen])) :=
  .cons (by decide) (by simp) (arithmetic.append (.singleton (by decide)) (by simp))

theorem ArithmeticTokens.call (known : function ∈ callNames) {rest : List Token}
    (arithmetic : ArithmeticTokens (.lparen :: rest)) :
    ArithmeticTokens (.name function :: .lparen :: rest) where
  calls := by
    intro before name after split
    cases before with
    | nil =>
      rw [← Token.name.inj (List.cons.inj split).1]
      exact known
    | cons first before => exact arithmetic.calls before name after (List.cons.inj split).2
  noComparison other member := by
    rcases mem_cons.mp member with rfl | later
    · simp
    · exact arithmetic.noComparison other later

theorem BuildsArithmetic.arithmeticTokens (arithmetic : BuildsArithmetic level tokens tree) :
    ArithmeticTokens tokens := by
  induction arithmetic with
  | name text | number text => exact .singleton (by simp)
  | paren _ inner => exact inner.paren
  | neg _ _ inner => exact .cons (by decide) (by simp [UnOp.token]) inner
  | @binary op _ _ _ _ _ _ known _ _ _ _ left right =>
    have other : Token.op op ∉ [Token.op .eq, .op .ne, .op .le, .op .ge] := by
      revert known
      cases op <;> decide
    exact left.append (.cons other (by simp) right) (by simp)
  | call known _ inner => exact .call known inner.paren

theorem callWord_float : CallWord callNames floatName where
  lettersNames := by unfold LetterNames; decide
  letters := by decide
  hasLetter := by decide
  noKeyword := by decide
  whole := by decide

theorem callWord_int : CallWord callNames intName where
  lettersNames := by unfold LetterNames; decide
  letters := by decide
  hasLetter := by decide
  noKeyword := by decide
  whole := by decide

theorem callWord_str : CallWord callNames "str".toList where
  lettersNames := by unfold LetterNames; decide
  letters := by decide
  hasLetter := by decide
  noKeyword := by decide
  whole := by decide

theorem writesTokens_float : WritesTokens rewriteFloat wrapFloat where
  opens inner := rfl
  lexes inner tokens lexed rest ends := by
    let zero : NumberText :=
      ⟨['0'], some ['0'], none, by decide, by decide, by decide⟩
    have number : tokenize ("0.0".toList ++ rest) =
        (tokenize rest).map ([Token.number "0.0".toList] ++ ·) :=
      lexes_number zero rest ends
    have plus : LexesBefore ['+'] [.op .add] :=
      lexesBefore_token rfl fun _ => rfl
    have shape : rewriteFloat inner ++ rest =
        ['('] ++ (inner ++ ([')'] ++ (['+'] ++ ("0.0".toList ++ rest)))) := by
      simp [rewriteFloat]
    rw [shape, lexesBefore_lparen, tokenize_append lexed rfl, lexesBefore_rparen, plus, number]
    simp only [Option.map_map]
    congr 1
    funext later
    simp [wrapFloat]

theorem writesTokens_int : WritesTokens rewriteInt wrapInt where
  opens inner := rfl
  lexes inner tokens lexed rest ends := by
    let one : NumberText :=
      ⟨['1'], none, none, by decide, by decide, by decide⟩
    have number : tokenize (['1'] ++ ([')'] ++ rest)) =
        (tokenize ([')'] ++ rest)).map ([Token.number ['1']] ++ ·) :=
      lexes_number one ([')'] ++ rest) rfl
    have quotient : LexesBefore ['/', '/'] [.op .floorDiv] :=
      lexesBefore_token rfl fun _ => rfl
    have shape : rewriteInt inner ++ rest = ['('] ++ (['('] ++ (inner ++
        ([')'] ++ (['/', '/'] ++ (['1'] ++ ([')'] ++ rest)))))) := by
      simp [rewriteInt]
    rw [shape, lexesBefore_lparen, lexesBefore_lparen, tokenize_append lexed rfl,
      lexesBefore_rparen, quotient, number, lexesBefore_rparen]
    simp only [Option.map_map]
    congr 1
    funext later
    simp [wrapInt]

theorem tokenize_sanitizeInlinePyCode (isAlnum : Char → Bool) {floated rounded : List Token}
    (lexed : tokenize text = some tokens) (arithmetic : ArithmeticTokens tokens)
    (floats : Rewrites floatName wrapFloat tokens floated)
    (arithmeticFloats : ArithmeticTokens floated) (ints : Rewrites intName wrapInt floated rounded)
    (arithmeticInts : ArithmeticTokens rounded) :
    tokenize (sanitizeInlinePyCode isAlnum text) = some rounded := by
  have noEquals : '=' ∉ text := no_equals lexed arithmetic.noComparison
  have inOld : '=' ∈ "dtype=float".toList := by decide
  have noWord : ∀ s : Text, StartsFree isAlnum none s :=
    fun s isWord => absurd isWord false_ne_true
  unfold sanitizeInlinePyCode
  simp only
  rw [replaceText_eq_self inOld noEquals,
    xlTextCall_eq_self callWord_float.lettersNames arithmetic.calls lexed]
  unfold rewriteTokenCalls
  obtain ⟨_, rfl, lexedFloats, _⟩ := tokenize_rewriteTokenCalls callWord_float
    writesTokens_float floats arithmetic.calls lexed (noWord text)
  obtain ⟨_, rfl, lexedInts, _⟩ := tokenize_rewriteTokenCalls callWord_int
    writesTokens_int ints arithmeticFloats.calls lexedFloats (noWord _)
  have absent : "str".toList ∉ callNames := by decide
  have kept := rewriteTokenCalls_eq_self callWord_str absent isAlnum rewriteStr
    arithmeticInts.calls lexedInts
  unfold rewriteTokenCalls at kept
  rw [kept]
  exact lexedInts

section Claim

variable {α : Type*} [Field α] [LinearOrder α] [FloorRing α]

/-- What is written reads as an expression with the values of the text. -/
def KeepsMeaning (isAlnum : Char → Bool) (power : α → α → Option α) (text : Text) : Prop :=
  ∀ tree, ReadsAs text tree → isArithmetic tree = true →
    ∃ tree', ReadsAs (sanitizeInlinePyCode isAlnum text) tree' ∧
      ∀ env v, value power env tree = some v → value power env tree' = some v

/-- **Meaning.** Where no outermost `float` call ends a left operand of a
tight operator, sanitized code has the value of the code in every environment
in which no outermost `int` call truncates a negative fraction. -/
theorem sanitizeInlinePyCode_keepsValue [IsStrictOrderedRing α] (isAlnum : Char → Bool)
    (power : α → α → Option α) {text : Text} {tokens : List Token} {tree : Tree}
    (lexed : tokenize text = some tokens) (parses : Parses tokens tree)
    (arithmetic : isArithmetic tree = true) (detached : FloatsDetached tokens) :
    ∃ tree', ReadsAs (sanitizeInlinePyCode isAlnum text) tree' ∧
      ∀ env v, value power env tree = some v → IntsExact power env tree →
        value power env tree' = some v := by
  obtain ⟨own, _, builds⟩ := parses
  have first := buildsArithmetic builds arithmetic
  obtain ⟨_, pass⟩ := first.floatPass power .nil (by rwa [append_nil])
  obtain ⟨floated, floatTree, floats, ⟨_, _, builds'⟩, agrees⟩ := pass.sum first.four_le
  have second := buildsArithmetic builds' agrees.arithmetic
  obtain ⟨rounded, intTree, ints, ⟨own', _, builds''⟩, agreesExact⟩ :=
    second.intPass power
  have lexed' := tokenize_sanitizeInlinePyCode isAlnum lexed first.arithmeticTokens floats
    second.arithmeticTokens ints (buildsArithmetic builds'' agreesExact.arithmetic).arithmeticTokens
  refine ⟨intTree, ⟨rounded, lexed', own', Nat.zero_le _, builds''⟩, ?_⟩
  intro env v found exact
  exact agreesExact.sameValue env v (agrees.sameValue env v found) (agrees.exact env v found exact)

end Claim

def wholePower (a b : ℚ) : Option ℚ :=
  if b.den = 1 then
    if a = 0 ∧ b.num < 0 then none else some (a ^ b.num)
  else none

/-- `2*float(x)-int(y)`: the float call ends a right operand. -/
theorem sanitizeInlinePyCode_keepsValue_difference : ∃ tree', ReadsAs
        (sanitizeInlinePyCode (fun _ => false) "2*float(x)-int(y)".toList)
        tree' ∧
      value wholePower (fun name => if name = ['x'] then 1 / 2 else 7 / 2) tree' = some (-2) := by
  let tree : Tree :=
    .binary .sub (.binary .mul (.number ['2']) (.call floatName (.cons (.name ['x']) .nil)))
      (.call intName (.cons (.name ['y']) .nil))
  have lexed : tokenize "2*float(x)-int(y)".toList = some [.number ['2'],
      .op .mul, .name floatName, .lparen, .name ['x'], .rparen, .op .sub,
      .name intName, .lparen, .name ['y'], .rparen] := by decide +kernel
  have parses : Parses [.number ['2'], .op .mul, .name floatName, .lparen,
      .name ['x'], .rparen, .op .sub, .name intName, .lparen, .name ['y'],
      .rparen] tree :=
    ⟨4, by decide, .binary .sub (.binary .mul (.number _) (by decide)
        (.call floatName (.one (.name _))) (by decide)) (by decide)
      (.call intName (.one (.name _))) (by decide)⟩
  have nested : Nested [Token.name ['x']] := .word rfl
  have detached : FloatsDetached [.number ['2'], .op .mul, .name floatName,
      .lparen, .name ['x'], .rparen, .op .sub, .name intName, .lparen,
      .name ['y'], .rparen] :=
    .keep nofun (.keep nofun (.call nested rfl (.keep nofun
      (.keep (by decide) (.keep nofun (.keep nofun (.keep nofun .nil)))))))
  obtain ⟨tree', reads, same⟩ := sanitizeInlinePyCode_keepsValue
    (fun _ => false) wholePower lexed parses rfl detached
  refine ⟨tree', reads, same _ _ (by decide +kernel) ?_⟩
  refine ⟨⟨trivial, trivial⟩, fun a found => Or.inl ?_⟩
  obtain rfl := some.inj found
  decide +kernel

theorem not_keepsMeaning_of_value (env : Text → ℚ) (v : ℚ) {other : Tree}
    (reads : ReadsAs text tree) (arithmetic : isArithmetic tree = true)
    (written : ReadsAs (sanitizeInlinePyCode (fun _ => false) text) other)
    (found : value wholePower env tree = some v) (differs : value wholePower env other ≠ some v) :
    ¬ KeepsMeaning (fun _ => false) wholePower text := by
  intro keeps
  obtain ⟨tree', reads', same⟩ := keeps tree reads arithmetic
  rw [reads'.unique written] at same
  exact differs (same env v found)

/-- `float(x)*2` becomes `(x)+0.0*2`, and `int(x)` becomes `((x)//1)`. -/
theorem not_keepsMeaning_floatFactor :
    ¬ KeepsMeaning (fun _ => false) wholePower "float(x)*2".toList ∧
      ¬ KeepsMeaning (fun _ => false) wholePower "int(x)".toList := by
  constructor
  · have reads : ReadsAs "float(x)*2".toList
        (.binary .mul (.call floatName (.cons (.name ['x']) .nil)) (.number ['2'])) :=
      ⟨_, by decide +kernel, 5, by decide,
        .binary .mul (.call floatName (.one (.name ['x']))) (by decide) (.number ['2']) (by decide)⟩
    have written : ReadsAs (sanitizeInlinePyCode (fun _ => false) "float(x)*2".toList)
        (.binary .add (.name ['x']) (.binary .mul (.number "0.0".toList) (.number ['2']))) :=
      ⟨_, by decide +kernel, 4, by decide, .binary .add (.paren (.name ['x'])) (by decide)
          (.binary .mul (.number _) (by decide) (.number _) (by decide))
          (by decide)⟩
    exact not_keepsMeaning_of_value (fun _ => 1) 2 reads rfl written
      (by decide +kernel) (by decide +kernel)
  · have reads : ReadsAs "int(x)".toList (.call intName (.cons (.name ['x']) .nil)) :=
      ⟨_, by decide +kernel, 8, by decide, .call intName (.one (.name ['x']))⟩
    have written : ReadsAs (sanitizeInlinePyCode (fun _ => false) "int(x)".toList)
        (.binary .floorDiv (.name ['x']) (.number ['1'])) :=
      ⟨_, by decide +kernel, 8, by decide,
        .paren (.binary .floorDiv (.paren (.name ['x'])) (by decide) (.number ['1']) (by decide))⟩
    exact not_keepsMeaning_of_value (fun _ => -1 / 2) 0 reads rfl written
      (by decide +kernel) (by decide +kernel)

end WriterAgent.Calc.Python
