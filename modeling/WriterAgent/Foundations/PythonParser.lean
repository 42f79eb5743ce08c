import WriterAgent.Foundations.PythonLexer

/-!
# A parser for Python expressions

Precedence climbing: after an operand the parser looks for an operator that is
tight enough for the place and whose left operand may be as loose as the
operand is.
-/

namespace PyGrammar

open List

abbrev Parsed (α : Type) := Option (α × List Token)

mutual

def parseExpr : Nat → Nat → List Token → Parsed Tree
  | 0, _, _ => none
  | fuel + 1, level, tokens =>
    match tokens with
    | .name function :: .lparen :: rest =>
      match parseItems fuel .rparen rest with
      | some (args, rest) => parseOps fuel level 8 (.call function args) rest
      | none => none
    | .name object :: .lbracket :: rest =>
      match parseExpr fuel 0 rest with
      | some (index, .rbracket :: rest) => parseOps fuel level 8 (.item object index) rest
      | _ => none
    | .name text :: rest => parseOps fuel level 8 (.name text) rest
    | .number text :: rest => parseOps fuel level 8 (.number text) rest
    | .lparen :: rest =>
      match parseExpr fuel 0 rest with
      | some (tree, .rparen :: rest) => parseOps fuel level 8 tree rest
      | _ => none
    | .lbracket :: rest =>
      match parseItems fuel .rbracket rest with
      | some (items, rest) => parseOps fuel level 8 (.list items) rest
      | none => none
    | .op .sub :: rest => parseUnary fuel level .neg rest
    | .op .add :: rest => parseUnary fuel level .pos rest
    | .kwNot :: rest => parseUnary fuel level .not rest
    | _ => none

def parseUnary : Nat → Nat → UnOp → List Token → Parsed Tree
  | 0, _, _, _ => none
  | fuel + 1, level, op, tokens =>
    if level ≤ op.level then
      match parseExpr fuel op.level tokens with
      | some (operand, rest) => parseOps fuel level op.level (.unary op operand) rest
      | none => none
    else none

def parseOps : Nat → Nat → Nat → Tree → List Token → Parsed Tree
  | 0, _, _, _, _ => none
  | fuel + 1, level, own, left, tokens =>
    match tokens with
    | .op op :: rest =>
      if level ≤ op.level ∧ op.leftLevel ≤ own then
        match parseExpr fuel op.rightLevel rest with
        | some (right, rest) => parseOps fuel level op.level (.binary op left right) rest
        | none => none
      else some (left, tokens)
    | .kwIf :: rest =>
      if level = 0 ∧ 1 ≤ own then
        match parseExpr fuel 1 rest with
        | some (test, .kwElse :: rest) =>
          match parseExpr fuel 0 rest with
          | some (orElse, rest) => parseOps fuel level 0 (.ifElse left test orElse) rest
          | none => none
        | _ => none
      else some (left, tokens)
    | _ => some (left, tokens)

def parseItems : Nat → Token → List Token → Parsed Trees
  | 0, _, _ => none
  | fuel + 1, close, tokens =>
    if tokens.head? = some close then some (.nil, tokens.tail)
    else
      match parseExpr fuel 0 tokens with
      | some (tree, .comma :: rest) =>
        match parseItems fuel close rest with
        | some (.cons next later, rest) => some (.cons tree (.cons next later), rest)
        | _ => none
      | some (tree, token :: rest) => if token = close then some (.cons tree .nil, rest) else none
      | _ => none

end

/-! ## Completeness

The parser takes fuel, so what it finds is stated for all large amounts. -/

def Eventually {α : Type} (result : Nat → α) (value : α) : Prop :=
  ∃ bound, ∀ fuel, bound ≤ fuel → result fuel = value

variable {α β : Type} {rest tokens : List Token} {own level : Nat}
  {close : Token} {tree left : Tree} {op : BinOp} {value : Parsed Tree}
  {result : Nat → α}

theorem Eventually.unique {left right : α} (first : Eventually result left)
    (second : Eventually result right) : left = right := by
  obtain ⟨bound, reaches⟩ := first
  obtain ⟨bound', reaches'⟩ := second
  exact (reaches (max bound bound') (Nat.le_max_left _ _)).symm.trans
    (reaches' (max bound bound') (Nat.le_max_right _ _))

theorem Eventually.step {next : Nat → β} {value : α} {reached : β} (known : Eventually next reached)
    (steps : ∀ fuel, next fuel = reached → result (fuel + 1) = value) :
    Eventually result value := by
  obtain ⟨bound, reaches⟩ := known
  refine ⟨bound + 1, ?_⟩
  intro fuel enough
  cases fuel with
  | zero => omega
  | succ fuel => exact steps fuel (reaches fuel (by omega))

theorem Eventually.and {result' : Nat → β} {value : α} {value' : β}
    (first : Eventually result value) (second : Eventually result' value') :
    Eventually (fun fuel => (result fuel, result' fuel)) (value, value') := by
  obtain ⟨bound, reaches⟩ := first
  obtain ⟨bound', reaches'⟩ := second
  refine ⟨max bound bound', ?_⟩
  intro fuel enough
  exact Prod.ext (reaches fuel (by omega)) (reaches' fuel (by omega))

/-- What may follow an expression of its own level inside a larger one. -/
def Follows (own : Nat) : List Token → Prop
  | [] => True
  | .op op :: _ => op.leftLevel ≤ own
  | .kwIf :: _ => 1 ≤ own
  | .rparen :: _ => True
  | .rbracket :: _ => True
  | .comma :: _ => True
  | .kwElse :: _ => True
  | _ => False

/-- No operator that is tight enough for the level follows. -/
def Stops (level : Nat) : List Token → Prop
  | .op op :: _ => op.level < level
  | .kwIf :: _ => 0 < level
  | _ => True

theorem parseOps_of_stops (stops : Stops level rest) :
    Eventually (fun fuel => parseOps fuel level own tree rest) (some (tree, rest)) := by
  refine ⟨1, ?_⟩
  intro fuel enough
  cases fuel with
  | zero => omega
  | succ fuel =>
    simp only
    unfold parseOps
    split
    · rename_i op later
      rw [if_neg]
      exact fun both => absurd stops (Nat.not_lt.mpr both.1)
    · rename_i later
      rw [if_neg]
      exact fun both => absurd stops (by rw [both.1]; exact Nat.lt_irrefl 0)
    · rfl

theorem Follows.stops (follows : Follows own rest)
    (looser : ∀ next : BinOp, next.leftLevel ≤ own → next.level < level)
    (conditional : 1 ≤ own → 0 < level) : Stops level rest := by
  cases rest with
  | nil => trivial
  | cons token later =>
    cases token with
    | op next => exact looser next follows
    | kwIf => exact conditional follows
    | _ => trivial

theorem Follows.stops_right (follows : Follows op.level rest) : Stops op.rightLevel rest := by
  apply follows.stops
  · intro next
    cases op <;> cases next <;> decide
  · intro _
    cases op <;> exact Nat.succ_pos _

theorem Follows.stops_unary {op : UnOp} (follows : Follows op.level rest) :
    Stops op.level rest := by
  apply follows.stops
  · intro next
    cases op <;> cases next <;> decide
  · exact id

theorem not_leftLevel_zero (next : BinOp) : ¬ next.leftLevel ≤ 0 := by
  cases next <;> decide

theorem Follows.stops_zero (follows : Follows 0 rest) : Stops 0 rest :=
  follows.stops (fun next bound => absurd bound (not_leftLevel_zero next)) id

theorem Follows.mono {other : Nat} (follows : Follows own rest)
    (looser : ∀ next : BinOp, next.leftLevel ≤ own → next.leftLevel ≤ other)
    (conditional : 1 ≤ own → 1 ≤ other) : Follows other rest := by
  cases rest with
  | nil => trivial
  | cons token later =>
    cases token with
    | op next => exact looser next follows
    | kwIf => exact conditional follows
    | _ => exact follows

theorem Follows.orElse (follows : Follows 0 rest) (own : Nat) : Follows own rest :=
  follows.mono (fun next bound => absurd bound (not_leftLevel_zero next)) nofun

/-- A closing bracket of a call or a list. -/
def IsClose (token : Token) : Prop := token = .rparen ∨ token = .rbracket

theorem IsClose.follows (isClose : IsClose close) (own : Nat)
    (rest : List Token) : Follows own (close :: rest) := by
  rcases isClose with rfl | rfl <;> trivial

theorem stops_kwElse (rest : List Token) : Stops 1 (.kwElse :: rest) := trivial

theorem IsClose.stops (isClose : IsClose close) (level : Nat)
    (rest : List Token) : Stops level (close :: rest) := by
  rcases isClose with rfl | rfl <;> trivial

theorem Builds.head_not_close : ∀ {level : Nat} {tokens : List Token}
    {tree : Tree}, Builds level tokens tree → ∀ {close : Token},
      IsClose close → tokens.head? ≠ some close
  | _, _, _, .name _, _, isClose | _, _, _, .number _, _, isClose
  | _, _, _, .paren _, _, isClose | _, _, _, .call _ _, _, isClose
  | _, _, _, .item _ _, _, isClose | _, _, _, .list _, _, isClose => by
    rcases isClose with rfl | rfl <;> simp
  | _, _, _, .unary op _ _, _, isClose => by
    rcases isClose with rfl | rfl <;> cases op <;> simp [UnOp.token]
  | _, _, _, .binary _ left _ _ _, _, isClose => by
    rw [List.head?_append_of_ne_nil _ left.ne_nil]
    exact left.head_not_close isClose
  | _, _, _, .ifElse body _ _ _ _, _, isClose => by
    rw [List.head?_append_of_ne_nil _ body.ne_nil]
    exact body.head_not_close isClose

theorem Follows.unary {op : UnOp} (follows : Follows op.level rest)
    (bound : op.level ≤ own) : Follows own rest :=
  follows.mono (fun _ tight => Nat.le_trans tight bound)
    (fun positive => Nat.le_trans positive bound)

theorem Follows.right (follows : Follows op.level rest)
    (bound : op.rightLevel ≤ own) : Follows own rest := by
  have looser : ∀ next : BinOp, next.leftLevel ≤ op.level → next.leftLevel ≤ op.rightLevel := by
    intro next
    cases op <;> cases next <;> decide
  have positive : 1 ≤ op.rightLevel := by cases op <;> decide
  exact follows.mono (fun next tight => Nat.le_trans (looser next tight) bound)
    (fun _ => Nat.le_trans positive bound)

theorem parseOps_binary {right : Tree} {rightTokens : List Token}
    (within : level ≤ op.level) (leftBound : op.leftLevel ≤ own)
    (operand : Eventually (fun fuel => parseExpr fuel op.rightLevel (rightTokens ++ rest))
      (some (right, rest))) (later : Eventually
      (fun fuel => parseOps fuel level op.level (.binary op left right) rest)
      value) :
    Eventually (fun fuel =>
        parseOps fuel level own left (.op op :: (rightTokens ++ rest)))
      value := by
  apply (operand.and later).step
  intro fuel reaches
  obtain ⟨parsed, reached⟩ := Prod.mk.inj reaches
  simp only [parseOps, if_pos (And.intro within leftBound), parsed]
  exact reached

theorem parseOps_ifElse {body test orElse : Tree}
    {testTokens orElseTokens : List Token} (bodyBound : 1 ≤ own)
    (tested : Eventually (fun fuel => parseExpr fuel 1
        (testTokens ++ .kwElse :: (orElseTokens ++ rest)))
      (some (test, .kwElse :: (orElseTokens ++ rest)))) (other : Eventually
      (fun fuel => parseExpr fuel 0 (orElseTokens ++ rest))
      (some (orElse, rest))) (later : Eventually
      (fun fuel => parseOps fuel 0 0 (.ifElse body test orElse) rest) value) :
    Eventually (fun fuel => parseOps fuel 0 own body
        (.kwIf :: (testTokens ++ .kwElse :: (orElseTokens ++ rest))))
      value := by
  apply (tested.and (other.and later)).step
  intro fuel reaches
  obtain ⟨testParsed, reaches⟩ := Prod.mk.inj reaches
  obtain ⟨orElseParsed, reached⟩ := Prod.mk.inj reaches
  simp only [parseOps, true_and, if_pos bodyBound, testParsed, orElseParsed]
  exact reached

theorem parseExpr_unary {op : UnOp} {operand : Tree} (within : level ≤ op.level)
    (parsed : Eventually (fun fuel => parseExpr fuel op.level (tokens ++ rest))
      (some (operand, rest))) (later : Eventually
      (fun fuel => parseOps fuel level op.level (.unary op operand) rest)
      value) :
    Eventually (fun fuel => parseExpr fuel level (op.token :: tokens ++ rest)) value := by
  have signed : Eventually (fun fuel => parseUnary fuel level op (tokens ++ rest)) value := by
    apply (parsed.and later).step
    intro fuel reaches
    obtain ⟨read, reached⟩ := Prod.mk.inj reaches
    simp only [parseUnary, if_pos within, read]
    exact reached
  apply signed.step
  intro fuel reaches
  cases op with
  | neg | pos | not =>
    simp only [UnOp.token, cons_append, parseExpr]
    exact reaches

theorem parseItems_one (isClose : IsClose close)
    (head : tokens.head? ≠ some close) (nonempty : tokens ≠ [])
    (parsed : Eventually (fun fuel => parseExpr fuel 0 (tokens ++ close :: rest))
      (some (tree, close :: rest))) :
    Eventually (fun fuel => parseItems fuel close (tokens ++ close :: rest))
      (some (.cons tree .nil, rest)) := by
  apply parsed.step
  intro fuel reaches
  have differs : ¬ (tokens ++ close :: rest).head? = some close := by
    rw [List.head?_append_of_ne_nil _ nonempty]
    exact head
  simp only [parseItems, if_neg differs, reaches]
  rcases isClose with rfl | rfl <;> rfl

theorem parseItems_cons {next : Tree} {later : Trees} {restTokens : List Token}
    (head : tokens.head? ≠ some close) (nonempty : tokens ≠ [])
    (parsed : Eventually (fun fuel => parseExpr fuel 0
        (tokens ++ .comma :: (restTokens ++ close :: rest)))
      (some (tree, .comma :: (restTokens ++ close :: rest)))) (items : Eventually
      (fun fuel => parseItems fuel close (restTokens ++ close :: rest))
      (some (.cons next later, rest))) :
    Eventually (fun fuel => parseItems fuel close
        (tokens ++ .comma :: (restTokens ++ close :: rest)))
      (some (.cons tree (.cons next later), rest)) := by
  apply (parsed.and items).step
  intro fuel reaches
  obtain ⟨first, others⟩ := Prod.mk.inj reaches
  have differs : ¬ (tokens ++ .comma :: (restTokens ++ close :: rest)).head? = some close := by
    rw [List.head?_append_of_ne_nil _ nonempty]
    exact head
  simp only [parseItems, if_neg differs, first, others]

mutual

theorem Builds.parseExpr_append : ∀ {own : Nat} {tokens : List Token}
    {tree : Tree}, Builds own tokens tree → ∀ {level : Nat}, level ≤ own →
    ∀ {rest : List Token}, Follows own rest → ∀ {value : Parsed Tree},
      Eventually (fun fuel => parseOps fuel level own tree rest) value →
        Eventually (fun fuel => parseExpr fuel level (tokens ++ rest)) value
  | _, _, _, .name text, level, _, rest, follows, value, later => by
    apply later.step
    intro fuel reaches
    cases rest with
    | nil =>
      simp only [append_nil, parseExpr]
      exact reaches
    | cons token rest =>
      cases token with
      | lparen | lbracket => exact follows.elim
      | _ =>
        simp only [cons_append, nil_append, parseExpr]
        exact reaches
  | _, _, _, .number text, level, _, rest, _, value, later => by
    apply later.step
    intro fuel reaches
    simp only [cons_append, nil_append, parseExpr]
    exact reaches
  | _, _, _, .paren inner, level, _, rest, _, value, later => by
    have stops : Stops 0 (Token.rparen :: rest) := trivial
    have inside := inner.parseExpr_append (Nat.zero_le _)
      (show Follows _ (.rparen :: rest) from trivial)
      (parseOps_of_stops stops)
    apply (inside.and later).step
    intro fuel reaches
    obtain ⟨parsed, reached⟩ := Prod.mk.inj reaches
    simp only [cons_append, append_assoc, nil_append, parseExpr, parsed]
    exact reached
  | _, _, _, .call function items, level, _, rest, _, value, later => by
    have inside := items.parseItems_append (Or.inl rfl) rest
    apply (inside.and later).step
    intro fuel reaches
    obtain ⟨parsed, reached⟩ := Prod.mk.inj reaches
    simp only [cons_append, append_assoc, nil_append, parseExpr, parsed]
    exact reached
  | _, _, _, .item object inner, level, _, rest, _, value, later => by
    have stops : Stops 0 (Token.rbracket :: rest) := trivial
    have inside := inner.parseExpr_append (Nat.zero_le _)
      (show Follows _ (.rbracket :: rest) from trivial)
      (parseOps_of_stops stops)
    apply (inside.and later).step
    intro fuel reaches
    obtain ⟨parsed, reached⟩ := Prod.mk.inj reaches
    simp only [cons_append, append_assoc, nil_append, parseExpr, parsed]
    exact reached
  | _, _, _, .list items, level, _, rest, _, value, later => by
    have inside := items.parseItems_append (Or.inr rfl) rest
    apply (inside.and later).step
    intro fuel reaches
    obtain ⟨parsed, reached⟩ := Prod.mk.inj reaches
    simp only [cons_append, append_assoc, nil_append, parseExpr, parsed]
    exact reached
  | _, _, _, .unary op inner bound, level, within, rest, follows, value, later => by
    have operand := inner.parseExpr_append bound (follows.unary bound)
      (parseOps_of_stops follows.stops_unary)
    exact parseExpr_unary within operand later
  | _, _, _, .binary op left leftBound right rightBound, level, within, rest,
      follows, value, later => by
      have operand := right.parseExpr_append rightBound
        (follows.right rightBound) (parseOps_of_stops follows.stops_right)
      have tight : op.level ≤ op.leftLevel := by cases op <;> decide
      rw [append_assoc, cons_append]
      exact left.parseExpr_append (within.trans (tight.trans leftBound))
        (show Follows _ (.op op :: _) from leftBound)
        (parseOps_binary within leftBound operand later)
  | _, _, _, .ifElse body bodyBound test testBound orElse, level, within, rest,
      follows, value, later => by
      obtain rfl := Nat.le_zero.mp within
      have other := orElse.parseExpr_append (Nat.zero_le _)
        (follows.orElse _) (parseOps_of_stops follows.stops_zero)
      rw [append_assoc, cons_append, append_assoc, cons_append]
      apply body.parseExpr_append (Nat.zero_le _)
      · exact bodyBound
      · apply parseOps_ifElse bodyBound
        · apply test.parseExpr_append testBound
          · trivial
          · exact parseOps_of_stops (stops_kwElse _)
        · exact other
        · exact later

theorem BuildsItems.parseItems_append : ∀ {tokens : List Token}
    {trees : Trees}, BuildsItems tokens trees → ∀ {close : Token},
    IsClose close → ∀ rest : List Token, Eventually
        (fun fuel => parseItems fuel close (tokens ++ close :: rest))
        (some (trees, rest))
  | _, _, .nil, close, _, rest => by
    refine ⟨1, ?_⟩
    intro fuel enough
    cases fuel with
    | zero => omega
    | succ fuel => simp only [nil_append, parseItems, List.head?_cons, if_true, tail_cons]
  | _, _, .one inner, close, isClose, rest => by
    apply parseItems_one isClose (inner.head_not_close isClose) inner.ne_nil
    exact inner.parseExpr_append (Nat.zero_le _) (isClose.follows _ _)
      (parseOps_of_stops (isClose.stops _ _))
  | _, _, .cons inner items, close, isClose, rest => by
    rw [append_assoc, cons_append]
    apply parseItems_cons (inner.head_not_close isClose) inner.ne_nil
    · exact inner.parseExpr_append (Nat.zero_le _) (show Follows _ (.comma :: _) from trivial)
        (parseOps_of_stops trivial)
    · exact items.parseItems_append isClose rest

end

/-- **The grammar is unambiguous.** -/
theorem Parses.unique {right : Tree} (first : Parses tokens left)
    (second : Parses tokens right) : left = right := by
  have reads : ∀ {tree}, Parses tokens tree →
      Eventually (fun fuel => parseExpr fuel 0 tokens) (some (tree, [])) := by
    intro tree parses
    obtain ⟨own, _, builds⟩ := parses
    have found := builds.parseExpr_append (Nat.zero_le own)
      (show Follows own [] from trivial) (parseOps_of_stops trivial)
    rwa [append_nil] at found
  exact congrArg Prod.fst (Option.some.inj ((reads first).unique (reads second)))

theorem ReadsAs.unique {text : List Char} {right : Tree}
    (first : ReadsAs text left) (second : ReadsAs text right) :
    left = right := by
  obtain ⟨tokens, lexed, parses⟩ := first
  obtain ⟨tokens', lexed', parses'⟩ := second
  obtain rfl := Option.some.inj (lexed.symm.trans lexed')
  exact parses.unique parses'

end PyGrammar
