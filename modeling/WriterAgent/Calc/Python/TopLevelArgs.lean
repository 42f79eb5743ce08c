import WriterAgent.Calc.Python.Attachment

/-!
# The arguments a user wrote

Calc separates the arguments of a call at semicolons and commas outside
parentheses and quotes.  The pass reads them with a plain split instead.
-/

namespace WriterAgent.Calc.Python

open PyText List

inductive QuoteMode where
  | plain
  | single
  | double
deriving Repr, DecidableEq

/-- Where a scan stands: inside which quotes, and inside how many
parentheses. -/
abbrev ScanState := QuoteMode × Nat

def topState : ScanState := (.plain, 0)

/-- One character that is no top-level separator; `none` for a parenthesis
that closes nothing. -/
def scanStep (c : Char) : ScanState → Option ScanState
  | (.single, depth) => some (if c = '\'' then .plain else .single, depth)
  | (.double, depth) => some (if c = '"' then .plain else .double, depth)
  | (.plain, depth) =>
    if c = '\'' then some (.single, depth)
    else if c = '"' then some (.double, depth)
    else if c = '(' then some (.plain, depth + 1)
    else if c = ')' then
      match depth with
      | 0 => none
      | depth + 1 => some (.plain, depth)
    else some (.plain, depth)

/-- The pieces between top-level separators; `none` unless every parenthesis
and quote is closed at the end. -/
def topLevelPieces : ScanState → Text → Option (List Text)
  | state, [] => if state = topState then some [[]] else none
  | state, c :: rest =>
    if state = topState && isDataSeparator c then
      (topLevelPieces topState rest).map ([] :: ·)
    else
      (scanStep c state).bind fun next =>
        (topLevelPieces next rest).map (List.modifyHead (c :: ·))

/-- The arguments of a data suffix, which ends in the call's parenthesis. -/
def topLevelArgs (dataSuffix : Text) : Option (List Text) :=
  match dataSuffix.dropLast with
  | [] => some []
  | _ :: body => (topLevelPieces topState body).map (List.map strip)

/-- A text that scans back to the top without a separator on the way. -/
def ClosesFrom : ScanState → Text → Prop
  | state, [] => state = topState
  | state, c :: rest =>
    ¬ (state = topState ∧ isDataSeparator c = true) ∧
      ∃ next, scanStep c state = some next ∧ ClosesFrom next rest

variable {state : ScanState} {c : Char} {s piece spaces argument : Text} {pieces user : List Text}

theorem topLevelPieces_of_closes (closes : ClosesFrom state piece) :
    topLevelPieces state piece = some [piece] := by
  induction piece generalizing state with
  | nil => simp [topLevelPieces, show state = topState from closes]
  | cons c rest ih =>
    obtain ⟨goes, next, step, later⟩ := closes
    have goes' : ¬ (decide (state = topState) && isDataSeparator c) = true := by simpa using goes
    rw [topLevelPieces, if_neg goes', step, Option.bind_some, ih later]
    rfl

theorem topLevelPieces_append (closes : ClosesFrom state piece) {separator : Char}
    (isSeparator : isDataSeparator separator = true) (rest : Text) :
    topLevelPieces state (piece ++ separator :: rest) =
      (topLevelPieces topState rest).map (piece :: ·) := by
  induction piece generalizing state with
  | nil =>
    rw [show state = topState from closes]
    simp [topLevelPieces, isSeparator]
  | cons c tail ih =>
    obtain ⟨goes, next, step, later⟩ := closes
    have goes' : ¬ (decide (state = topState) && isDataSeparator c) = true := by simpa using goes
    rw [cons_append, topLevelPieces, if_neg goes', step, Option.bind_some, ih later, Option.map_map]
    rfl

theorem topLevelPieces_join (nonempty : pieces ≠ [])
    (closed : ∀ piece ∈ pieces, ClosesFrom topState piece) :
    topLevelPieces topState (join ';' pieces) = some pieces := by
  induction pieces with
  | nil => exact absurd rfl nonempty
  | cons piece rest ih =>
    have first := closed piece mem_cons_self
    cases rest with
    | nil => simpa using topLevelPieces_of_closes first
    | cons next rest =>
      have tail := ih (by simp) fun later member =>
        closed later (mem_cons_of_mem _ member)
      rw [join_cons_cons, topLevelPieces_append first (by decide), tail]
      rfl

theorem topLevelPieces_spec (found : topLevelPieces state s = some pieces) :
    ∃ first rest, pieces = first :: rest ∧ ClosesFrom state first ∧
      (∀ piece ∈ rest, ClosesFrom topState piece) ∧
      replaceChar ';' ',' s = join ',' (pieces.map (replaceChar ';' ',')) := by
  induction s generalizing state pieces with
  | nil =>
    rw [topLevelPieces] at found
    split at found
    · rename_i atTop
      obtain rfl := Option.some.inj found
      exact ⟨[], [], rfl, atTop, by simp, rfl⟩
    · simp at found
  | cons c rest ih =>
    rw [topLevelPieces] at found
    split at found
    · rename_i stops
      simp only [Bool.and_eq_true, decide_eq_true_eq] at stops
      rw [Option.map_eq_some_iff] at found
      obtain ⟨later, laterFound, rfl⟩ := found
      obtain ⟨first, others, rfl, closes, closed, joined⟩ := ih laterFound
      refine ⟨[], first :: others, rfl, stops.1, ?_, ?_⟩
      · intro piece member
        rcases mem_cons.mp member with rfl | inOthers
        · exact closes
        · exact closed piece inOthers
      · have comma : replaceChar ';' ',' (c :: rest) = ',' :: replaceChar ';' ',' rest := by
          have either : c = ';' ∨ c = ',' := by simpa [isDataSeparator] using stops.2
          rcases either with rfl | rfl <;> simp [replaceChar]
        rw [comma, joined]
        simp [replaceChar]
    · rename_i goes
      rw [Option.bind_eq_some_iff] at found
      obtain ⟨next, step, found⟩ := found
      rw [Option.map_eq_some_iff] at found
      obtain ⟨later, laterFound, rfl⟩ := found
      obtain ⟨first, others, rfl, closes, closed, joined⟩ := ih laterFound
      refine ⟨c :: first, others, rfl, ⟨by simpa using goes, next, step, closes⟩, closed, ?_⟩
      have consed : ∀ s : Text, replaceChar ';' ',' (c :: s) =
          (if c == ';' then ',' else c) :: replaceChar ';' ',' s :=
        fun s => rfl
      rw [consed, joined]
      cases others with
      | nil | cons => simp [consed]

theorem scanStep_of_isSpace (space : isSpace c = true) (state : ScanState) :
    scanStep c state = some state := by
  have different : ∀ d, isSpace d = false → c ≠ d := by
    rintro d visible rfl
    simp [space] at visible
  obtain ⟨mode, depth⟩ := state
  cases mode <;>
    simp [scanStep, different '\'' (by decide), different '"' (by decide),
      different '(' (by decide), different ')' (by decide)]

theorem closesFrom_append_left (all : ∀ c ∈ spaces, isSpace c = true)
    (closes : ClosesFrom state (spaces ++ s)) : ClosesFrom state s := by
  induction spaces with
  | nil => exact closes
  | cons c rest ih =>
    obtain ⟨_, next, step, later⟩ := closes
    rw [scanStep_of_isSpace (all c mem_cons_self)] at step
    obtain rfl := Option.some.inj step
    exact ih (fun d member => all d (mem_cons_of_mem _ member)) later

theorem closesFrom_append_right (all : ∀ c ∈ spaces, isSpace c = true)
    (closes : ClosesFrom state (s ++ spaces)) : ClosesFrom state s := by
  induction s generalizing state with
  | nil =>
    rw [← append_nil spaces] at closes
    exact closesFrom_append_left all closes
  | cons c rest ih =>
    obtain ⟨goes, next, step, later⟩ := closes
    exact ⟨goes, next, step, ih later⟩

theorem closesFrom_strip (closes : ClosesFrom topState piece) :
    ClosesFrom topState (strip piece) := by
  obtain ⟨front, back, split, allFront, allBack⟩ := strip_split piece
  rw [split] at closes
  have inner := closesFrom_append_right allBack closes
  exact closesFrom_append_left allFront inner

theorem closesFrom_of_isA1 {ref : Text} (attached : isA1 ref = true) : ClosesFrom topState ref := by
  have chars := isA1_chars attached
  clear attached
  induction ref with
  | nil => rfl
  | cons c rest ih =>
    have plain := chars c mem_cons_self
    have other : ∀ d, isA1Char d = false → c ≠ d :=
      fun d notPlain => ne_of_isA1Char plain notPlain
    refine ⟨?_, topState, ?_, ih fun d member =>
      chars d (mem_cons_of_mem _ member)⟩
    · simp [isDataSeparator, other ';' rfl, other ',' rfl]
    · simp [scanStep, topState, other '\'' rfl, other '"' rfl, other '(' rfl, other ')' rfl]

theorem topLevelPieces_ends (found : topLevelPieces state s = some pieces) :
    (∀ first, pieces.head? = some first → first <+: s) ∧
      ∀ last, pieces.getLast? = some last → last <:+ s := by
  induction s generalizing state pieces with
  | nil =>
    rw [topLevelPieces] at found
    split at found
    · obtain rfl := Option.some.inj found
      simp
    · simp at found
  | cons c rest ih =>
    rw [topLevelPieces] at found
    split at found
    · rw [Option.map_eq_some_iff] at found
      obtain ⟨later, laterFound, rfl⟩ := found
      obtain ⟨_, lastEnds⟩ := ih laterFound
      obtain ⟨first, others, rfl, _⟩ := topLevelPieces_spec laterFound
      constructor
      · intro piece head
        cases head
        exact nil_prefix
      · intro last lastEq
        exact (lastEnds last lastEq).trans (suffix_cons _ _)
    · rw [Option.bind_eq_some_iff] at found
      obtain ⟨next, _, found⟩ := found
      rw [Option.map_eq_some_iff] at found
      obtain ⟨later, laterFound, rfl⟩ := found
      obtain ⟨firstStarts, lastEnds⟩ := ih laterFound
      obtain ⟨first, others, rfl, _⟩ := topLevelPieces_spec laterFound
      constructor
      · intro piece head
        cases head
        exact cons_prefix_cons.mpr ⟨rfl, firstStarts first rfl⟩
      · intro last lastEq
        cases others with
        | nil =>
          obtain rfl : c :: first = last := by simpa using lastEq
          have whole : first = rest := by
            obtain ⟨_, _, piecesEq, _, _, joined⟩ :=
              topLevelPieces_spec laterFound
            have sameLength := congrArg List.length joined
            obtain ⟨before, split⟩ := lastEnds first rfl
            simp only [map_cons, map_nil, join_singleton,
              replaceChar, length_map] at sameLength
            rw [← split, length_append] at sameLength
            have empty : before = [] := by
              apply eq_nil_of_length_eq_zero
              omega
            rw [← split, empty, nil_append]
          rw [whole]
        | cons second others =>
          exact (lastEnds last (by
            exact lastEq)).trans (suffix_cons _ _)

def naiveSplit (user : List Text) : List Text :=
  user.flatMap fun argument => argument.splitOn ';'

section Reading

variable {sep : Char} {body : Text} {pieces : List Text}

theorem splitOn_body (found : topLevelPieces topState body = some pieces) :
    ((replaceChar ';' ',' (strip body)).splitOn ',').map strip =
      (pieces.map strip).flatMap fun argument =>
        ((replaceChar ';' ',' argument).splitOn ',').map strip := by
  obtain ⟨first, rest, rfl, _, _, joined⟩ := topLevelPieces_spec found
  have semicolon : isSpace ';' = false := by decide
  have comma : isSpace ',' = false := by decide
  rw [← strip_replaceChar semicolon comma, map_strip_splitOn_strip comma,
    joined, splitOn_join ',' (by simp), map_flatMap, flatMap_map,
    flatMap_map]
  congr 1
  funext piece
  rw [← strip_replaceChar semicolon comma, map_strip_splitOn_strip comma]

theorem splitOn_argument (plain : ∀ token ∈ argument.splitOn ';', DataToken token) :
    ((replaceChar ';' ',' argument).splitOn ',').map strip = argument.splitOn ';' := by
  have joined := replaceChar_join fun token member =>
    (plain token member).notSeparator.1
  rw [join_splitOn] at joined
  have pieces := splitOn_intercalate ',' (fun token member => (plain token member).notSeparator.2)
    (splitOn_ne_nil ';' argument)
  rw [joined, join, pieces, map_congr_left (g := id), map_id]
  intro token member
  exact strip_eq_self (plain token member).trimmed

theorem naiveSplit_plain (plain : ∀ token ∈ naiveSplit user, DataToken token) :
    (user.flatMap fun argument =>
      ((replaceChar ';' ',' argument).splitOn ',').map strip) = naiveSplit user := by
  rw [flatMap_def]
  congr 1
  apply map_congr_left
  intro argument member
  apply splitOn_argument
  intro token inArgument
  exact plain token (mem_flatMap.mpr ⟨argument, member, inArgument⟩)

theorem argument_ends (plain : ∀ token ∈ naiveSplit user, DataToken token)
    (member : argument ∈ user) :
    argument ≠ [] ∧ ∀ c, argument.head? = some c → isDataSeparator c = false := by
  have tokens : ∀ token ∈ argument.splitOn ';', DataToken token :=
    fun token inArgument =>
      plain token (mem_flatMap.mpr ⟨argument, member, inArgument⟩)
  rw [← join_splitOn ';' argument]
  exact ⟨join_ne_nil (splitOn_ne_nil _ _) fun token inArgument =>
    (tokens token inArgument).nonempty, join_head_plain tokens⟩

theorem strip_body_ends (found : topLevelPieces topState body = some pieces)
    (plain : ∀ token ∈ naiveSplit (pieces.map strip), DataToken token) :
    strip body ≠ [] ∧ (∀ c, (strip body).head? = some c → isDataSeparator c = false) ∧
      (strip body).head? = (join ';' (pieces.map strip)).head? ∧
      (strip body).getLast? = (join ';' (pieces.map strip)).getLast? := by
  obtain ⟨starts, ends⟩ := topLevelPieces_ends found
  obtain ⟨first, rest, rfl, _⟩ := topLevelPieces_spec found
  obtain ⟨firstNonempty, firstHead⟩ := argument_ends plain
    (show strip first ∈ (first :: rest).map strip by simp)
  obtain ⟨front, last, whole⟩ : ∃ front last, first :: rest = front ++ [last] :=
    ⟨_, _, (dropLast_append_getLast (by simp)).symm⟩
  have lastNonempty := (argument_ends plain
    (show strip last ∈ (first :: rest).map strip by simp [whole])).1
  obtain ⟨after, bodyStart⟩ :=
    strip_isPrefix (starts first rfl) firstNonempty
  obtain ⟨before, bodyEnd⟩ :=
    strip_isSuffix (ends last (by simp [whole])) lastNonempty
  have headEq : (strip body).head? = (strip first).head? := by
    rw [← bodyStart, List.head?_append_of_ne_nil _ firstNonempty]
  refine ⟨?_, ?_, ?_, ?_⟩
  · rw [← bodyStart]
    simp [firstNonempty]
  · rw [headEq]
    exact firstHead
  · rw [headEq, map_cons, join_head? rfl firstNonempty]
  · rw [whole, map_append, map_singleton, join_getLast? lastNonempty,
      ← bodyEnd, List.getLast?_append_of_ne_nil _ lastNonempty]

theorem readDataArgs_of_readable (separator : isDataSeparator sep = true)
    (found : topLevelPieces topState body = some pieces)
    (readable : Readable (naiveSplit (pieces.map strip))) :
    readDataArgs (sep :: (body ++ [')'])) = naiveSplit (pieces.map strip) := by
  have plain := readable.plain
  obtain ⟨nonempty, front, headEq, lastEq⟩ := strip_body_ends found plain
  have joined : join ';' (naiveSplit (pieces.map strip)) =
      join ';' (pieces.map strip) := join_flatMap_splitOn _ _
  have notClosed := readable.notClosed
  have notBracketed := readable.notBracketed
  rw [joined, ← lastEq] at notClosed
  rw [joined, ← lastEq, ← headEq] at notBracketed
  have unbracketed : unbracket (strip body) = strip body := by
    rw [unbracket, if_neg]
    simpa using notBracketed
  have keepNonempty : ((naiveSplit (pieces.map strip)).filter fun part =>
      !part.isEmpty) = naiveSplit (pieces.map strip) := by
    rw [filter_eq_self]
    intro token member
    simp [(plain token member).nonempty]
  have keepUnquoted : ((naiveSplit (pieces.map strip)).filter fun part =>
      !part.contains '"') = naiveSplit (pieces.map strip) := by
    rw [filter_eq_self]
    intro token member
    have absent : '"' ∉ token := fun inToken =>
      ((plain token member).plain _ inToken).2 rfl
    simp [absent]
  rw [readDataArgs, formatDataBindingDisplay_closed separator nonempty front notClosed]
  simp only [parseDataBindingText, strip_strip, unbracketed]
  rw [if_neg (by simpa using nonempty), splitOn_body found,
    naiveSplit_plain plain, keepNonempty, keepUnquoted]

/-- A visible character that separates nothing. -/
structure Kept (c : Char) : Prop where
  visible : isSpace c = false
  notSemicolon : c ≠ ';'
  notComma : c ≠ ','

theorem Kept.count_strip (kept : Kept c) (s : Text) : (strip s).count c = s.count c := by
  obtain ⟨front, back, split, allFront, allBack⟩ := strip_split s
  have none : ∀ spaces : Text, (∀ d ∈ spaces, isSpace d = true) → spaces.count c = 0 := by
    intro spaces all
    rw [count_eq_zero]
    intro member
    have space := all c member
    simp [kept.visible] at space
  conv_rhs => rw [split]
  rw [count_append, count_append, none front allFront, none back allBack]
  omega

theorem Kept.count_replaceChar (kept : Kept c) (s : Text) :
    (replaceChar ';' ',' s).count c = s.count c := by
  rw [count_eq_countP, replaceChar, countP_map]
  apply countP_congr
  intro d _
  by_cases semicolon : d = ';'
  · subst semicolon
    simp [Ne.symm kept.notSemicolon, Ne.symm kept.notComma]
  · simp [semicolon]

theorem Kept.count_flatten_map_strip (kept : Kept c) (pieces : List Text) :
    (pieces.map strip).flatten.count c = pieces.flatten.count c := by
  induction pieces with
  | nil => rfl
  | cons piece rest ih => simp [count_append, kept.count_strip, ih]

theorem Kept.count_parseDataBindingText (kept : Kept c) (text : Text) :
    (parseDataBindingText text).flatten.count c ≤ (unbracket (strip text)).count c := by
  unfold parseDataBindingText
  simp only
  split
  · simp
  · have filtered : ∀ (keep : Text → Bool) (tokens : List Text),
        (tokens.filter keep).flatten.count c ≤ tokens.flatten.count c := by
      intro keep tokens
      induction tokens with
      | nil => simp
      | cons token rest ih =>
        rw [filter_cons]
        split <;> simp only [flatten_cons, count_append] <;> omega
    refine (filtered _ _).trans ((filtered _ _).trans ?_)
    rw [kept.count_flatten_map_strip, count_flatten_splitOn kept.notComma, kept.count_replaceChar]

theorem Kept.count_body (kept : Kept c) (found : topLevelPieces topState body = some pieces) :
    (join ';' (pieces.map strip)).count c = body.count c := by
  obtain ⟨first, rest, rfl, _, _, joined⟩ := topLevelPieces_spec found
  have mapped : ∀ texts : List Text, (texts.map (replaceChar ';' ',')).flatten.count c =
        texts.flatten.count c := by
    intro texts
    induction texts with
    | nil => rfl
    | cons text rest ih => simp [count_append, kept.count_replaceChar, ih]
  have counted := congrArg (List.count c) joined
  rw [kept.count_replaceChar, count_join kept.notComma, mapped] at counted
  rw [count_join kept.notSemicolon, kept.count_flatten_map_strip, counted]

theorem formatDataBindingDisplay_last (dataSuffix : Text) :
    ∀ c, (formatDataBindingDisplay dataSuffix).getLast? = some c → isSpace c = false ∧ c ≠ ')' := by
  intro c last
  have fixed := displayRound_formatDataBindingDisplay dataSuffix
  generalize formatDataBindingDisplay dataSuffix = s at fixed last
  have notClosed : (c == ')') = false := by
    have roundLast : (displayRound s).getLast? = some c := by rw [fixed, last]
    exact @rstripBy_last (· == ')') _ c roundLast
  have shorter : (displayRound s).length ≤ (strip s).length :=
    (rstripBy_isPrefix _ _).length_le.trans (lstripBy_isSuffix _ _).length_le
  have trimmed : strip s = s := by
    apply (strip_isInfix s).eq_of_length
    rw [fixed] at shorter
    exact le_antisymm (strip_isInfix s).length_le shorter
  rw [← trimmed] at last
  exact ⟨(strip_trimmed s).back c last, by simpa using notClosed⟩

theorem isInfix_of_last {drop : Char → Prop} {inner front back : Text} (all : ∀ c ∈ back, drop c)
    (last : ∀ c, inner.getLast? = some c → ¬ drop c)
    (isInfix : inner <:+: front ++ back) : inner <:+: front := by
  induction back using List.reverseRecOn with
  | nil => simpa using isInfix
  | append_singleton back c ih =>
    apply ih fun d member => all d (by simp [member])
    rw [← append_assoc, infix_concat_iff] at isInfix
    rcases isInfix with suffix | inside
    · rcases eq_nil_or_concat inner with rfl | ⟨start, d, rfl⟩
      · exact nil_infix
      · exfalso
        obtain ⟨before, whole⟩ := suffix
        have same : d = c := by
          have lasts := congrArg List.getLast? whole
          simpa using lasts
        exact last d (by simp) (same ▸ all c (by simp))
    · exact inside

theorem readable_of_readDataArgs (separator : isDataSeparator sep = true)
    (found : topLevelPieces topState body = some pieces)
    (plain : ∀ token ∈ naiveSplit (pieces.map strip), DataToken token)
    (read : readDataArgs (sep :: (body ++ [')'])) = naiveSplit (pieces.map strip)) :
    Readable (naiveSplit (pieces.map strip)) := by
  have joined : join ';' (naiveSplit (pieces.map strip)) =
      join ';' (pieces.map strip) := join_flatMap_splitOn _ _
  obtain ⟨nonempty, front, headEq, lastEq⟩ := strip_body_ends found plain
  -- Whatever the reader strips off is missing from the count of its tokens.
  have bound : ∀ c, Kept c → body.count c ≤ (unbracket (strip
      (formatDataBindingDisplay (sep :: (body ++ [')']))))).count c := by
    intro c kept
    have counted := kept.count_parseDataBindingText
      (formatDataBindingDisplay (sep :: (body ++ [')'])))
    change (readDataArgs (sep :: (body ++ [')']))).flatten.count c ≤ _ at counted
    rwa [read, ← count_join kept.notSemicolon, joined, kept.count_body found] at counted
  have notClosed : (strip body).getLast? ≠ some ')' := by
    intro last
    have closing : Kept ')' := ⟨by decide, by decide, by decide⟩
    obtain ⟨before, after, split, _, allAfter⟩ := strip_split body
    have strippedSplit := dropLast_append_getLast? _ last
    have whole : sep :: (body ++ [')']) = (sep :: (before ++ (strip body).dropLast)) ++
          (')' :: (after ++ [')'])) := by
      conv_lhs => rw [split, ← strippedSplit]
      simp
    let Dropped : Char → Prop := fun c => isSpace c = true ∨ c = ')'
    have tail : ∀ c ∈ ')' :: (after ++ [')']), Dropped c := by
      intro c member
      simp only [mem_cons, mem_append, not_mem_nil, or_false] at member
      rcases member with rfl | inAfter | rfl
      · exact Or.inr rfl
      · exact Or.inl (allAfter c inAfter)
      · exact Or.inr rfl
    have displayed := displayLoop_isInfix
      ((sep :: (body ++ [')'])).length + 1) (sep :: (body ++ [')']))
    rw [← formatDataBindingDisplay, whole] at displayed
    have inside := isInfix_of_last tail (fun c lastEq dropped => by
      have ends := formatDataBindingDisplay_last _ c lastEq
      rcases dropped with space | closed
      · simp [ends.1] at space
      · exact ends.2 closed) displayed
    have fewer := (((unbracket_isInfix _).trans (strip_isInfix _)).trans
      inside).sublist.count_le ')'
    rw [← whole] at fewer
    have notSep : sep ≠ ')' := by
      rintro rfl
      simp [isDataSeparator] at separator
    have total : body.count ')' = before.count ')' + (strip body).dropLast.count ')' + 1 +
          after.count ')' := by
      conv_lhs => rw [split, ← strippedSplit]
      simp [count_append]
      omega
    rw [count_cons_of_ne notSep, count_append] at fewer
    have least := bound ')' closing
    omega
  refine ⟨plain, ?_, ?_⟩
  · rw [joined, ← lastEq]
    exact notClosed
  · rw [joined, ← lastEq, ← headEq]
    rintro ⟨head, last⟩
    have opening : Kept '[' := ⟨by decide, by decide, by decide⟩
    have least := bound '[' opening
    rw [formatDataBindingDisplay_closed separator nonempty front notClosed,
      strip_strip, ← opening.count_strip body] at least
    obtain ⟨rest, bodyEq⟩ := List.head?_eq_some_iff.mp head
    have opened : unbracket (strip body) = strip ((strip body).dropLast.drop 1) := by
      simp [unbracket, head, last]
    have inner : (strip ((strip body).dropLast.drop 1)).count '[' ≤ rest.count '[' := by
      rw [opening.count_strip, bodyEq]
      apply List.Sublist.count_le
      rw [drop_one, tail_dropLast]
      exact ( dropLast_prefix rest).sublist
    rw [opened] at least
    rw [bodyEq, count_cons_self] at least
    rw [bodyEq] at inner
    omega

end Reading

end WriterAgent.Calc.Python
