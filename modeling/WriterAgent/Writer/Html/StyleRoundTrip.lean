import WriterAgent.Foundations.DecimalDigit
import WriterAgent.Foundations.JsonReader
import WriterAgent.Foundations.TextCompare

/-!
# Tokens of paragraph styles

`plugin/writer/xhtml_style_postprocess.py` gives a paragraph a token for its
style when a document is read, and `_resolve_paragraph_style_token` of
`plugin/writer/html_import.py` looks the token up among the styles when it is
written back.
-/

namespace WriterAgent.Writer

open PyText

/-- A match of `_([0-9a-fA-F]{2})_` and the character that it stands for. -/
def encodedChar (s : Text) : Option (ℕ × Text) :=
  match s with
  | '_' :: high :: low :: '_' :: _ =>
    match hexDigit? high, hexDigit? low with
    | some _, some _ => some (4, [Char.ofNat (hexValue [high, low])])
    | _, _ => none
  | _ => none

def decodeLoCssClassSuffix (suffix : Text) : Text :=
  substitute (fun _ => encodedChar) none 0 suffix

def compactLoStyleName (name : Text) : Text := removeChar ' ' name

def styleToken (encoded : Text) : Text :=
  compactLoStyleName (decodeLoCssClassSuffix encoded)

/-- `^P\d+$`, which allows a line break at the end. -/
def isAutostyle (name : Text) : Bool :=
  match name with
  | 'P' :: digits =>
    let digits := if digits.getLast? = some '\n' then digits.dropLast
      else digits
    !digits.isEmpty && digits.all isDecimal
  | _ => false

/-- An export: the declarations of its class rules, normalized, and the parents
of its automatic styles, which the flat document gives. -/
structure StyleExport where
  rules : PyDict Text Text
  parents : PyDict Text Text

namespace StyleExport

def paragraphMark : Text := "paragraph-".toList

/-- The rules of named paragraph styles: the decoded name of each, and its
declarations. -/
def namedRules (styles : StyleExport) : List (Text × Text) :=
  styles.rules.entries.filterMap fun rule =>
    if paragraphMark.isPrefixOf rule.1 then
      let suffix := rule.1.drop paragraphMark.length
      if isAutostyle suffix then none
      else some (decodeLoCssClassSuffix suffix, rule.2)
    else none

def namedFingerprint (styles : StyleExport) (norm : Text) : List Text :=
  (styles.namedRules.filter (·.2 == norm)).map (compactLoStyleName ·.1)

def collides (styles : StyleExport) (token : Text) : Bool :=
  let names := (styles.namedRules.filter (compactLoStyleName ·.1 == token)).map Prod.fst
  names.any fun name => names.any (· != name)

/-- The fallback for an automatic style: the only named rule with the
declarations of its class. -/
def fingerprintToken (styles : StyleExport) (suffix : Text) : Option Text :=
  match styles.rules.get? (paragraphMark ++ suffix) with
  | none => none
  | some norm =>
    if norm.isEmpty then none
    else
      match styles.namedFingerprint norm with
      | [token] => if styles.collides token then none else some token
      | _ => none

def paragraphToken (styles : StyleExport) (suffix : Text) : Option Text :=
  if isAutostyle suffix then
    match styles.parents.get? suffix with
    | some parent =>
      if !parent.isEmpty && !styles.collides (styleToken parent) then
        some (styleToken parent)
      else styles.fingerprintToken suffix
    | none => styles.fingerprintToken suffix
  else if styles.collides (styleToken suffix) then none
  else some (styleToken suffix)

end StyleExport

/-- The paragraph styles of a document, whose names are distinct. -/
structure StyleFamily where
  names : List Text
  distinct : names.Nodup

def standardStyle : Text := "Standard".toList

/-- `_resolve_style_name`: the name itself, else the first one that is equal in
lower case. -/
def resolveStyleName (lower : Text → Text) (family : StyleFamily) (styleName : Text) : Text :=
  if family.names.contains styleName then styleName
  else (family.names.find? fun name => lower name == lower styleName).getD styleName

/-- `_resolve_paragraph_style_token`; without a family there is no check. -/
def resolveParagraphStyleToken (lower : Text → Text) (model : StyleFamily)
    (family : Option StyleFamily) (token : Text) : Text :=
  match family with
  | none => resolveStyleName lower model token
  | some family =>
    match family.names.filter fun name =>
        name == token || compactLoStyleName name == token with
    | [name] => name
    | _ :: _ :: _ => standardStyle
    | [] =>
      let resolved := resolveStyleName lower model token
      if family.names.contains resolved then resolved else standardStyle

end WriterAgent.Writer

/-!
## Paragraph styles read and written back

The reader judges a token by the styles of the export, the writer by all styles
of the document.
-/

namespace WriterAgent.Writer

open PyText

/-- A paragraph of an export: the style that its class is for, or the automatic
style whose parent the flat document gives. -/
structure StyledParagraph (encode : Text → Text) (styles : StyleExport) (family : StyleFamily) where
  suffix : Text
  style : Text
  member : style ∈ family.names
  given : suffix = encode style ∨ isAutostyle suffix = true ∧
      styles.parents.get? suffix = some (encode style)

/-- A token that is read for the paragraph is written as its style. -/
def StyledParagraph.RoundTrips {encode : Text → Text} {styles : StyleExport} {family : StyleFamily}
    (paragraph : StyledParagraph encode styles family) (lower : Text → Text) : Prop :=
  ∀ token, styles.paragraphToken paragraph.suffix = some token →
    resolveParagraphStyleToken lower family (some family) token = paragraph.style

/-- The writer takes a token for a style: it is that style's own and no other's;
or it is that of two styles, and the style is `Standard`; or it is no style's,
and the style is the first with this name in lower case, or `Standard` if there
is none. -/
def TokenMeans (lower : Text → Text) (family : StyleFamily) (token style : Text) : Prop :=
  (compactLoStyleName style = token ∧
    ∀ other ∈ family.names, compactLoStyleName other = token → other = style) ∨
  (style = standardStyle ∧ ∃ first ∈ family.names, ∃ second ∈ family.names,
    first ≠ second ∧ compactLoStyleName first = token ∧ compactLoStyleName second = token) ∨
  ((∀ other ∈ family.names, compactLoStyleName other ≠ token) ∧
    (family.names.find? fun other => lower other == lower token).getD standardStyle = style)

theorem compactLoStyleName_idem (name : Text) :
    compactLoStyleName (compactLoStyleName name) = compactLoStyleName name := by
  rw [compactLoStyleName, compactLoStyleName, removeChar, removeChar, List.filter_filter]
  simp only [Bool.and_self]

theorem styleToken_compact (encoded : Text) :
    compactLoStyleName (styleToken encoded) = styleToken encoded :=
  compactLoStyleName_idem _

variable {token : Text} {styles : StyleExport}

theorem mem_candidates_iff {family : StyleFamily} {token : Text}
    (compact : compactLoStyleName token = token) {name : Text} :
    name ∈ (family.names.filter fun name =>
        name == token || compactLoStyleName name == token) ↔
      name ∈ family.names ∧ compactLoStyleName name = token := by
  rw [List.mem_filter, Bool.or_eq_true, beq_iff_eq, beq_iff_eq]
  refine and_congr_right fun _ => ⟨fun owns => ?_, .inr⟩
  rcases owns with same | own
  · rw [same, compact]
  · exact own

/-- **The writer.** A token is resolved to a style of the document exactly when
it means that style. -/
theorem resolve_eq_iff {lower : Text → Text} {family : StyleFamily} {style : Text}
    (compact : compactLoStyleName token = token) (member : style ∈ family.names) :
    resolveParagraphStyleToken lower family (some family) token = style ↔
      TokenMeans lower family token style := by
  have owners := fun name => @mem_candidates_iff family token compact name
  have distinct := family.distinct.filter fun name =>
    name == token || compactLoStyleName name == token
  rw [resolveParagraphStyleToken]
  cases candidates : family.names.filter fun name =>
      name == token || compactLoStyleName name == token with
  | nil =>
    rw [candidates] at owners
    have none : ∀ other ∈ family.names, compactLoStyleName other ≠ token :=
      fun other inside own => absurd ((owners other).mpr ⟨inside, own⟩) nofun
    have absent : token ∉ family.names := fun inside => none token inside compact
    have resolved : (if family.names.contains (resolveStyleName lower family token) then
        resolveStyleName lower family token else standardStyle) =
        (family.names.find? fun other => lower other == lower token).getD
          standardStyle := by
      have insensitive : resolveStyleName lower family token =
          (family.names.find? fun other => lower other == lower token).getD
            token :=
        if_neg fun contains => absent (List.contains_iff_mem.mp contains)
      rw [insensitive]
      cases found : family.names.find? fun other =>
          lower other == lower token with
      | none => exact if_neg fun contains => absent (List.contains_iff_mem.mp contains)
      | some name => exact if_pos (List.contains_iff_mem.mpr (List.mem_of_find?_eq_some found))
    rw [resolved]
    constructor
    · exact fun same => .inr (.inr ⟨none, same⟩)
    · rintro (⟨own, -⟩ | ⟨-, first, inside, -, -, -, own, -⟩ | ⟨-, same⟩)
      · exact absurd own (none style member)
      · exact absurd own (none first inside)
      · exact same
  | cons first rest =>
    have isFirst := (owners first).mp (by
      rw [candidates]
      exact List.mem_cons_self)
    cases rest with
    | nil =>
      have only : ∀ other ∈ family.names, compactLoStyleName other = token → other = first := by
        intro other inside own
        have listed := (owners other).mpr ⟨inside, own⟩
        rw [candidates] at listed
        exact List.mem_singleton.mp listed
      constructor
      · intro same
        subst same
        exact .inl ⟨isFirst.2, only⟩
      · rintro (⟨own, -⟩ | ⟨-, one, inOne, two, inTwo, different, ownOne, ownTwo⟩ | ⟨none, -⟩)
        · exact (only style member own).symm
        · exact absurd ((only one inOne ownOne).trans (only two inTwo ownTwo).symm) different
        · exact absurd isFirst.2 (none first isFirst.1)
    | cons second rest =>
      have isSecond := (owners second).mp (by
        rw [candidates]
        exact List.mem_cons_of_mem _ List.mem_cons_self)
      have different : first ≠ second := by
        rw [candidates] at distinct
        exact fun same => (List.nodup_cons.mp distinct).1 (same ▸ List.mem_cons_self)
      constructor
      · intro same
        exact .inr (.inl ⟨same.symm, first, isFirst.1, second, isSecond.1,
          different, isFirst.2, isSecond.2⟩)
      · rintro (⟨-, only⟩ | ⟨same, -⟩ | ⟨none, -⟩)
        · exact absurd ((only first isFirst.1 isFirst.2).trans
            (only second isSecond.1 isSecond.2).symm) different
        · exact same.symm
        · exact absurd isFirst.2 (none first isFirst.1)

/-- The tokens that the reader can give for a class mean the style: the token
of the class, or of the parent of an automatic style, unless two named rules
share it; and otherwise, for an automatic style, the token of the only named
rule with the declarations of the class. -/
structure StyledParagraph.Fits {encode : Text → Text} {styles : StyleExport} {family : StyleFamily}
    (paragraph : StyledParagraph encode styles family) (lower : Text → Text) : Prop where
  named : isAutostyle paragraph.suffix = false →
    styles.collides (styleToken paragraph.suffix) = false →
      TokenMeans lower family (styleToken paragraph.suffix) paragraph.style
  parent : isAutostyle paragraph.suffix = true →
    ∀ parent ∈ styles.parents.get? paragraph.suffix, parent ≠ [] →
      styles.collides (styleToken parent) = false →
        TokenMeans lower family (styleToken parent) paragraph.style
  fingerprint : isAutostyle paragraph.suffix = true →
    (∀ parent ∈ styles.parents.get? paragraph.suffix, parent ≠ [] →
      styles.collides (styleToken parent) = true) →
    ∀ norm ∈ styles.rules.get? (StyleExport.paragraphMark ++ paragraph.suffix), norm ≠ [] →
      ∀ token, styles.namedFingerprint norm = [token] → styles.collides token = false →
          TokenMeans lower family token paragraph.style

theorem compact_of_mem_namedFingerprint {norm : Text}
    (member : token ∈ styles.namedFingerprint norm) :
    compactLoStyleName token = token := by
  obtain ⟨rule, -, rfl⟩ := List.mem_map.mp member
  exact compactLoStyleName_idem _

theorem fingerprintToken_eq_some_iff {suffix : Text} : styles.fingerprintToken suffix = some token ↔
      ∃ norm ∈ styles.rules.get? (StyleExport.paragraphMark ++ suffix),
        norm ≠ [] ∧ styles.namedFingerprint norm = [token] ∧ styles.collides token = false := by
  rw [StyleExport.fingerprintToken]
  cases styles.rules.get? (StyleExport.paragraphMark ++ suffix) with
  | none => exact ⟨nofun, fun ⟨_, impossible, _⟩ => absurd impossible nofun⟩
  | some norm =>
    simp only [Option.mem_some_iff, exists_eq_left']
    cases norm with
    | nil => exact ⟨nofun, fun holds => absurd rfl holds.1⟩
    | cons c rest =>
      simp only [List.isEmpty_cons, Bool.false_eq_true, if_false, ne_eq,
        reduceCtorEq, not_false_eq_true, true_and]
      cases styles.namedFingerprint (c :: rest) with
      | nil => exact ⟨nofun, fun holds => absurd holds.1 nofun⟩
      | cons first others =>
        cases others with
        | cons second more => exact ⟨nofun, fun holds => absurd holds.1 nofun⟩
        | nil =>
          simp only [List.cons.injEq, and_true]
          cases shared : styles.collides first with
          | true =>
            refine ⟨nofun, fun holds => ?_⟩
            rw [← holds.1, shared] at holds
            exact absurd holds.2 nofun
          | false =>
            simp only [Bool.false_eq_true, if_false, Option.some.injEq]
            refine ⟨fun same => ?_, fun holds => holds.1⟩
            exact ⟨same, same ▸ shared⟩

/-- **Styles read and written.** Whatever token a paragraph is read with is
written as its style exactly when the tokens that its class can be read with
mean this style. -/
theorem styledParagraph_roundTrips_iff {encode : Text → Text}
    {styles : StyleExport} {family : StyleFamily} (lower : Text → Text)
    (paragraph : StyledParagraph encode styles family) :
    paragraph.RoundTrips lower ↔ paragraph.Fits lower := by
  have means : ∀ {token}, compactLoStyleName token = token →
      (resolveParagraphStyleToken lower family (some family) token =
          paragraph.style ↔ TokenMeans lower family token paragraph.style) :=
    fun compact => resolve_eq_iff compact paragraph.member
  have fingerprints : (∀ token, styles.fingerprintToken paragraph.suffix = some token →
        resolveParagraphStyleToken lower family (some family) token = paragraph.style) ↔
      ∀ norm ∈ styles.rules.get? (StyleExport.paragraphMark ++ paragraph.suffix), norm ≠ [] →
        ∀ token, styles.namedFingerprint norm = [token] → styles.collides token = false →
            TokenMeans lower family token paragraph.style := by
    constructor
    · intro resolves norm isNorm notEmpty token only alone
      have compact : compactLoStyleName token = token :=
        compact_of_mem_namedFingerprint (only ▸ List.mem_cons_self)
      exact (means compact).mp (resolves token
        (fingerprintToken_eq_some_iff.mpr ⟨norm, isNorm, notEmpty, only, alone⟩))
    · intro fits token found
      obtain ⟨norm, isNorm, notEmpty, only, alone⟩ :=
        fingerprintToken_eq_some_iff.mp found
      have compact : compactLoStyleName token = token :=
        compact_of_mem_namedFingerprint (only ▸ List.mem_cons_self)
      exact (means compact).mpr (fits norm isNorm notEmpty token only alone)
  rw [StyledParagraph.RoundTrips]
  simp only [StyleExport.paragraphToken]
  cases automatic : isAutostyle paragraph.suffix with
  | false =>
    cases shared : styles.collides (styleToken paragraph.suffix) with
    | true => exact ⟨fun _ => ⟨fun _ alone => absurd (alone.symm.trans shared)
        Bool.false_ne_true, fun auto => absurd (automatic.symm.trans auto) Bool.false_ne_true,
        fun auto => absurd (automatic.symm.trans auto) Bool.false_ne_true⟩, fun _ => by rintro _ ⟨⟩⟩
    | false =>
      simp only [Bool.false_eq_true, if_false, Option.some.injEq, forall_eq']
      rw [means (styleToken_compact _)]
      exact ⟨fun holds => ⟨fun _ _ => holds, fun auto => absurd (automatic.symm.trans auto) Bool.false_ne_true,
        fun auto => absurd (automatic.symm.trans auto) Bool.false_ne_true⟩,
        fun fits => fits.named automatic shared⟩
  | true =>
    simp only [if_true]
    cases given : styles.parents.get? paragraph.suffix with
    | none =>
      rw [fingerprints]
      constructor
      · intro holds
        refine ⟨fun named => absurd (named.symm.trans automatic) Bool.false_ne_true,
          fun _ parent isParent => ?_, fun _ _ => holds⟩
        cases given.symm.trans isParent
      · intro fits
        apply fits.fingerprint automatic
        rintro parent isParent
        cases given.symm.trans isParent
    | some parent =>
      have only : ∀ other ∈ styles.parents.get? paragraph.suffix,
          other = parent := fun other isOther =>
        (Option.some.inj (given.symm.trans isOther)).symm
      dsimp only
      by_cases used : parent ≠ [] ∧ styles.collides (styleToken parent) = false
      · have first : (!parent.isEmpty && !styles.collides (styleToken parent)) = true := by
          rw [Bool.and_eq_true, Bool.not_eq_true', Bool.not_eq_true']
          exact ⟨List.isEmpty_eq_false_iff.mpr used.1, used.2⟩
        rw [if_pos first]
        simp only [Option.some.injEq, forall_eq']
        rw [means (styleToken_compact _)]
        constructor
        · intro holds
          refine ⟨fun named => absurd (named.symm.trans automatic) Bool.false_ne_true,
            fun _ other isOther _ _ => only other isOther ▸ holds,
            fun _ shared => ?_⟩
          exact absurd (used.2.symm.trans (shared parent given used.1)) Bool.false_ne_true
        · exact fun fits => fits.parent automatic parent given used.1 used.2
      · have second : ¬ (!parent.isEmpty && !styles.collides (styleToken parent)) = true := by
          rw [Bool.and_eq_true, Bool.not_eq_true', Bool.not_eq_true', List.isEmpty_eq_false_iff]
          exact used
        rw [if_neg second, fingerprints]
        constructor
        · intro holds
          refine ⟨fun named => absurd (named.symm.trans automatic) Bool.false_ne_true,
            fun _ other isOther notEmpty alone => ?_, fun _ _ => holds⟩
          rw [only other isOther] at notEmpty alone
          exact absurd ⟨notEmpty, alone⟩ used
        · intro fits
          apply fits.fingerprint automatic
          intro other isOther notEmpty
          rw [only other isOther] at notEmpty ⊢
          by_contra alone
          rw [Bool.not_eq_true] at alone
          exact used ⟨notEmpty, alone⟩

/-- The encoding of names whose only special characters are spaces. -/
def encodeSpaces (name : Text) : Text :=
  name.flatMap fun c => if c == ' ' then "_20_".toList else [c]

/-- A style with a space and one without, of which the export has the first. -/
def spacedExport : StyleExport where
  rules := .ofPairs [("paragraph-Heading_20_1".toList, "color: #000".toList)]
  parents := .empty

def spacedFamily : StyleFamily :=
  ⟨["Standard".toList, "Heading 1".toList, "Heading1".toList], by decide⟩

def spacedHeading : StyledParagraph encodeSpaces spacedExport spacedFamily where
  suffix := "Heading_20_1".toList
  style := "Heading 1".toList
  member := by decide
  given := .inl (by decide)

/-- The heading is read with its token and written as `Standard`. -/
theorem spacedHeading_lost : ¬ ∀ (encode : Text → Text) (styles : StyleExport)
    (family : StyleFamily) (paragraph : StyledParagraph encode styles family),
    paragraph.RoundTrips Lowercase.ascii.lower := by
  intro roundTrips
  have resolved := roundTrips encodeSpaces spacedExport spacedFamily
    spacedHeading "Heading1".toList (by decide +kernel)
  revert resolved
  decide +kernel

end WriterAgent.Writer
