import WriterAgent.Foundations.Dict
import WriterAgent.Foundations.Text

/-!
# The persisted grammar cache

`plugin/writer/locale/grammar_persistence.py`: the results of one document,
keyed by sentence fingerprint alone, the identity of the checker they are
from, and how a cache stored in the document is taken over.
-/

namespace WriterAgent.Locale

open PyText

/-- What an error holds under a key. -/
inductive ErrorValue where
  | int (n : ℤ)
  | str (s : Text)
  | strs (items : List Text)
  deriving DecidableEq

abbrev GrammarError := PyDict Text ErrorValue

def errorKeyMap : List (Text × Text) :=
  [("n_error_start".toList, "s".toList), ("n_error_length".toList, "l".toList),
    ("suggestions".toList, "g".toList),
    ("short_comment".toList, "c".toList),
    ("full_comment".toList, "f".toList),
    ("rule_identifier".toList, "r".toList)]

def longKey (key : Text) : Text :=
  ((errorKeyMap.find? fun entry => entry.2 == key).map Prod.fst).getD key

def decompressError (err : GrammarError) : GrammarError :=
  err.entries.foldl (fun out entry => out.set (longKey entry.1) entry.2) .empty

/-- The configuration that names the active checker: the provider and the
model, where the model can be asked for. -/
structure GrammarSettings where
  provider : Text
  grammarModel : Option Text
  deriving DecidableEq

def llmMark : Text := "llm:".toList

def grammarCheckerIdentity (settings : GrammarSettings) : Text :=
  if settings.provider ∈ ["harper".toList, "languagetool".toList, "vale".toList] then
    settings.provider
  else if settings.provider = "off".toList then "off".toList
  else match settings.grammarModel with
    | some model => llmMark ++ model
    | none => "llm:unknown".toList

def v2LlmPending : Text := "llm".toList

def sniffPrefixes : List (Text × Text) :=
  [("harper||".toList, "harper".toList), ("languagetool||".toList, "languagetool".toList),
    ("vale||".toList, "vale".toList)]

/-- The cache stored in a document: `str` of its model, empty for none, and
the rows that are lists, with the errors that are objects. -/
structure CacheBlob where
  version : ℤ
  model : Text
  good : List Text
  bad : PyDict Text (List GrammarError)
  deriving DecidableEq

def truthy : ErrorValue → Bool
  | .int n => n != 0
  | .str s => !s.isEmpty
  | .strs items => !items.isEmpty

/-- `err.get("r") or err.get("rule_identifier")`. -/
def ruleOf (err : GrammarError) : Option ErrorValue :=
  match (err.get? "r".toList).filter truthy with
  | some rule => some rule
  | none => err.get? "rule_identifier".toList

/-- The text of a number or of a list starts with none of the prefixes. -/
def ruleStartsWith (mark : Text) : Option ErrorValue → Bool
  | some (.str rule) => mark.isPrefixOf rule
  | _ => false

def sniffError (err : GrammarError) : Text :=
  match sniffPrefixes.find? fun entry =>
      ruleStartsWith entry.1 (ruleOf err) with
  | some (_, ident) => ident
  | none => v2LlmPending

def sniffV2CacheIdentity (data : CacheBlob) : Option Text :=
  match (data.bad.entries.flatMap Prod.snd).map sniffError with
  | [] => none
  | first :: others => if others.all (· == first) then some first else none

structure DocumentPersistence where
  entries : PyDict Text (List GrammarError)
  blobIdentity : Option Text
  sessionIdentity : Option Text
  hasModel : Bool
  teardownDone : Bool

def blobRows (data : CacheBlob) : List (Text × List GrammarError) :=
  data.good.map (fun fp => (fp, [])) ++
    data.bad.entries.map fun row => (row.1, row.2.map decompressError)

namespace DocumentPersistence

def init : DocumentPersistence := ⟨.empty, none, none, false, false⟩

def fillEntriesFromPayload (p : DocumentPersistence) (data : CacheBlob) :
    DocumentPersistence :=
  { p with
    entries := (blobRows data).foldl (fun entries row => entries.set row.1 row.2) p.entries }

def takeBlob (p : DocumentPersistence) (blobIdentity : Option Text)
    (loadEntries : Bool) (data : CacheBlob) : DocumentPersistence :=
  let p := { p with blobIdentity := blobIdentity }
  if loadEntries then p.fillEntriesFromPayload data
  else { p with entries := .empty }

def loadFromUdprops (p : DocumentPersistence) (settings : GrammarSettings)
    (raw : Option CacheBlob) : DocumentPersistence :=
  match raw with
  | none => p
  | some data =>
    let current := grammarCheckerIdentity settings
    if 3 ≤ data.version then
      let blobIdentity := if data.model.isEmpty then none else some data.model
      p.takeBlob blobIdentity (blobIdentity == some current) data
    else if data.version = 2 then
      match sniffV2CacheIdentity data with
      | some sniffed =>
        if sniffed = v2LlmPending then
          p.takeBlob (some v2LlmPending) true data
        else p.takeBlob (some sniffed) (sniffed == current) data
      | none => p.takeBlob none false data
    else p

def bindModel (p : DocumentPersistence) (settings : GrammarSettings)
    (raw : Option CacheBlob) : DocumentPersistence :=
  if p.teardownDone || p.hasModel then p
  else { p with hasModel := true }.loadFromUdprops settings raw

/-- `not blob` of an identity. -/
def isFalsy : Option Text → Bool
  | some identity => identity.isEmpty
  | none => true

/-- The instance bound to the identity, and the identity it was switched
from. -/
def ensureIdentity (p : DocumentPersistence) (identity : Text) :
    DocumentPersistence × Option Text :=
  if p.blobIdentity = some v2LlmPending && llmMark.isPrefixOf identity then
    ({ p with
        blobIdentity := some identity
        sessionIdentity := some identity }, none)
  else
    match p.sessionIdentity with
    | none =>
      let p := { p with sessionIdentity := some identity }
      if !isFalsy p.blobIdentity && p.blobIdentity != some v2LlmPending &&
          p.blobIdentity != some identity then
        ({ p with entries := .empty, blobIdentity := some identity }, none)
      else if isFalsy p.blobIdentity then
        ({ p with blobIdentity := some identity }, none)
      else (p, none)
    | some previous =>
      if previous = identity then (p, none)
      else
        ({ p with
            entries := .empty
            sessionIdentity := some identity
            blobIdentity := some identity }, some previous)

def get (p : DocumentPersistence) (fp : Text) : Option (List GrammarError) :=
  if p.teardownDone then none
  else if p.blobIdentity = some v2LlmPending then none
  else if p.sessionIdentity.isSome && p.blobIdentity.isSome &&
      p.sessionIdentity != p.blobIdentity then none
  else p.entries.get? fp

def put (p : DocumentPersistence) (fp : Text) (errors : List GrammarError) :
    DocumentPersistence :=
  if p.teardownDone then p
  else { p with entries := p.entries.set fp errors }

def clear (p : DocumentPersistence) : DocumentPersistence :=
  { p with entries := .empty, blobIdentity := none, sessionIdentity := none }

end DocumentPersistence

/-- The instance of a document, constructed when the registry has none, and
bound to the model when it comes with one. -/
def getPersistence (existing : Option DocumentPersistence)
    (model : Option (GrammarSettings × Option CacheBlob)) :
    DocumentPersistence :=
  let p := existing.getD .init
  match model with
  | none => p
  | some (settings, raw) => p.bindModel settings raw

end WriterAgent.Locale

/-!
## The sentence cache

`plugin/writer/locale/grammar_proofread_cache.py`: the cache of the session
(L1) over the persisted one of a document (L2).  The table of sentence
terminators and the hash are parameters.
-/

namespace WriterAgent.Locale

open PyText

/-- `GRAMMAR_SENTENCE_TERMINATORS` and the digest of `fingerprint_for_text`. -/
structure SentenceRules where
  isTerminator : Char → Bool
  fingerprintForText : Text → Text

/-- A row of L1, with the fields that a lookup reads. -/
structure CachedSentence where
  fp : Text
  errors : List GrammarError

abbrev SentenceCache := PyDict Text CachedSentence

def maxCacheSize : ℕ := 2048

def sanitizeCheckerIdentity (identity : Text) : Text :=
  replaceChar '|' '/' identity

def resolveCheckerIdentity (settings : GrammarSettings) (checkerIdentity : Option Text) : Text :=
  checkerIdentity.getD (grammarCheckerIdentity settings)

/-- The text up to the first of the terminators it ends in; `.` in the
pattern matches no line break. -/
def normalizeForSentenceCache (rules : SentenceRules) (text : Text) : Text :=
  let s := rstripBy isSpace text
  let body := rstripBy rules.isTerminator s
  match s.drop body.length with
  | [] => s
  | terminator :: _ => if '\n' ∈ body then s else body ++ [terminator]

def sentenceIdentityFp (rules : SentenceRules) (sentence : Text) : Text :=
  rules.fingerprintForText (normalizeForSentenceCache rules sentence)

def sentenceCacheKeyPrefix (localeKey ident : Text) : Text :=
  "sent|".toList ++ localeKey ++ "|".toList ++ sanitizeCheckerIdentity ident ++ "|".toList

def makeSentenceKey (rules : SentenceRules) (localeKey sentence ident : Text) :
    Text :=
  sentenceCacheKeyPrefix localeKey ident ++ sentenceIdentityFp rules sentence

/-- `e.get(key, 0)`, which has to be a number to be compared. -/
def intOr0 (key : Text) (e : GrammarError) : Option ℤ :=
  match e.get? key with
  | none => some 0
  | some (.int n) => some n
  | some _ => none

/-- One error clipped, if any of it is left; a `TypeError` is `none`. -/
def clipError (canonicalLen : ℕ) (e : GrammarError) : Option (Option GrammarError) := do
  let start ← intOr0 "n_error_start".toList e
  if (canonicalLen : ℤ) ≤ start then return none
  let length ← intOr0 "n_error_length".toList e
  let effectiveLen := min length (canonicalLen - start)
  if effectiveLen ≤ 0 then return none
  return some (if effectiveLen ≠ length then
      e.set "n_error_length".toList (.int effectiveLen)
    else e)

def clipErrorsToCanonicalLength (errors : List GrammarError)
    (canonicalLen : ℕ) : Option (List GrammarError) :=
  (errors.mapM (clipError canonicalLen)).map (·.filterMap id)

/-- `cache[key] = row` and `move_to_end`. -/
def setLast (cache : SentenceCache) (key : Text) (row : CachedSentence) :
    SentenceCache :=
  (cache.pop key).set key row

/-- The row is last now, and the first rows go when there are too many. -/
def storeSentence (cache : SentenceCache) (key : Text) (row : CachedSentence) : SentenceCache :=
  let stored := setLast cache key row
  ⟨stored.entries.drop (stored.entries.length - maxCacheSize), by
    rw [List.map_drop]
    exact stored.distinct.drop⟩

def evictSentenceCacheForIdentity (cache : SentenceCache)
    (checkerIdentity : Text) : SentenceCache :=
  let needle := "|".toList ++ sanitizeCheckerIdentity checkerIdentity ++ "|".toList
  cache.filterKeys fun key => !decide (needle <:+: key)

def populateMemoryCacheOnly (rules : SentenceRules) (cache : SentenceCache)
    (localeKey sentence : Text) (errors : List GrammarError) (ident : Text) :
    Option (Text × SentenceCache × List GrammarError) := do
  let canon := normalizeForSentenceCache rules sentence
  let fp := rules.fingerprintForText canon
  let key := sentenceCacheKeyPrefix localeKey ident ++ fp
  let clipped ← clipErrorsToCanonicalLength errors canon.length
  return (fp, storeSentence cache key ⟨fp, clipped⟩, clipped)

def memoryHit (rules : SentenceRules) (cache : SentenceCache)
    (localeKey sentence ident : Text) : Option (List GrammarError) :=
  match cache.get? (makeSentenceKey rules localeKey sentence ident) with
  | some hit =>
    if hit.fp = sentenceIdentityFp rules sentence then some hit.errors
    else none
  | none => none

/-- Both caches after a call. -/
structure Caches where
  l1 : SentenceCache
  l2 : DocumentPersistence

def alignPersistenceIdentity (caches : Caches) (ident : Text) : Caches :=
  match caches.l2.ensureIdentity ident with
  | (p, some switched) =>
    ⟨if switched.isEmpty then caches.l1
      else evictSentenceCacheForIdentity caches.l1 switched, p⟩
  | (p, none) => ⟨caches.l1, p⟩

/-- The caches after the call, and its answer; the call raises where a stored
error cannot be clipped. -/
def cacheGetSentence (rules : SentenceRules) (caches : Caches) (localeKey sentence ident : Text) :
    Caches × Option (Option (List GrammarError)) :=
  let key := makeSentenceKey rules localeKey sentence ident
  let fp := sentenceIdentityFp rules sentence
  match memoryHit rules caches.l1 localeKey sentence ident with
  | some errors =>
    let l1 := setLast caches.l1 key ⟨fp, errors⟩
    (alignPersistenceIdentity ⟨l1, caches.l2⟩ ident, some (some errors))
  | none =>
    let aligned := alignPersistenceIdentity caches ident
    match aligned.l2.get fp with
    | some persisted =>
      match populateMemoryCacheOnly rules aligned.l1 localeKey sentence persisted ident with
      | some (_, l1, _) => (⟨l1, aligned.l2⟩, some (some persisted))
      | none => (aligned, none)
    | none => (aligned, some none)

/-- The caches after the call, and the row that L2 was given; the call raises
where an error cannot be clipped. -/
def cachePutSentence (rules : SentenceRules) (caches : Caches)
    (localeKey sentence : Text) (errors : List GrammarError) (ident : Text) :
    Option (Caches × Text × List GrammarError) := do
  let (fp, l1, clipped) ← populateMemoryCacheOnly rules caches.l1 localeKey sentence errors ident
  let aligned := alignPersistenceIdentity ⟨l1, caches.l2⟩ ident
  return (⟨aligned.l1, aligned.l2.put fp clipped⟩, fp, clipped)

end WriterAgent.Locale
