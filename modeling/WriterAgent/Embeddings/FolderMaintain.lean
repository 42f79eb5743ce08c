import Mathlib
import WriterAgent.Foundations.Dict
import WriterAgent.Foundations.Text
import WriterAgent.Foundations.UniqueTable

/-!
# The chunks of a file and the tables of `corpus.db`

`plugin/embeddings/embeddings_fs.py`, `embeddings_split.py` and
`venv/embeddings_sqlite.py`: a file is cut into passages and these into
chunks, and `corpus.db` keeps one row for each chunk and one time stamp for
each file.  The extractors, the sentence splitter and SHA-256 are parameters;
so is the order in which SQLite returns the rows of a `SELECT` that has none.
Neither the vectors nor the full text index are modelled: the chunks table
does not depend on them.
-/

namespace WriterAgent.Embeddings

open PyText List

variable {Url Content Time : Type}

/-- Where a chunk stands: its file, its passage and its span in the passage. -/
structure Locator (Url : Type) where
  docUrl : Url
  paraIndex : Nat
  charStart : Nat
  charEnd : Nat
deriving DecidableEq

structure ParagraphChunk (Url : Type) extends Locator Url where
  text : Text
  contentHash : Text
deriving DecidableEq

/-- A passage of a file with the spans that the splitter cuts it in. -/
structure Passage where
  text : Text
  spans : List (Nat × Nat)
deriving DecidableEq

/-- A row of the table `chunks`. -/
structure ChunkRow (Url : Type) extends Locator Url where
  contentHash : Text
  body : Text
deriving DecidableEq

/-- What the index takes from outside: the passages of a file, the digest and
the order in which a `SELECT` returns its rows. -/
structure Environment (Url Content : Type) where
  passages : Content → List Passage
  sha256 : Text → Text
  select : List (ChunkRow Url) → List (ChunkRow Url)
  /-- A digest has 64 hexadecimal digits. -/
  sha256_ne : ∀ text, sha256 text ≠ []
  select_perm : ∀ rows, (select rows).Perm rows

variable (env : Environment Url Content)

def contentHash (text : Text) : Text := env.sha256 (strip text)

def metaChunksFromSpans (passage : Passage) : List (Nat × Nat × Text) :=
  passage.spans.filterMap fun (charStart, charEnd) =>
    let piece := (passage.text.take charEnd).drop charStart
    if strip piece = [] then none else some (charStart, charEnd, piece)

def chunkOfPiece (docUrl : Url) (paraIndex : Nat) (piece : Nat × Nat × Text) :
    Option (ParagraphChunk Url) :=
  let text := strip piece.2.2
  if text = [] then none
  else some
    { docUrl, paraIndex
      charStart := piece.1
      charEnd := if piece.2.1 = 0 then text.length else piece.2.1
      text
      contentHash := contentHash env text }

def chunksOfPassage (docUrl : Url) (paraIndex : Nat) (passage : Passage) :
    List (ParagraphChunk Url) :=
  if strip passage.text = [] then []
  else (metaChunksFromSpans passage).filterMap (chunkOfPiece env docUrl paraIndex)

/-- `indexable_chunks_from_path`. -/
def indexableChunks (docUrl : Url) (content : Content) : List (ParagraphChunk Url) :=
  (env.passages content).zipIdx.flatMap fun (passage, paraIndex) =>
    chunksOfPassage env docUrl paraIndex passage

variable {env}
variable {docUrl : Url} {chunk : ParagraphChunk Url} {row : ChunkRow Url}
  {content : Content} {locator : Locator Url}

theorem chunkOfPiece_eq_some {paraIndex : Nat} {passage : Passage} {piece : Nat × Nat × Text}
    (kept : piece ∈ metaChunksFromSpans passage)
    (made : chunkOfPiece env docUrl paraIndex piece = some chunk) :
    chunk = { docUrl, paraIndex, charStart := piece.1, charEnd := piece.2.1
              text := strip ((passage.text.take piece.2.1).drop piece.1)
              contentHash := env.sha256 (strip ((passage.text.take piece.2.1).drop piece.1)) } ∧
      strip ((passage.text.take piece.2.1).drop piece.1) ≠ [] := by
  rw [metaChunksFromSpans, mem_filterMap] at kept
  obtain ⟨⟨charStart, charEnd⟩, -, isPiece⟩ := kept
  dsimp only at isPiece
  by_cases blank : strip ((passage.text.take charEnd).drop charStart) = []
  · rw [if_pos blank] at isPiece
    cases isPiece
  · rw [if_neg blank] at isPiece
    cases isPiece
    have inside : charEnd ≠ 0 := by
      rintro rfl
      exact blank (by simp)
    rw [chunkOfPiece] at made
    rw [if_neg blank, if_neg inside, contentHash, strip_strip] at made
    exact ⟨(Option.some.inj made).symm, blank⟩

/-- What is known of a chunk of a file. -/
structure ChunkOf (env : Environment Url Content) (docUrl : Url) (content : Content)
    (chunk : ParagraphChunk Url) : Prop where
  docUrl_eq : chunk.docUrl = docUrl
  trimmed : strip chunk.text = chunk.text
  text_ne : chunk.text ≠ []
  hash_eq : chunk.contentHash = env.sha256 chunk.text
  charEnd_ne : chunk.charEnd ≠ 0
  cut : ∃ passage, (env.passages content)[chunk.paraIndex]? = some passage ∧
    chunk.text = strip ((passage.text.take chunk.charEnd).drop chunk.charStart)

theorem chunkOf_of_mem (member : chunk ∈ indexableChunks env docUrl content) :
    ChunkOf env docUrl content chunk := by
  rw [indexableChunks, mem_flatMap] at member
  obtain ⟨⟨passage, paraIndex⟩, indexed, inPassage⟩ := member
  rw [mem_zipIdx_iff_getElem?] at indexed
  dsimp only [chunksOfPassage] at inPassage
  split_ifs at inPassage with blank
  · cases inPassage
  · obtain ⟨piece, kept, made⟩ := mem_filterMap.mp inPassage
    obtain ⟨rfl, text_ne⟩ := chunkOfPiece_eq_some kept made
    refine ⟨rfl, strip_strip _, text_ne, rfl, ?_, passage, indexed, rfl⟩
    intro atStart
    dsimp only at atStart
    rw [atStart] at text_ne
    exact text_ne (by simp)

theorem chunk_eq_of_locator {other : ParagraphChunk Url}
    (member : chunk ∈ indexableChunks env docUrl content)
    (isOther : other ∈ indexableChunks env docUrl content)
    (same : chunk.toLocator = other.toLocator) : chunk = other := by
  have facts := chunkOf_of_mem member
  have others := chunkOf_of_mem isOther
  obtain ⟨passage, indexed, cut⟩ := facts.cut
  obtain ⟨passage', indexed', cut'⟩ := others.cut
  obtain ⟨⟨url, index, start, stop⟩, text, hash⟩ := chunk
  obtain ⟨⟨url', index', start', stop'⟩, text', hash'⟩ := other
  cases same
  rw [indexed'] at indexed
  cases indexed
  have sameText : text = text' := cut.trans cut'.symm
  have sameHash : hash = hash' :=
    facts.hash_eq.trans ((congrArg _ sameText).trans others.hash_eq.symm)
  rw [sameText, sameHash]

/-- `UNIQUE(doc_url, para_index, char_start, char_end, content_hash)`. -/
def ChunkRow.key (row : ChunkRow Url) : Locator Url × Text :=
  (row.toLocator, row.contentHash)

abbrev ChunksTable (Url : Type) := UniqueTable (@ChunkRow.key Url)

/-- A row of the table `indexed_files`. -/
structure FileStamp (Time : Type) where
  fileMtime : Time
  lastIndexedAt : Time
deriving DecidableEq

/-- The tables of `corpus.db`, `indexed_files` by its primary key, with the
count of chunks in `corpus_meta.json`. -/
structure Corpus (Url Time : Type) where
  chunks : ChunksTable Url
  indexedFiles : Url → Option (FileStamp Time)
  chunkCount : Nat

/-- The folder has no `corpus.db`. -/
def Corpus.missing : Corpus Url Time where
  chunks := UniqueTable.empty
  indexedFiles := fun _ => none
  chunkCount := 0

variable [DecidableEq Url]

def deleteByChunkLocator (locator : Locator Url) (chunks : ChunksTable Url) : ChunksTable Url :=
  chunks.deleteWhere fun row => row.toLocator = locator

def deleteParagraphKeys (keys : List (Locator Url)) (chunks : ChunksTable Url) : ChunksTable Url :=
  keys.foldl (fun chunks key => deleteByChunkLocator key chunks) chunks

@[simp] theorem mem_deleteParagraphKeys {keys : List (Locator Url)} {chunks : ChunksTable Url} :
    row ∈ (deleteParagraphKeys keys chunks).rows ↔ row ∈ chunks.rows ∧ row.toLocator ∉ keys := by
  induction keys generalizing chunks with
  | nil => simp [deleteParagraphKeys]
  | cons key rest ih =>
    refine ih.trans ?_
    simp [deleteByChunkLocator, and_assoc]

/-- The row that `upsert_chunk_with_vector` keeps for a chunk. -/
def upsertedRow (chunk : ParagraphChunk Url) : Option (ChunkRow Url) :=
  let body := strip chunk.text
  if body = [] then none
  else some { chunk.toLocator with contentHash := chunk.contentHash, body }

/-- The row that `insert_paragraph_rows` inserts: the chunk's own span is not
kept. -/
def paragraphRow (row : ParagraphChunk Url) : Option (ChunkRow Url) :=
  let text := strip row.text
  if text = [] then none
  else some
    { docUrl := row.docUrl
      paraIndex := row.paraIndex
      charStart := 0
      charEnd := text.length
      contentHash := row.contentHash
      body := text }

/-- `None` stands for the `IntegrityError` of a second row under one key. -/
def insertParagraphRows (rows : List (ParagraphChunk Url)) (chunks : ChunksTable Url) :
    Option (ChunksTable Url) :=
  chunks.insertAll? (rows.filterMap paragraphRow)

/-- What `get_file_index_info` returns. -/
structure FileIndexInfo (Time : Type) where
  fileMtime : Time
  lastIndexedAt : Time
  chunkCount : Nat

variable [Zero Time]

def getFileIndexInfo (corpus : Corpus Url Time) (docUrl : Url) : FileIndexInfo Time :=
  let chunkCount := corpus.chunks.rows.countP (·.docUrl = docUrl)
  match corpus.indexedFiles docUrl with
  | none => { fileMtime := 0, lastIndexedAt := 0, chunkCount }
  | some stamp => { fileMtime := stamp.fileMtime, lastIndexedAt := stamp.lastIndexedAt, chunkCount }

def fileIsStale [LT Time] [DecidableLT Time] (corpus : Corpus Url Time) (docUrl : Url)
    (fileMtime : Time) : Bool :=
  let info := getFileIndexInfo corpus docUrl
  if info.chunkCount = 0 then true else decide (info.lastIndexedAt < fileMtime)

omit [Zero Time] in
def markFileIndexed (docUrl : Url) (fileMtime indexedAt : Time) (corpus : Corpus Url Time) :
    Corpus Url Time :=
  { corpus with
    indexedFiles := Function.update corpus.indexedFiles docUrl
      (some { fileMtime, lastIndexedAt := indexedAt }) }

omit [Zero Time] in
theorem markFileIndexed_self (docUrl : Url) (fileMtime indexedAt : Time)
    (corpus : Corpus Url Time) :
    (markFileIndexed docUrl fileMtime indexedAt corpus).indexedFiles docUrl =
      some { fileMtime, lastIndexedAt := indexedAt } :=
  Function.update_self _ _ _

omit [Zero Time] in
theorem markFileIndexed_of_ne {other : Url} (isOther : other ≠ docUrl) (fileMtime indexedAt : Time)
    (corpus : Corpus Url Time) :
    (markFileIndexed docUrl fileMtime indexedAt corpus).indexedFiles other =
      corpus.indexedFiles other :=
  Function.update_of_ne isOther _ _

section Staleness

variable {corpus corpus' : Corpus Url Time} {docUrl : Url}

theorem getFileIndexInfo_lastIndexedAt : (getFileIndexInfo corpus docUrl).lastIndexedAt =
      ((corpus.indexedFiles docUrl).map FileStamp.lastIndexedAt).getD 0 := by
  rw [getFileIndexInfo]
  cases corpus.indexedFiles docUrl <;> rfl

theorem getFileIndexInfo_chunkCount : (getFileIndexInfo corpus docUrl).chunkCount =
      corpus.chunks.rows.countP (·.docUrl = docUrl) := by
  rw [getFileIndexInfo]
  cases corpus.indexedFiles docUrl <;> rfl

variable [LT Time] [DecidableLT Time] {modified : Time}

theorem fileIsStale_iff : fileIsStale corpus docUrl modified = true ↔
    (∀ row ∈ corpus.chunks.rows, row.docUrl ≠ docUrl) ∨
      ((corpus.indexedFiles docUrl).map FileStamp.lastIndexedAt).getD 0 < modified := by
  rw [fileIsStale, getFileIndexInfo_chunkCount, getFileIndexInfo_lastIndexedAt]
  have none_iff : corpus.chunks.rows.countP (·.docUrl = docUrl) = 0 ↔
      ∀ row ∈ corpus.chunks.rows, row.docUrl ≠ docUrl := by
    simp [countP_eq_zero]
  by_cases noRows : corpus.chunks.rows.countP (·.docUrl = docUrl) = 0
  · simp only [noRows, if_true, true_iff]
    exact Or.inl (none_iff.mp noRows)
  · rw [← none_iff]
    simp [noRows]

theorem fileIsStale_congr (rows : ∀ row : ChunkRow Url, row.docUrl = docUrl →
      (row ∈ corpus'.chunks.rows ↔ row ∈ corpus.chunks.rows))
    (stamp : corpus'.indexedFiles docUrl = corpus.indexedFiles docUrl) :
    fileIsStale corpus' docUrl modified = fileIsStale corpus docUrl modified := by
  rw [Bool.eq_iff_iff, fileIsStale_iff, fileIsStale_iff, stamp]
  refine or_congr_left ⟨fun none row member sameUrl => ?_, fun none row member sameUrl => ?_⟩
  · exact none row ((rows row sameUrl).mpr member) sameUrl
  · exact none row ((rows row sameUrl).mp member) sameUrl

end Staleness

variable (env)

def storedHashes (docUrl : Url) (chunks : ChunksTable Url) : PyDict (Nat × Nat × Nat) Text :=
  .ofPairs ((env.select (chunks.rows.filter (·.docUrl = docUrl))).map fun row =>
    ((row.paraIndex, row.charStart, row.charEnd), row.contentHash))

def Locator.inFile (locator : Locator Url) : Nat × Nat × Nat :=
  (locator.paraIndex, locator.charStart, locator.charEnd)

/-- `diff_chunk_rows_in_db`: the chunks to index and the locators to delete.
The `doc_url` of a file is never empty. -/
def diffChunkRows (chunks : List (ParagraphChunk Url)) (table : ChunksTable Url) :
    List (ParagraphChunk Url) × List (Locator Url) :=
  match chunks with
  | [] => ([], [])
  | first :: _ =>
    let stored := storedHashes env first.docUrl table
    let toIndex := chunks.filter fun chunk =>
      (stored.get? chunk.inFile).getD [] != chunk.contentHash
    let toDelete := stored.keys.filterMap fun (paraIndex, charStart, charEnd) =>
      let locator := { docUrl := first.docUrl, paraIndex, charStart, charEnd }
      if locator ∈ chunks.map (·.toLocator) then none else some locator
    (toIndex, toDelete)

variable {env}
variable {table : ChunksTable Url}

theorem mem_select_filter : row ∈ env.select (table.rows.filter (·.docUrl = docUrl)) ↔
      row ∈ table.rows ∧ row.docUrl = docUrl := by
  rw [(env.select_perm _).mem_iff, mem_filter, decide_eq_true_iff]

theorem exists_row_of_stored {hash : Text}
    (found : (storedHashes env locator.docUrl table).get? locator.inFile = some hash) :
    ∃ row ∈ table.rows, row.toLocator = locator ∧ row.contentHash = hash := by
  have entry := PyDict.mem_of_mem_ofPairs (PyDict.get?_eq_some_iff.mp found)
  obtain ⟨row, selected, same⟩ := mem_map.mp entry
  obtain ⟨member, sameUrl⟩ := mem_select_filter.mp selected
  refine ⟨row, member, ?_, congrArg Prod.snd same⟩
  obtain ⟨docUrl, paraIndex, charStart, charEnd⟩ := locator
  cases congrArg Prod.fst same
  cases sameUrl
  rfl

variable (env) in
theorem exists_stored_of_row (member : row ∈ table.rows) :
    ∃ hash, (storedHashes env row.docUrl table).get? row.inFile = some hash := by
  apply PyDict.exists_get?_ofPairs
  rw [map_map, mem_map]
  exact ⟨row, mem_select_filter.mpr ⟨member, rfl⟩, rfl⟩

section Diff

variable {chunks : List (ParagraphChunk Url)} {table : ChunksTable Url} {docUrl : Url}

theorem mem_toIndex_iff (ofFile : ∀ chunk ∈ chunks, chunk.docUrl = docUrl)
    (hash_ne : ∀ chunk ∈ chunks, chunk.contentHash ≠ []) :
    chunk ∈ (diffChunkRows env chunks table).1 ↔ chunk ∈ chunks ∧
      (storedHashes env docUrl table).get? chunk.inFile ≠ some chunk.contentHash := by
  cases chunks with
  | nil => simp [diffChunkRows]
  | cons first rest =>
    rw [diffChunkRows, mem_filter, ofFile first mem_cons_self]
    refine and_congr_right fun member => ?_
    cases (storedHashes env docUrl table).get? chunk.inFile with
    | none => simpa using (hash_ne chunk member).symm
    | some hash => simp

theorem mem_toDelete_iff (ofFile : ∀ chunk ∈ chunks, chunk.docUrl = docUrl) (some : chunks ≠ []) :
    locator ∈ (diffChunkRows env chunks table).2 ↔ locator.docUrl = docUrl ∧
      (∃ row ∈ table.rows, row.toLocator = locator) ∧
      locator ∉ chunks.map (·.toLocator) := by
  obtain ⟨first, rest, rfl⟩ := exists_cons_of_ne_nil some
  have isFirst := ofFile first mem_cons_self
  rw [diffChunkRows, isFirst, mem_filterMap]
  constructor
  · rintro ⟨⟨paraIndex, charStart, charEnd⟩, stored, kept⟩
    obtain ⟨⟨_, hash⟩, entry, rfl⟩ := mem_map.mp stored
    dsimp only at kept
    split_ifs at kept with seen
    cases kept
    exact ⟨rfl, (exists_row_of_stored (PyDict.get?_eq_some_iff.mpr entry)).imp
      fun _ h => ⟨h.1, h.2.1⟩, seen⟩
  · rintro ⟨rfl, ⟨row, member, rfl⟩, unseen⟩
    obtain ⟨hash, found⟩ := exists_stored_of_row env member
    refine ⟨row.inFile, mem_map.mpr ⟨_, PyDict.get?_eq_some_iff.mp found, rfl⟩, ?_⟩
    exact if_neg unseen

end Diff

end WriterAgent.Embeddings

/-!
## Maintenance of a folder's corpus

`plugin/embeddings/venv/embeddings_folder_maintain.py` with the ingest of
`embeddings_ingest_graph.py`: a cold build indexes every file into new
tables, an incremental pass indexes the differences of the stale ones.  A
step that raises ends the pass, which is `none` here.
-/

namespace WriterAgent.Embeddings

open PyText

inductive SearchMode where
  | fts
  | embeddings
deriving DecidableEq

variable {Url Content Time : Type} [DecidableEq Url]

def rowsToChunks (rows : List (ParagraphChunk Url)) : List (ParagraphChunk Url) :=
  rows.filterMap fun row =>
    let text := strip row.text
    if text = [] then none
    else some { row with text, charEnd := if row.charEnd = 0 then text.length else row.charEnd }

/-- `delete_stale` clears the places of the incoming chunks too; the upsert
then leaves a row with the same key as it is. -/
def ingestParagraphs (rows : List (ParagraphChunk Url)) (deleteKeys : List (Locator Url))
    (chunks : ChunksTable Url) : ChunksTable Url :=
  let incoming := rowsToChunks rows
  let cleared := deleteParagraphKeys (incoming.map (·.toLocator))
    (deleteParagraphKeys deleteKeys chunks)
  cleared.insertAllNew (incoming.filterMap upsertedRow)

/-- What `_ingest_rows` does to the chunks. -/
def ingestChunks (mode : SearchMode) (rows : List (ParagraphChunk Url))
    (deleteKeys : List (Locator Url)) (chunks : ChunksTable Url) : Option (ChunksTable Url) :=
  match mode with
  | .embeddings =>
    if rows = [] ∧ deleteKeys = [] then some chunks
    else some (ingestParagraphs rows deleteKeys chunks)
  | .fts => insertParagraphRows rows (deleteParagraphKeys deleteKeys chunks)

/-- The metadata gets the count of chunks, but for a call of the embeddings
mode with nothing to do. -/
def ingestRows (mode : SearchMode) (rows : List (ParagraphChunk Url))
    (deleteKeys : List (Locator Url)) (corpus : Corpus Url Time) : Option (Corpus Url Time) :=
  (ingestChunks mode rows deleteKeys corpus.chunks).map fun chunks =>
    if mode = .embeddings ∧ rows = [] ∧ deleteKeys = [] then corpus
    else { corpus with chunks, chunkCount := chunks.rows.length }

structure WriterFileEntry (Url Time : Type) where
  url : Url
  modified : Time
deriving DecidableEq

/-- A write of a pass to `corpus.db`. -/
inductive Write (Url : Type) where
  | ingest (rows : List (ParagraphChunk Url)) (deleteKeys : List (Locator Url))
  | stamp

/-- The writes for one file: the deletes and the chunks to index, each with
a stamp after it, and a stamp alone when there are none. -/
def fileWrites (toIndex : List (ParagraphChunk Url)) (toDelete : List (Locator Url)) :
    List (Write Url) :=
  (if toDelete = [] then [] else [.ingest [] toDelete, .stamp]) ++
    (if toIndex ≠ [] then [.ingest toIndex [], .stamp]
    else if toDelete = [] then [.stamp] else [])

/-- A write for the file of an entry at the time `now`. -/
def Write.run (mode : SearchMode) (entry : WriterFileEntry Url Time) (now : Time) :
    Write Url → Corpus Url Time → Option (Corpus Url Time)
  | .ingest rows deleteKeys, corpus => ingestRows mode rows deleteKeys corpus
  | .stamp, corpus => some (markFileIndexed entry.url entry.modified now corpus)

def runWrites (mode : SearchMode) (entry : WriterFileEntry Url Time) (now : Time)
    (writes : List (Write Url)) (corpus : Corpus Url Time) : Option (Corpus Url Time) :=
  writes.foldlM (fun corpus write => write.run mode entry now corpus) corpus

variable (env : Environment Url Content)

def reindexWrites (docUrl : Url) (content : Content) (chunks : ChunksTable Url) :
    List (Write Url) :=
  let extracted := indexableChunks env docUrl content
  let diff := diffChunkRows env extracted chunks
  fileWrites diff.1 diff.2

structure SavedFile (Content Time : Type) where
  modified : Time
  content : Content
deriving DecidableEq

abbrev Folder (Url Content Time : Type) := PyDict Url (SavedFile Content Time)

variable {env} in
def entryOf (file : Url × SavedFile Content Time) : WriterFileEntry Url Time :=
  { url := file.1, modified := file.2.modified }

/-- The clock is read at every stamp of a file; the last one stays, and
`now` is that reading. -/
def refreshFile [Zero Time] [LT Time] [DecidableLT Time] (mode : SearchMode) (now : Time)
    (corpus : Corpus Url Time) (file : Url × SavedFile Content Time) :
    Option (Corpus Url Time) :=
  if fileIsStale corpus file.1 file.2.modified then
    runWrites mode (entryOf file) now (reindexWrites env file.1 file.2.content corpus.chunks) corpus
  else some corpus

def writeRowCount (corpus : Corpus Url Time) : Corpus Url Time :=
  { corpus with chunkCount := corpus.chunks.rows.length }

/-- The pass over the listed files, with the clock reading for each.  The
last step, which aligns the vectors, calls the ingest with nothing to do. -/
def incrementalRefresh [Zero Time] [LT Time] [DecidableLT Time] (mode : SearchMode)
    (clock : Url → Time) (listing : List (Url × SavedFile Content Time))
    (corpus : Corpus Url Time) : Option (Corpus Url Time) :=
  (listing.foldlM (fun corpus file => refreshFile env mode (clock file.1) corpus file)
    corpus).map writeRowCount

def coldFile (mode : SearchMode) (now : Time) (corpus : Corpus Url Time)
    (file : Url × SavedFile Content Time) : Option (Corpus Url Time) :=
  let rows := indexableChunks env file.1 file.2.content
  (if rows = [] then some corpus else ingestRows mode rows [] corpus).map
    (markFileIndexed file.1 file.2.modified now)

def coldBuild (mode : SearchMode) (clock : Url → Time)
    (listing : List (Url × SavedFile Content Time)) : Option (Corpus Url Time) :=
  (listing.foldlM (fun corpus file => coldFile env mode (clock file.1) corpus file)
    Corpus.missing).map writeRowCount

/-- `maintain_folder_corpus` with the mode `auto`: an empty index is built
again. -/
def maintainFolderCorpus [Zero Time] [LT Time] [DecidableLT Time] (mode : SearchMode)
    (clock : Url → Time) (listing : List (Url × SavedFile Content Time))
    (corpus : Corpus Url Time) : Option (Corpus Url Time) :=
  if corpus.chunkCount = 0 then coldBuild env mode clock listing
  else incrementalRefresh env mode clock listing corpus

/-- Passages as they are, each one chunk, and texts for their digests. -/
def sampleEnv : Environment Text (List Passage) where
  passages content := content
  sha256 text := 'x' :: text
  select rows := rows
  sha256_ne _ := nofun
  select_perm _ := List.Perm.refl _

def wholePassage (text : Text) : Passage := { text, spans := [(0, text.length)] }

def noteUrl : Text := "file:///notes/a.txt".toList

end WriterAgent.Embeddings
