import WriterAgent.Embeddings.FolderMaintain

/-!
# What a reindexed file leaves in the table

The ingest of some chunks of a file is described by its rows.  From this the
writes of a pass for one stale file.
-/

namespace WriterAgent.Embeddings

open PyText List

variable {Url Content Time : Type} {env : Environment Url Content}

/-- The row that a mode stores for a chunk.  The full text mode does not keep
the chunk's own span. -/
def SearchMode.rowOf : SearchMode → ParagraphChunk Url → ChunkRow Url
  | .embeddings, chunk =>
    { chunk.toLocator with contentHash := chunk.contentHash, body := chunk.text }
  | .fts, chunk =>
    { docUrl := chunk.docUrl
      paraIndex := chunk.paraIndex
      charStart := 0
      charEnd := chunk.text.length
      contentHash := chunk.contentHash
      body := chunk.text }

def fileRows (env : Environment Url Content) (mode : SearchMode) (docUrl : Url)
    (content : Content) : List (ChunkRow Url) :=
  (indexableChunks env docUrl content).map mode.rowOf

variable {rows : List (ParagraphChunk Url)} {write : Write Url} {docUrl : Url}
  {row : ChunkRow Url} {chunk : ParagraphChunk Url} {writes : List (Write Url)}
  {entry : WriterFileEntry Url Time} {now : Time} {corpus' : Corpus Url Time}

@[simp] theorem rowOf_docUrl (mode : SearchMode) (chunk : ParagraphChunk Url) :
    (mode.rowOf chunk).docUrl = chunk.docUrl := by
  cases mode <;> rfl

@[simp] theorem rowOf_contentHash (mode : SearchMode) (chunk : ParagraphChunk Url) :
    (mode.rowOf chunk).contentHash = chunk.contentHash := by
  cases mode <;> rfl

@[simp] theorem rowOf_body (mode : SearchMode) (chunk : ParagraphChunk Url) :
    (mode.rowOf chunk).body = chunk.text := by
  cases mode <;> rfl

def OfFile (env : Environment Url Content) (docUrl : Url) (rows : List (ParagraphChunk Url)) :
    Prop :=
  ∃ content, ∀ chunk ∈ rows, chunk ∈ indexableChunks env docUrl content

theorem OfFile.docUrl_eq (ofFile : OfFile env docUrl rows) (member : chunk ∈ rows) :
    chunk.docUrl = docUrl := by
  obtain ⟨content, chunks⟩ := ofFile
  exact (chunkOf_of_mem (chunks chunk member)).docUrl_eq

theorem OfFile.rowsToChunks (ofFile : OfFile env docUrl rows) : rowsToChunks rows = rows := by
  obtain ⟨content, chunks⟩ := ofFile
  refine (filterMap_congr (g := some) fun chunk member => ?_).trans filterMap_some
  have facts := chunkOf_of_mem (chunks chunk member)
  rw [facts.trimmed, if_neg facts.text_ne, if_neg facts.charEnd_ne]

theorem OfFile.upsertedRows (ofFile : OfFile env docUrl rows) :
    rows.filterMap upsertedRow = rows.map SearchMode.embeddings.rowOf := by
  obtain ⟨content, chunks⟩ := ofFile
  rw [← filterMap_eq_map]
  refine filterMap_congr fun chunk member => ?_
  have facts := chunkOf_of_mem (chunks chunk member)
  rw [upsertedRow, facts.trimmed]
  exact if_neg facts.text_ne

theorem OfFile.paragraphRows (ofFile : OfFile env docUrl rows) :
    rows.filterMap paragraphRow = rows.map SearchMode.fts.rowOf := by
  obtain ⟨content, chunks⟩ := ofFile
  rw [← filterMap_eq_map]
  refine filterMap_congr fun chunk member => ?_
  have facts := chunkOf_of_mem (chunks chunk member)
  rw [paragraphRow, facts.trimmed]
  exact if_neg facts.text_ne

theorem ofFile_nil (env : Environment Url Content) (docUrl : Url) (content : Content) :
    OfFile env docUrl [] :=
  ⟨content, fun _ member => absurd member not_mem_nil⟩

section Ingest

variable [DecidableEq Url] {mode : SearchMode} {docUrl : Url} {rows : List (ParagraphChunk Url)}
  {deleteKeys : List (Locator Url)} {chunks chunks' : ChunksTable Url}

theorem mem_ingestParagraphs (ofFile : OfFile env docUrl rows) :
    row ∈ (ingestParagraphs rows deleteKeys chunks).rows ↔
      (row ∈ chunks.rows ∧ row.toLocator ∉ deleteKeys ∧ row.toLocator ∉ rows.map (·.toLocator)) ∨
      row ∈ rows.map SearchMode.embeddings.rowOf := by
  rw [ingestParagraphs, ofFile.rowsToChunks, ofFile.upsertedRows,
    UniqueTable.mem_insertAllNew_of_agree, mem_deleteParagraphKeys, mem_deleteParagraphKeys,
    and_assoc]
  · intro old member row isRow same
    obtain ⟨chunk, inRows, rfl⟩ := mem_map.mp isRow
    rw [mem_deleteParagraphKeys] at member
    have place : old.toLocator = chunk.toLocator := congrArg Prod.fst same
    exact absurd (mem_map.mpr ⟨chunk, inRows, place.symm⟩) member.2
  · obtain ⟨content, ofContent⟩ := ofFile
    intro row isRow row' isRow' same
    obtain ⟨chunk, inRows, rfl⟩ := mem_map.mp isRow
    obtain ⟨chunk', inRows', rfl⟩ := mem_map.mp isRow'
    have place : chunk.toLocator = chunk'.toLocator := congrArg Prod.fst same
    rw [chunk_eq_of_locator (ofContent chunk inRows) (ofContent chunk' inRows') place]

theorem mem_ingestChunks (ofFile : OfFile env docUrl rows)
    (done : ingestChunks mode rows deleteKeys chunks = some chunks') :
    row ∈ chunks'.rows ↔ (row ∈ chunks.rows ∧ row.toLocator ∉ deleteKeys ∧
        (mode = .embeddings → row.toLocator ∉ rows.map (·.toLocator))) ∨
      row ∈ rows.map mode.rowOf := by
  cases mode with
  | embeddings =>
    rw [ingestChunks] at done
    split_ifs at done with idle
    · cases done
      simp [idle.1, idle.2]
    · cases done
      rw [mem_ingestParagraphs ofFile]
      simp
  | fts =>
    rw [ingestChunks, insertParagraphRows, ofFile.paragraphRows] at done
    rw [UniqueTable.insertAll?_eq_some done, mem_append]
    simp

theorem exists_ingestChunks_embeddings :
    ∃ chunks', ingestChunks .embeddings rows deleteKeys chunks = some chunks' := by
  rw [ingestChunks]
  split_ifs <;> exact ⟨_, rfl⟩

theorem exists_ingestChunks_deletes :
    ∃ chunks', ingestChunks mode [] deleteKeys chunks = some chunks' := by
  cases mode with
  | embeddings => exact exists_ingestChunks_embeddings
  | fts => exact ⟨_, rfl⟩

theorem exists_ingestChunks_fts (ofFile : OfFile env docUrl rows)
    (distinct : (rows.map fun chunk => (SearchMode.fts.rowOf chunk).key).Nodup)
    (fresh : ∀ chunk ∈ rows, ∀ row ∈ chunks.rows, row.key ≠ (SearchMode.fts.rowOf chunk).key) :
    ∃ chunks', ingestChunks .fts rows [] chunks = some chunks' := by
  rw [ingestChunks, insertParagraphRows, ofFile.paragraphRows]
  have distinctKeys : ((rows.map SearchMode.fts.rowOf).map ChunkRow.key).Nodup := by
    rw [map_map]
    exact distinct
  have freshRows : ∀ row ∈ rows.map SearchMode.fts.rowOf,
      row.key ∉ (deleteParagraphKeys [] chunks).rows.map ChunkRow.key := by
    intro row isRow
    obtain ⟨chunk, inRows, rfl⟩ := mem_map.mp isRow
    rintro stored
    obtain ⟨old, member, same⟩ := mem_map.mp stored
    exact fresh chunk inRows old member same
  obtain ⟨chunks', inserted, -⟩ := UniqueTable.insertAll?_of_fresh distinctKeys freshRows
  exact ⟨chunks', inserted⟩

end Ingest

/-- Every row was stored for a chunk of some contents of its file, and the
embeddings mode keeps one row at a place. -/
structure Kept (env : Environment Url Content) (mode : SearchMode)
    (chunks : ChunksTable Url) : Prop where
  stored : ∀ row ∈ chunks.rows, ∃ content, ∃ chunk ∈ indexableChunks env row.docUrl content,
    row = mode.rowOf chunk
  apart : mode = .embeddings → ∀ row ∈ chunks.rows, ∀ other ∈ chunks.rows,
    row.toLocator = other.toLocator → row = other

theorem kept_empty (mode : SearchMode) : Kept env mode UniqueTable.empty :=
  ⟨fun _ member => absurd member not_mem_nil, fun _ _ member => absurd member not_mem_nil⟩

section Reindex

variable {mode : SearchMode} {docUrl : Url} {content : Content} {chunks chunks' : ChunksTable Url}

theorem Kept.ingest [DecidableEq Url] (kept : Kept env mode chunks)
    {deleteKeys : List (Locator Url)} (ofFile : OfFile env docUrl rows)
    (done : ingestChunks mode rows deleteKeys chunks = some chunks') : Kept env mode chunks' := by
  have member_iff : ∀ row, row ∈ chunks'.rows ↔ _ := fun _ => mem_ingestChunks ofFile done
  obtain ⟨content, ofContent⟩ := ofFile
  constructor
  · intro row member
    rcases (member_iff row).mp member with ⟨old, -, -⟩ | new
    · exact kept.stored row old
    · obtain ⟨chunk, inRows, rfl⟩ := mem_map.mp new
      refine ⟨content, chunk, ?_, rfl⟩
      rw [rowOf_docUrl, (chunkOf_of_mem (ofContent chunk inRows)).docUrl_eq]
      exact ofContent chunk inRows
  · rintro rfl row member other isOther same
    rcases (member_iff row).mp member with ⟨old, -, away⟩ | new
    · rcases (member_iff other).mp isOther with ⟨old', -, -⟩ | new'
      · exact kept.apart rfl row old other old' same
      · obtain ⟨chunk, inRows, rfl⟩ := mem_map.mp new'
        exact absurd (mem_map.mpr ⟨chunk, inRows, same.symm⟩) (away rfl)
    · obtain ⟨chunk, inRows, rfl⟩ := mem_map.mp new
      rcases (member_iff other).mp isOther with ⟨old', -, away⟩ | new'
      · exact absurd (mem_map.mpr ⟨chunk, inRows, same⟩) (away rfl)
      · obtain ⟨chunk', inRows', rfl⟩ := mem_map.mp new'
        rw [chunk_eq_of_locator (ofContent chunk inRows) (ofContent chunk' inRows') same]

/-- Nothing stored stands in the way of the new chunks of a file.  In the
embeddings mode this is another text with the same digest at the place of a
chunk.  In the full text mode it is any other text at the place of a chunk,
and two chunks of a passage with the same text. -/
def ReindexSafe (mode : SearchMode) (extracted : List (ParagraphChunk Url))
    (chunks : ChunksTable Url) : Prop :=
  match mode with
  | .embeddings => ∀ row ∈ chunks.rows, ∀ chunk ∈ extracted,
      row.toLocator = chunk.toLocator → row.contentHash = chunk.contentHash → row.body = chunk.text
  | .fts => (extracted.map fun chunk => (SearchMode.fts.rowOf chunk).key).Nodup ∧
      ∀ row ∈ chunks.rows, ∀ chunk ∈ extracted,
        row.toLocator = chunk.toLocator → row.body = chunk.text

instance [DecidableEq Url] (mode : SearchMode) (extracted : List (ParagraphChunk Url))
    (chunks : ChunksTable Url) : Decidable (ReindexSafe mode extracted chunks) :=
  match mode with
  | .embeddings => List.decidableBAll _ chunks.rows
  | .fts => instDecidableAnd

theorem ReindexSafe.mono (safe : ReindexSafe mode (indexableChunks env docUrl content) chunks)
    (fewer : ∀ row ∈ chunks'.rows, row.docUrl = docUrl → row ∈ chunks.rows) :
    ReindexSafe mode (indexableChunks env docUrl content) chunks' := by
  have sameUrl : ∀ {row : ChunkRow Url} {chunk : ParagraphChunk Url},
      chunk ∈ indexableChunks env docUrl content → row.toLocator = chunk.toLocator →
      row.docUrl = docUrl := fun inFile place =>
    (congrArg Locator.docUrl place).trans (chunkOf_of_mem inFile).docUrl_eq
  cases mode with
  | embeddings =>
    intro row member chunk inFile place
    exact safe row (fewer row member (sameUrl inFile place)) chunk inFile place
  | fts =>
    refine ⟨safe.1, ?_⟩
    intro row member chunk inFile place
    exact safe.2 row (fewer row member (sameUrl inFile place)) chunk inFile place

theorem rowOf_of_stored (kept : Kept env mode chunks)
    (safe : ReindexSafe mode (indexableChunks env docUrl content) chunks)
    (member : row ∈ chunks.rows) (inFile : chunk ∈ indexableChunks env docUrl content)
    (place : row.toLocator = chunk.toLocator)
    (hash : mode = .embeddings → row.contentHash = chunk.contentHash) : row = mode.rowOf chunk := by
  have body : row.body = chunk.text := by
    cases mode with
    | embeddings => exact safe row member chunk inFile place (hash rfl)
    | fts => exact safe.2 row member chunk inFile place
  obtain ⟨content', stored, isStored, rfl⟩ := kept.stored row member
  have facts := chunkOf_of_mem inFile
  have storedFacts := chunkOf_of_mem isStored
  rw [rowOf_body] at body
  have sameHash : stored.contentHash = chunk.contentHash :=
    storedFacts.hash_eq.trans ((congrArg env.sha256 body).trans facts.hash_eq.symm)
  cases mode with
  | embeddings =>
    have placed : stored.toLocator = chunk.toLocator := place
    simp only [SearchMode.rowOf, placed, sameHash, body]
  | fts =>
    have sameUrl := congrArg Locator.docUrl place
    have sameIndex := congrArg Locator.paraIndex place
    dsimp only [SearchMode.rowOf] at sameUrl sameIndex
    simp only [SearchMode.rowOf, sameUrl, sameIndex, sameHash, body]

variable [DecidableEq Url]

def Write.onChunks (mode : SearchMode) : Write Url → ChunksTable Url → Option (ChunksTable Url)
  | .ingest rows deleteKeys, chunks => ingestChunks mode rows deleteKeys chunks
  | .stamp, chunks => some chunks

def chunkWrites (mode : SearchMode) (writes : List (Write Url)) (chunks : ChunksTable Url) :
    Option (ChunksTable Url) :=
  writes.foldlM (fun chunks write => write.onChunks mode chunks) chunks

theorem chunkWrites_cons (write : Write Url) (writes : List (Write Url)) :
    chunkWrites mode (write :: writes) chunks =
      (write.onChunks mode chunks).bind (chunkWrites mode writes) := rfl

theorem chunkWrites_fileWrites (toIndex : List (ParagraphChunk Url))
    (toDelete : List (Locator Url)) :
    chunkWrites mode (fileWrites toIndex toDelete) chunks =
      (if toDelete = [] then some chunks else ingestChunks mode [] toDelete chunks).bind
        fun chunks =>
          if toIndex = [] then some chunks else ingestChunks mode toIndex [] chunks := by
  rw [fileWrites]
  by_cases noDelete : toDelete = [] <;> by_cases noIndex : toIndex = []
  · simp [noDelete, noIndex, chunkWrites, Write.onChunks]
  · simp [noDelete, noIndex, chunkWrites, Write.onChunks]
  · simp [noDelete, noIndex, chunkWrites, Write.onChunks]
  · simp [noDelete, noIndex, chunkWrites, Write.onChunks]

theorem toIndex_sublist {extracted : List (ParagraphChunk Url)} :
    (diffChunkRows env extracted chunks).1.Sublist extracted := by
  cases extracted with
  | nil => exact List.Sublist.refl _
  | cons first rest => exact filter_sublist

theorem ofFile_toIndex :
    OfFile env docUrl (diffChunkRows env (indexableChunks env docUrl content) chunks).1 :=
  ⟨content, fun _ member => toIndex_sublist.subset member⟩

theorem exists_row_of_not_toIndex (inFile : chunk ∈ indexableChunks env docUrl content)
    (left : chunk ∉ (diffChunkRows env (indexableChunks env docUrl content) chunks).1) :
    ∃ row ∈ chunks.rows, row.toLocator = chunk.toLocator ∧ row.contentHash = chunk.contentHash := by
  have facts := chunkOf_of_mem inFile
  rw [mem_toIndex_iff (fun _ member => (chunkOf_of_mem member).docUrl_eq)
    (fun _ member => by rw [(chunkOf_of_mem member).hash_eq]; exact env.sha256_ne _),
    not_and, not_not] at left
  have found := left inFile
  rw [← facts.docUrl_eq] at found
  exact exists_row_of_stored found

theorem exists_deleted (mode : SearchMode) (chunks : ChunksTable Url)
    (some_chunk : indexableChunks env docUrl content ≠ []) :
    ∃ deleted, (if (diffChunkRows env (indexableChunks env docUrl content) chunks).2 = [] then
          some chunks
        else ingestChunks mode []
          (diffChunkRows env (indexableChunks env docUrl content) chunks).2 chunks) =
        some deleted ∧
      ∀ row, row ∈ deleted.rows ↔ row ∈ chunks.rows ∧ (row.docUrl = docUrl →
        row.toLocator ∈ (indexableChunks env docUrl content).map (·.toLocator)) := by
  have key_iff : ∀ locator, locator ∈
      (diffChunkRows env (indexableChunks env docUrl content) chunks).2 ↔ _ := fun _ =>
    mem_toDelete_iff (fun _ inFile => (chunkOf_of_mem inFile).docUrl_eq) some_chunk
  generalize (diffChunkRows env (indexableChunks env docUrl content) chunks).2 = toDelete at *
  have kept_iff : ∀ row ∈ chunks.rows, row.toLocator ∉ toDelete ↔ (row.docUrl = docUrl →
      row.toLocator ∈ (indexableChunks env docUrl content).map (·.toLocator)) := by
    intro row member
    rw [key_iff, not_and]
    refine forall_congr' fun _ => ?_
    rw [not_and, not_not]
    exact ⟨fun h => h ⟨row, member, rfl⟩, fun h _ => h⟩
  split_ifs with noDelete
  · refine ⟨chunks, rfl, fun row => ?_⟩
    rw [iff_self_and]
    intro member
    exact (kept_iff row member).mp (noDelete ▸ not_mem_nil)
  · obtain ⟨deleted, done⟩ : ∃ deleted, ingestChunks mode [] toDelete chunks = some deleted :=
      exists_ingestChunks_deletes
    refine ⟨deleted, done, fun row => ?_⟩
    rw [mem_ingestChunks (ofFile_nil env docUrl content) done]
    simp only [map_nil, not_mem_nil, not_false_eq_true, implies_true, and_true, or_false]
    exact and_congr_right fun member => kept_iff row member

theorem indexed_rows {toIndex : List (ParagraphChunk Url)} (ofFile : OfFile env docUrl toIndex)
    (done : ingestChunks mode toIndex [] chunks = some chunks') :
    ∃ indexed, (if toIndex = [] then some chunks else ingestChunks mode toIndex [] chunks) =
        some indexed ∧
      ∀ row, row ∈ indexed.rows ↔ (row ∈ chunks.rows ∧
        (mode = .embeddings → row.toLocator ∉ toIndex.map (·.toLocator))) ∨
        row ∈ toIndex.map mode.rowOf := by
  split_ifs with nothing
  · subst nothing
    exact ⟨chunks, rfl, fun row => by simp⟩
  · refine ⟨chunks', done, fun row => ?_⟩
    rw [mem_ingestChunks ofFile done]
    simp

theorem exists_ingest_toIndex (kept : Kept env mode chunks)
    (safe : ReindexSafe mode (indexableChunks env docUrl content) chunks)
    {deleted : ChunksTable Url}
    (deleted_iff : ∀ row, row ∈ deleted.rows ↔ row ∈ chunks.rows ∧ (row.docUrl = docUrl →
      row.toLocator ∈ (indexableChunks env docUrl content).map (·.toLocator))) :
    ∃ chunks', ingestChunks mode
      (diffChunkRows env (indexableChunks env docUrl content) chunks).1 [] deleted =
        some chunks' := by
  cases mode with
  | embeddings => exact exists_ingestChunks_embeddings
  | fts =>
    have index_iff : ∀ chunk, chunk ∈
        (diffChunkRows env (indexableChunks env docUrl content) chunks).1 ↔ _ := fun _ =>
      mem_toIndex_iff (fun _ member => (chunkOf_of_mem member).docUrl_eq)
        (fun _ member => by rw [(chunkOf_of_mem member).hash_eq]; exact env.sha256_ne _)
    have distinct := safe.1
    have sublist : (diffChunkRows env (indexableChunks env docUrl content) chunks).1.Sublist
        (indexableChunks env docUrl content) := toIndex_sublist
    refine exists_ingestChunks_fts ofFile_toIndex ((sublist.map _).nodup distinct) ?_
    intro chunk toIndex row member sameKey
    obtain ⟨inFile, changed⟩ := (index_iff chunk).mp toIndex
    obtain ⟨stored, atChunk⟩ := (deleted_iff row).mp member
    have facts := chunkOf_of_mem inFile
    have sameUrl : row.docUrl = docUrl :=
      (congrArg (fun key => key.1.docUrl) sameKey).trans ((rowOf_docUrl _ _).trans facts.docUrl_eq)
    obtain ⟨other, isOther, place⟩ := mem_map.mp (atChunk sameUrl)
    -- the row is that of the chunk at its place, so this chunk is the one to index
    have isRow := rowOf_of_stored kept safe stored isOther place.symm nofun
    rw [isRow] at sameKey
    obtain rfl : other = chunk := inj_on_of_nodup_map distinct isOther inFile sameKey
    obtain ⟨hash, found⟩ := exists_stored_of_row env stored
    obtain ⟨first, isFirst, samePlace, rfl⟩ := exists_row_of_stored found
    have firstIs := rowOf_of_stored kept safe isFirst inFile (samePlace.trans place.symm) nofun
    apply changed
    rw [← sameUrl, place]
    rw [found, firstIs, rowOf_contentHash]

theorem reindex_rows (kept : Kept env mode chunks)
    (some_chunk : indexableChunks env docUrl content ≠ [])
    (safe : ReindexSafe mode (indexableChunks env docUrl content) chunks) :
    ∃ chunks', chunkWrites mode (reindexWrites env docUrl content chunks) chunks = some chunks' ∧
      ∀ row, row ∈ chunks'.rows ↔
        (row ∈ chunks.rows ∧ row.docUrl ≠ docUrl) ∨ row ∈ fileRows env mode docUrl content := by
  obtain ⟨deleted, deletes, deleted_iff⟩ := exists_deleted mode chunks some_chunk
  obtain ⟨last, ingested⟩ := exists_ingest_toIndex kept safe deleted_iff
  obtain ⟨chunks', indexes, indexed_iff⟩ := indexed_rows ofFile_toIndex ingested
  refine ⟨chunks', ?_, fun row => ?_⟩
  · rw [reindexWrites, chunkWrites_fileWrites, deletes, Option.bind_some, indexes]
  · rw [indexed_iff, deleted_iff]
    constructor
    · rintro (⟨⟨stored, atChunk⟩, away⟩ | new)
      · by_cases sameUrl : row.docUrl = docUrl
        · right
          obtain ⟨chunk, inFile, place⟩ := mem_map.mp (atChunk sameUrl)
          refine mem_map.mpr ⟨chunk, inFile, (rowOf_of_stored kept safe stored inFile
            place.symm ?_).symm⟩
          intro isEmbeddings
          have left : chunk ∉
              (diffChunkRows env (indexableChunks env docUrl content) chunks).1 := by
            intro toIndex
            exact away isEmbeddings (mem_map.mpr ⟨chunk, toIndex, place⟩)
          obtain ⟨other, isOther, samePlace, sameHash⟩ := exists_row_of_not_toIndex inFile left
          rw [kept.apart isEmbeddings row stored other isOther (place.symm.trans samePlace.symm)]
          exact sameHash
        · exact Or.inl ⟨stored, sameUrl⟩
      · right
        obtain ⟨chunk, toIndex, rfl⟩ := mem_map.mp new
        exact mem_map_of_mem (toIndex_sublist.subset toIndex)
    · rintro (⟨stored, otherUrl⟩ | isRow)
      · refine Or.inl ⟨⟨stored, fun sameUrl => absurd sameUrl otherUrl⟩, ?_⟩
        rintro - atIndex
        obtain ⟨chunk, toIndex, place⟩ := mem_map.mp atIndex
        exact otherUrl ((congrArg Locator.docUrl place).symm.trans
          (ofFile_toIndex.docUrl_eq toIndex))
      · obtain ⟨chunk, inFile, rfl⟩ := mem_map.mp isRow
        by_cases toIndex : chunk ∈ (diffChunkRows env (indexableChunks env docUrl content) chunks).1
        · exact Or.inr (mem_map_of_mem toIndex)
        · left
          obtain ⟨row, stored, place, hash⟩ := exists_row_of_not_toIndex inFile toIndex
          rw [← rowOf_of_stored kept safe stored inFile place fun _ => hash]
          refine ⟨⟨stored, fun _ => mem_map.mpr ⟨chunk, inFile, place.symm⟩⟩, ?_⟩
          rintro - atIndex
          obtain ⟨other, isOther, samePlace⟩ := mem_map.mp atIndex
          have same := chunk_eq_of_locator (toIndex_sublist.subset isOther) inFile
            (samePlace.trans place)
          exact toIndex (same ▸ isOther)

def Write.OfFile (env : Environment Url Content) (docUrl : Url) : Write Url → Prop
  | .ingest rows deleteKeys =>
    Embeddings.OfFile env docUrl rows ∧ ∀ key ∈ deleteKeys, key.docUrl = docUrl
  | .stamp => True

theorem reindexWrites_ofFile (member : write ∈ reindexWrites env docUrl content chunks) :
    write.OfFile env docUrl := by
  have keys : ∀ key ∈ (diffChunkRows env (indexableChunks env docUrl content) chunks).2,
      key.docUrl = docUrl := by
    intro key isKey
    by_cases some_chunk : indexableChunks env docUrl content = []
    · rw [some_chunk] at isKey
      exact absurd isKey not_mem_nil
    · exact ((mem_toDelete_iff (fun _ inFile => (chunkOf_of_mem inFile).docUrl_eq)
        some_chunk).mp isKey).1
  have deletes : (Write.ingest []
      (diffChunkRows env (indexableChunks env docUrl content) chunks).2).OfFile env docUrl :=
    ⟨ofFile_nil env docUrl content, keys⟩
  have indexes : (Write.ingest
      (diffChunkRows env (indexableChunks env docUrl content) chunks).1 []).OfFile env docUrl :=
    ⟨ofFile_toIndex, fun _ isKey => absurd isKey not_mem_nil⟩
  rw [reindexWrites, fileWrites, mem_append] at member
  rcases member with inDeletes | inIndexes
  · split_ifs at inDeletes with noDelete
    · cases inDeletes
    · rcases mem_pair.mp inDeletes with rfl | rfl
      · exact deletes
      · trivial
  · split_ifs at inIndexes with noIndex noDelete
    · rcases mem_pair.mp inIndexes with rfl | rfl
      · exact indexes
      · trivial
    · rw [mem_singleton.mp inIndexes]
      trivial
    · cases inIndexes

theorem Write.OfFile.frame (ofFile : write.OfFile env docUrl)
    (done : write.onChunks mode chunks = some chunks') (otherUrl : row.docUrl ≠ docUrl) :
    row ∈ chunks'.rows ↔ row ∈ chunks.rows := by
  cases write with
  | stamp =>
    cases done
    exact Iff.rfl
  | ingest rows deleteKeys =>
    obtain ⟨ofRows, ofKeys⟩ := ofFile
    rw [mem_ingestChunks ofRows done, or_iff_left, and_iff_left]
    · refine ⟨fun isKey => otherUrl (ofKeys _ isKey), fun _ atRow => ?_⟩
      obtain ⟨chunk, inRows, place⟩ := mem_map.mp atRow
      exact otherUrl ((congrArg Locator.docUrl place).symm.trans (ofRows.docUrl_eq inRows))
    · intro isRow
      obtain ⟨chunk, inRows, rfl⟩ := mem_map.mp isRow
      exact otherUrl ((rowOf_docUrl _ _).trans (ofRows.docUrl_eq inRows))

theorem Write.OfFile.kept (ofFile : write.OfFile env docUrl) (kept : Kept env mode chunks)
    (done : write.onChunks mode chunks = some chunks') : Kept env mode chunks' := by
  cases write with
  | stamp =>
    cases done
    exact kept
  | ingest rows deleteKeys => exact kept.ingest ofFile.1 done

theorem chunkWrites_frame (ofFile : ∀ write ∈ writes, write.OfFile env docUrl)
    (kept : Kept env mode chunks) (done : chunkWrites mode writes chunks = some chunks') :
    Kept env mode chunks' ∧
      ∀ row : ChunkRow Url, row.docUrl ≠ docUrl → (row ∈ chunks'.rows ↔ row ∈ chunks.rows) := by
  induction writes generalizing chunks with
  | nil =>
    cases done
    exact ⟨kept, fun _ _ => Iff.rfl⟩
  | cons write rest ih =>
    obtain ⟨next, first, later⟩ := Option.bind_eq_some_iff.mp done
    have ofFirst := ofFile write mem_cons_self
    obtain ⟨keptLater, frame⟩ := ih (fun other member =>
      ofFile other (mem_cons_of_mem _ member)) (ofFirst.kept kept first) later
    exact ⟨keptLater, fun row otherUrl =>
      (frame row otherUrl).trans (ofFirst.frame first otherUrl)⟩

variable {corpus : Corpus Url Time}

theorem ingestRows_eq (mode : SearchMode) (corpus : Corpus Url Time)
    (rows : List (ParagraphChunk Url)) (deleteKeys : List (Locator Url)) :
    ∃ count : ChunksTable Url → Nat, ingestRows mode rows deleteKeys corpus =
      (ingestChunks mode rows deleteKeys corpus.chunks).map fun chunks =>
        { corpus with chunks, chunkCount := count chunks } := by
  by_cases idle : mode = .embeddings ∧ rows = [] ∧ deleteKeys = []
  · obtain ⟨rfl, rfl, rfl⟩ := idle
    exact ⟨fun _ => corpus.chunkCount, rfl⟩
  · refine ⟨fun chunks => chunks.rows.length, ?_⟩
    rw [ingestRows]
    simp only [idle, if_false]

theorem Write.exists_run (entry : WriterFileEntry Url Time) (now : Time)
    (done : write.onChunks mode corpus.chunks = some chunks') :
    ∃ corpus', write.run mode entry now corpus = some corpus' ∧ corpus'.chunks = chunks' ∧
      corpus'.indexedFiles =
        match write with
        | .stamp => Function.update corpus.indexedFiles entry.url
            (some { fileMtime := entry.modified, lastIndexedAt := now })
        | .ingest _ _ => corpus.indexedFiles := by
  cases write with
  | stamp =>
    cases done
    exact ⟨_, rfl, rfl, rfl⟩
  | ingest rows deleteKeys =>
    obtain ⟨count, run_eq⟩ := ingestRows_eq mode corpus rows deleteKeys
    have ingested : ingestChunks mode rows deleteKeys corpus.chunks = some chunks' := done
    rw [Write.run, run_eq, ingested]
    exact ⟨_, rfl, rfl, rfl⟩

def Write.isStamp : Write Url → Bool
  | .stamp => true
  | .ingest _ _ => false

omit [DecidableEq Url] in
theorem any_isStamp_fileWrites (toIndex : List (ParagraphChunk Url))
    (toDelete : List (Locator Url)) : (fileWrites toIndex toDelete).any Write.isStamp = true := by
  rw [fileWrites]
  by_cases noDelete : toDelete = [] <;> by_cases noIndex : toIndex = [] <;>
    simp [noDelete, noIndex, Write.isStamp]

theorem exists_runWrites (entry : WriterFileEntry Url Time) (now : Time)
    (done : chunkWrites mode writes corpus.chunks = some chunks') :
    ∃ corpus', runWrites mode entry now writes corpus = some corpus' ∧ corpus'.chunks = chunks' ∧
      corpus'.indexedFiles =
        if writes.any Write.isStamp then Function.update corpus.indexedFiles entry.url
          (some { fileMtime := entry.modified, lastIndexedAt := now })
        else corpus.indexedFiles := by
  induction writes generalizing corpus with
  | nil =>
    cases done
    exact ⟨corpus, rfl, rfl, rfl⟩
  | cons write rest ih =>
    obtain ⟨next, first, later⟩ := Option.bind_eq_some_iff.mp done
    obtain ⟨middle, run, rfl, stamps⟩ := Write.exists_run entry now first
    obtain ⟨last, runRest, isLast, stampsRest⟩ := ih later
    refine ⟨last, ?_, isLast, ?_⟩
    · rw [runWrites, foldlM_cons, run]
      exact runRest
    · rw [stampsRest, stamps]
      cases write with
      | stamp | ingest => simp [Write.isStamp]

theorem Write.onChunks_of_run (done : write.run mode entry now corpus = some corpus') :
    write.onChunks mode corpus.chunks = some corpus'.chunks := by
  cases write with
  | stamp =>
    cases done
    rfl
  | ingest rows deleteKeys =>
    obtain ⟨count, run_eq⟩ := ingestRows_eq mode corpus rows deleteKeys
    rw [Write.run, run_eq] at done
    obtain ⟨chunks, ingested, rfl⟩ := Option.map_eq_some_iff.mp done
    exact ingested

theorem chunkWrites_of_run (done : runWrites mode entry now writes corpus = some corpus') :
    chunkWrites mode writes corpus.chunks = some corpus'.chunks := by
  induction writes generalizing corpus with
  | nil =>
    cases done
    rfl
  | cons write rest ih =>
    obtain ⟨next, first, later⟩ := Option.bind_eq_some_iff.mp done
    rw [chunkWrites_cons, Write.onChunks_of_run first]
    exact ih later

end Reindex

end WriterAgent.Embeddings
