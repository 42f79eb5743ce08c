import WriterAgent.Embeddings.ReindexedFile
import WriterAgent.Foundations.Runs

/-!
# An incremental pass and a rebuild

A folder changes in quiet periods, and after each the corpus is maintained.
-/

namespace WriterAgent.Embeddings

open PyText List

variable {Url Content Time : Type} [DecidableEq Url] [LinearOrder Time] [Zero Time]
  {env : Environment Url Content} {mode : SearchMode} {corpus corpus' : Corpus Url Time}

def RowsCurrent (env : Environment Url Content) (mode : SearchMode) (corpus : Corpus Url Time)
    (file : Url × SavedFile Content Time) : Prop :=
  ∀ row : ChunkRow Url, row.docUrl = file.1 →
    (row ∈ corpus.chunks.rows ↔ row ∈ fileRows env mode file.1 file.2.content)

/-- A pass brings the rows of the file up to date. -/
def Refreshable (env : Environment Url Content) (mode : SearchMode) (corpus : Corpus Url Time)
    (file : Url × SavedFile Content Time) : Prop :=
  if fileIsStale corpus file.1 file.2.modified then
    (indexableChunks env file.1 file.2.content = [] →
      ∀ row ∈ corpus.chunks.rows, row.docUrl ≠ file.1) ∧
    ReindexSafe mode (indexableChunks env file.1 file.2.content) corpus.chunks
  else RowsCurrent env mode corpus file

variable {file : Url × SavedFile Content Time} {docUrl : Url}
  {content : Content} {chunks : ChunksTable Url}
  {listing : List (Url × SavedFile Content Time)}

theorem Refreshable.congr (ready : Refreshable env mode corpus file)
    (rows : ∀ row : ChunkRow Url, row.docUrl = file.1 →
      (row ∈ corpus'.chunks.rows ↔ row ∈ corpus.chunks.rows))
    (stamp : corpus'.indexedFiles file.1 = corpus.indexedFiles file.1) :
    Refreshable env mode corpus' file := by
  rw [Refreshable] at ready ⊢
  rw [fileIsStale_congr rows stamp]
  split_ifs at ready ⊢ with stale
  · refine ⟨fun noChunk row member sameUrl => ?_, ready.2.mono fun row member sameUrl => ?_⟩
    · exact ready.1 noChunk row ((rows row sameUrl).mp member) sameUrl
    · exact (rows row sameUrl).mp member
  · intro row sameUrl
    rw [rows row sameUrl]
    exact ready row sameUrl

omit [DecidableEq Url] in
theorem fileRows_docUrl {row : ChunkRow Url} (member : row ∈ fileRows env mode docUrl content) :
    row.docUrl = docUrl := by
  obtain ⟨chunk, inFile, rfl⟩ := mem_map.mp member
  rw [rowOf_docUrl]
  exact (chunkOf_of_mem inFile).docUrl_eq

/-- A file of a pass has the rows of its contents afterwards, and the other
files keep theirs. -/
structure Refreshed (env : Environment Url Content) (mode : SearchMode)
    (files : List (Url × SavedFile Content Time)) (clock : Url → Time)
    (corpus corpus' : Corpus Url Time) : Prop where
  kept : Kept env mode corpus'.chunks
  mem_iff : ∀ row : ChunkRow Url, row ∈ corpus'.chunks.rows ↔
    (row ∈ corpus.chunks.rows ∧ row.docUrl ∉ files.map Prod.fst) ∨
      ∃ file ∈ files, row ∈ fileRows env mode file.1 file.2.content
  stamps : ∀ docUrl, (corpus'.indexedFiles docUrl = corpus.indexedFiles docUrl ∧
      ∀ row ∈ corpus'.chunks.rows, row.docUrl = docUrl → row ∈ corpus.chunks.rows) ∨
    docUrl ∈ files.map Prod.fst ∧
      ∃ modified, corpus'.indexedFiles docUrl = some ⟨modified, clock docUrl⟩

omit [DecidableEq Url] [LinearOrder Time] [Zero Time] in
theorem Refreshed.mem_iff_single {clock : Url → Time}
    (refreshed : Refreshed env mode [file] clock corpus corpus') (row : ChunkRow Url) :
    row ∈ corpus'.chunks.rows ↔ (row ∈ corpus.chunks.rows ∧ row.docUrl ≠ file.1) ∨
      row ∈ fileRows env mode file.1 file.2.content := by
  simpa using refreshed.mem_iff row

theorem exists_refreshFile (kept : Kept env mode corpus.chunks) (clock : Url → Time)
    (ready : Refreshable env mode corpus file) :
    ∃ corpus', refreshFile env mode (clock file.1) corpus file = some corpus' ∧
      Refreshed env mode [file] clock corpus corpus' := by
  have one_iff : ∀ {chunks : ChunksTable Url}, (∀ row, row ∈ chunks.rows ↔
        (row ∈ corpus.chunks.rows ∧ row.docUrl ≠ file.1) ∨
          row ∈ fileRows env mode file.1 file.2.content) →
      ∀ row : ChunkRow Url, row ∈ chunks.rows ↔
        (row ∈ corpus.chunks.rows ∧ row.docUrl ∉ [file].map Prod.fst) ∨
          ∃ file' ∈ [file], row ∈ fileRows env mode file'.1 file'.2.content := by
    intro chunks mem_iff row
    rw [mem_iff row]
    simp
  rw [refreshFile]
  rw [Refreshable] at ready
  split_ifs at ready ⊢ with stale
  · obtain ⟨emptied, safe⟩ := ready
    obtain ⟨chunks', done, mem_iff⟩ : ∃ chunks', chunkWrites mode
        (reindexWrites env file.1 file.2.content corpus.chunks) corpus.chunks = some chunks' ∧
        ∀ row, row ∈ chunks'.rows ↔ (row ∈ corpus.chunks.rows ∧ row.docUrl ≠ file.1) ∨
          row ∈ fileRows env mode file.1 file.2.content := by
      by_cases noChunk : indexableChunks env file.1 file.2.content = []
      · refine ⟨corpus.chunks, ?_, fun row => ?_⟩
        · rw [reindexWrites, noChunk]
          rfl
        · rw [fileRows, noChunk, map_nil, or_iff_left not_mem_nil, iff_self_and]
          exact emptied noChunk row
      · exact reindex_rows kept noChunk safe
    have keptNext := (chunkWrites_frame (fun _ => reindexWrites_ofFile) kept done).1
    obtain ⟨corpus', run, isChunks, stamps⟩ := exists_runWrites (entryOf file) (clock file.1) done
    refine ⟨corpus', run, isChunks ▸ keptNext, isChunks ▸ one_iff mem_iff, fun docUrl => ?_⟩
    rw [stamps, reindexWrites, any_isStamp_fileWrites]
    by_cases sameUrl : docUrl = file.1
    · right
      rw [sameUrl]
      exact ⟨by simp, file.2.modified, Function.update_self _ _ _⟩
    · refine Or.inl ⟨Function.update_of_ne sameUrl _ _, fun row member isUrl => ?_⟩
      rw [isChunks, mem_iff] at member
      rcases member with ⟨old, -⟩ | isRow
      · exact old
      · exact absurd (isUrl.symm.trans (fileRows_docUrl isRow)) sameUrl
  · refine ⟨corpus, rfl, kept, one_iff fun row => ?_, fun _ => Or.inl ⟨rfl, fun _ old _ => old⟩⟩
    by_cases sameUrl : row.docUrl = file.1
    · simpa [sameUrl] using ready row sameUrl
    · rw [and_iff_left sameUrl, iff_self_or]
      exact fun isRow => absurd (fileRows_docUrl isRow) sameUrl

theorem exists_refreshFiles {files : List (Url × SavedFile Content Time)}
    (distinct : (files.map Prod.fst).Nodup) (kept : Kept env mode corpus.chunks)
    (clock : Url → Time) (ready : ∀ file ∈ files, Refreshable env mode corpus file) :
    ∃ corpus', files.foldlM (fun corpus file => refreshFile env mode (clock file.1) corpus file)
        corpus = some corpus' ∧ Refreshed env mode files clock corpus corpus' := by
  induction files generalizing corpus with
  | nil => exact ⟨corpus, rfl, kept, fun row => by simp, fun _ => Or.inl ⟨rfl, fun _ old _ => old⟩⟩
  | cons file rest ih =>
    rw [map_cons, nodup_cons] at distinct
    obtain ⟨next, run, first⟩ := exists_refreshFile kept clock (ready file mem_cons_self)
    have readyRest : ∀ other ∈ rest, Refreshable env mode next other := by
      intro other member
      have otherUrl : other.1 ≠ file.1 := by
        intro sameUrl
        exact distinct.1 (sameUrl ▸ mem_map_of_mem member)
      refine (ready other (mem_cons_of_mem _ member)).congr ?_ ?_
      · intro row sameUrl
        rw [first.mem_iff_single, or_iff_left, and_iff_left (sameUrl ▸ otherUrl)]
        exact fun isRow => otherUrl (sameUrl.symm.trans (fileRows_docUrl isRow))
      · rcases first.stamps other.1 with ⟨same, -⟩ | ⟨isFile, -⟩
        · exact same
        · exact absurd (mem_singleton.mp isFile) otherUrl
    obtain ⟨last, runRest, later⟩ := ih distinct.2 first.kept readyRest
    refine ⟨last, ?_, later.kept, fun row => ?_, fun docUrl => ?_⟩
    · rw [foldlM_cons, run]
      exact runRest
    · rw [later.mem_iff, first.mem_iff_single, map_cons, mem_cons, not_or]
      simp only [mem_cons, exists_eq_or_imp]
      constructor
      · rintro (⟨⟨old, away⟩ | isRow, notRest⟩ | inRest)
        · exact Or.inl ⟨old, away, notRest⟩
        · exact Or.inr (Or.inl isRow)
        · exact Or.inr (Or.inr inRest)
      · rintro (⟨old, away, notRest⟩ | isRow | inRest)
        · exact Or.inl ⟨Or.inl ⟨old, away⟩, notRest⟩
        · exact Or.inl ⟨Or.inr isRow, fileRows_docUrl isRow ▸ distinct.1⟩
        · exact Or.inr inRest
    · rw [map_cons, mem_cons]
      rcases later.stamps docUrl with ⟨same, rows⟩ | ⟨inRest, stamped⟩
      · rw [same]
        rcases first.stamps docUrl with ⟨same, rows'⟩ | ⟨isFile, stamped⟩
        · exact Or.inl ⟨same, fun row member isUrl =>
            rows' row (rows row member isUrl) isUrl⟩
        · exact Or.inr ⟨Or.inl (mem_singleton.mp isFile), stamped⟩
      · exact Or.inr ⟨Or.inr inRest, stamped⟩

theorem storedHashes_of_absent (absent : ∀ row ∈ chunks.rows, row.docUrl ≠ docUrl) :
    storedHashes env docUrl chunks = PyDict.empty := by
  have noRow : chunks.rows.filter (·.docUrl = docUrl) = [] := by
    rw [filter_eq_nil_iff]
    intro row member
    simpa using absent row member
  have selected : env.select [] = [] := perm_nil.mp (env.select_perm [])
  rw [storedHashes, noRow, selected]
  rfl

theorem reindexWrites_of_absent (absent : ∀ row ∈ chunks.rows, row.docUrl ≠ docUrl) :
    reindexWrites env docUrl content chunks =
      fileWrites (indexableChunks env docUrl content) [] := by
  have diff_eq : diffChunkRows env (indexableChunks env docUrl content) chunks =
      (indexableChunks env docUrl content, []) := by
    have facts : ∀ chunk ∈ indexableChunks env docUrl content,
        chunk.docUrl = docUrl ∧ [] ≠ chunk.contentHash := fun chunk inFile =>
      ⟨(chunkOf_of_mem inFile).docUrl_eq,
        fun empty => env.sha256_ne _ ((chunkOf_of_mem inFile).hash_eq.symm.trans empty.symm)⟩
    generalize indexableChunks env docUrl content = extracted at facts
    cases extracted with
    | nil => rfl
    | cons first rest =>
      rw [diffChunkRows, (facts first mem_cons_self).1, storedHashes_of_absent absent]
      refine Prod.ext (filter_eq_self.mpr fun chunk member => ?_) rfl
      rw [bne_iff_ne]
      exact (facts chunk member).2
  rw [reindexWrites, diff_eq]

theorem refreshFile_of_absent (now : Time)
    (absent : ∀ row ∈ corpus.chunks.rows, row.docUrl ≠ file.1) :
    refreshFile env mode now corpus file = coldFile env mode now corpus file := by
  rw [refreshFile, if_pos (fileIsStale_iff.mpr (Or.inl absent)),
    reindexWrites_of_absent absent, coldFile, fileWrites]
  by_cases noChunk : indexableChunks env file.1 file.2.content = []
  · simp [noChunk, runWrites, Write.run, entryOf]
  · simp only [noChunk, if_true, if_false, nil_append, not_false_eq_true, ne_eq]
    rw [runWrites, foldlM_cons, Write.run]
    cases ingestRows mode (indexableChunks env file.1 file.2.content) [] corpus with
    | none | some => rfl

theorem foldlM_refreshFile_of_absent (clock : Url → Time)
    (distinct : (listing.map Prod.fst).Nodup) (kept : Kept env mode corpus.chunks)
    (absent : ∀ row ∈ corpus.chunks.rows, row.docUrl ∉ listing.map Prod.fst) :
    listing.foldlM (fun corpus file => refreshFile env mode (clock file.1) corpus file) corpus =
      listing.foldlM (fun corpus file => coldFile env mode (clock file.1) corpus file)
        corpus := by
  induction listing generalizing corpus with
  | nil => rfl
  | cons file rest ih =>
    rw [map_cons, nodup_cons] at distinct
    have noRow : ∀ row ∈ corpus.chunks.rows, row.docUrl ≠ file.1 := by
      intro row member sameUrl
      exact absent row member (by simp [sameUrl])
    rw [foldlM_cons, foldlM_cons, ← refreshFile_of_absent _ noRow]
    cases run : refreshFile env mode (clock file.1) corpus file with
    | none => rfl
    | some next =>
      have done : chunkWrites mode (reindexWrites env file.1 file.2.content corpus.chunks)
          corpus.chunks = some next.chunks := by
        rw [refreshFile, if_pos (fileIsStale_iff.mpr (Or.inl noRow))] at run
        exact chunkWrites_of_run run
      obtain ⟨keptNext, frame⟩ := chunkWrites_frame (fun _ => reindexWrites_ofFile) kept done
      refine ih distinct.2 keptNext fun row member inRest => ?_
      have otherUrl : row.docUrl ≠ file.1 := fun sameUrl => distinct.1 (sameUrl ▸ inRest)
      exact absent row ((frame row otherUrl).mp member) (mem_cons_of_mem _ inRest)

theorem coldBuild_eq (clock : Url → Time) (distinct : (listing.map Prod.fst).Nodup) :
    coldBuild env mode clock listing =
      incrementalRefresh env mode clock listing Corpus.missing := by
  rw [coldBuild, incrementalRefresh, foldlM_refreshFile_of_absent clock distinct
    (kept_empty mode) fun _ member => absurd member not_mem_nil]

end WriterAgent.Embeddings
