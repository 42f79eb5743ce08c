import WriterAgent.Calc.ExcelPyConvert.ToDag

/-!
# What merging the dependencies keeps

The loop over the resolved dependencies keeps the data arguments distinct, and
sends the index of every dependency it does not drop to the place of its range.
-/

namespace WriterAgent.Calc.ExcelPyConvert

open PyText List

/-- What holds of the loop's state behind some dependencies. -/
structure BindingsOk (processed : List ResolvedDep) (b : Bindings) : Prop where
  distinct : b.dataArgs.Nodup
  norms : ∀ a1 k, b.a1ToNorm.get? a1 = some k ↔ b.dataArgs[k]? = some a1
  mapped : ∀ i k, b.indexMap.get? i = some k → ∃ r, processed[i]? = some r ∧
    r.kind ≠ .unresolved ∧ b.dataArgs[k]? = some r.a1

variable {upper : Text → Text} {modes : PyDict Nat HeaderMode}
variable {processed : List ResolvedDep} {b : Bindings}

theorem bindingsOk_empty : BindingsOk [] {} := by
  refine ⟨nodup_nil, ?_, ?_⟩
  · intro a1 k
    simp
  · intro i k found
    simp at found

variable {r : ResolvedDep} {i : Nat}

theorem BindingsOk.mapped_append (ok : BindingsOk processed b) (r : ResolvedDep)
    {k : Nat} (found : b.indexMap.get? i = some k) :
    ∃ s, (processed ++ [r])[i]? = some s ∧ s.kind ≠ .unresolved ∧ b.dataArgs[k]? = some s.a1 := by
  obtain ⟨s, place, kind, range⟩ := ok.mapped i k found
  refine ⟨s, ?_, kind, range⟩
  rw [List.getElem?_append_left (List.getElem?_eq_some_iff.mp place).1, place]

theorem BindingsOk.merge (ok : BindingsOk processed b) (kind : r.kind ≠ .unresolved)
    {norm : Nat} (bound : b.a1ToNorm.get? r.a1 = some norm) :
    BindingsOk (processed ++ [r]) (mergeBinding upper modes b processed.length r norm) := by
  refine ⟨ok.distinct, ok.norms, ?_⟩
  intro i k found
  have updated : (if i = processed.length then some norm
      else b.indexMap.get? i) = some k := by
    rw [← PyDict.get?_set]
    exact found
  split at updated
  · rename_i same
    obtain rfl : norm = k := by simpa using updated
    exact ⟨r, by simp [same], kind, (ok.norms _ _).mp bound⟩
  · exact ok.mapped_append r updated

theorem BindingsOk.new (ok : BindingsOk processed b) (kind : r.kind ≠ .unresolved)
    (unbound : b.a1ToNorm.get? r.a1 = none) :
    BindingsOk (processed ++ [r]) (newBinding modes b processed.length r) := by
  have absent : r.a1 ∉ b.dataArgs := by
    intro member
    obtain ⟨k, inside, place⟩ := mem_iff_getElem.mp member
    have bound := (ok.norms r.a1 k).mpr (List.getElem?_eq_some_iff.mpr ⟨inside, place⟩)
    rw [unbound] at bound
    simp at bound
  refine ⟨ok.distinct.append (nodup_singleton r.a1) (disjoint_singleton.mpr absent), ?_, ?_⟩
  · intro a1 k
    unfold newBinding
    rw [PyDict.get?_set]
    split
    · rename_i same
      subst same
      constructor
      · intro found
        obtain rfl : b.dataArgs.length = k := by simpa using found
        simp
      · intro found
        by_cases inside : k < b.dataArgs.length
        · rw [List.getElem?_append_left inside] at found
          exact absurd (mem_of_getElem? found) absent
        · have last := (List.getElem?_eq_some_iff.mp found).1
          rw [length_append, length_singleton] at last
          congr 1
          omega
    · rename_i different
      rw [ok.norms]
      by_cases inside : k < b.dataArgs.length
      · rw [List.getElem?_append_left inside]
      · rw [List.getElem?_append_right (by omega), List.getElem?_eq_none (by omega)]
        constructor
        · simp
        · intro found
          have member := mem_of_getElem? found
          rw [mem_singleton] at member
          exact absurd member different
  · intro i k found
    have updated : (if i = processed.length then some b.dataArgs.length
        else b.indexMap.get? i) = some k := by
      rw [← PyDict.get?_set]
      exact found
    split at updated
    · rename_i same
      obtain rfl : b.dataArgs.length = k := by simpa using updated
      exact ⟨r, by simp [same], kind, by simp [newBinding]⟩
    · obtain ⟨s, place, resolved, range⟩ := ok.mapped_append r updated
      refine ⟨s, place, resolved, ?_⟩
      unfold newBinding
      rw [List.getElem?_append_left (List.getElem?_eq_some_iff.mp range).1, range]

theorem BindingsOk.step (ok : BindingsOk processed b) (r : ResolvedDep) :
    BindingsOk (processed ++ [r]) (bindDep upper modes b (r, processed.length)) := by
  unfold bindDep
  dsimp only
  split
  · exact ⟨ok.distinct, ok.norms, fun _ _ => ok.mapped_append r⟩
  · rename_i usable
    have kind : r.kind ≠ .unresolved := fun same => usable (.inl same)
    cases bound : b.a1ToNorm.get? r.a1 with
    | some norm => exact ok.merge kind bound
    | none => exact ok.new kind bound

theorem BindingsOk.run (rest : List ResolvedDep) (ok : BindingsOk processed b) :
    BindingsOk (processed ++ rest)
      ((rest.zipIdx processed.length).foldl (bindDep upper modes) b) := by
  induction rest generalizing processed b with
  | nil => simpa using ok
  | cons r rest ih =>
    have step : BindingsOk (processed ++ [r])
        (bindDep upper modes b (r, processed.length)) := ok.step r
    have after := ih step
    rw [append_assoc, length_append] at after
    exact after

theorem bindingsOk_normalizeBindings (resolved : List ResolvedDep) :
    BindingsOk resolved (normalizeBindings upper resolved modes) := by
  have run : BindingsOk ([] ++ resolved) (normalizeBindings upper resolved modes) :=
    BindingsOk.run resolved bindingsOk_empty
  rwa [nil_append] at run

theorem BindingsOk.complete (ok : BindingsOk processed b)
    (whole : b.indexMap.entries.length = processed.length) (place : processed[i]? = some r) :
    r.kind ≠ .unresolved ∧ ∃ k, b.indexMap.get? i = some k ∧ b.dataArgs[k]? = some r.a1 := by
  have inRange : b.indexMap.keys ⊆ List.range processed.length := by
    intro key member
    obtain ⟨entry, entryMember, rfl⟩ := mem_map.mp member
    have found := PyDict.get?_eq_some_iff.mpr entryMember
    obtain ⟨s, place, _, _⟩ := ok.mapped _ _ found
    exact mem_range.mpr (List.getElem?_eq_some_iff.mp place).1
  have keyCount : b.indexMap.keys.length = processed.length := by
    rw [PyDict.keys, length_map, whole]
  have all := (subperm_of_subset b.indexMap.distinct inRange).perm_of_length_le
    (by rw [length_range]; exact keyCount.ge)
  have key : i ∈ b.indexMap.keys := all.symm.subset
    (mem_range.mpr (List.getElem?_eq_some_iff.mp place).1)
  obtain ⟨entry, entryMember, same⟩ := mem_map.mp key
  have found := PyDict.get?_eq_some_iff.mpr entryMember
  rw [same] at found
  obtain ⟨s, place', kind, range⟩ := ok.mapped i entry.2 found
  obtain rfl : r = s := by
    rw [place] at place'
    simpa using place'
  exact ⟨kind, entry.2, found, range⟩

end WriterAgent.Calc.ExcelPyConvert
