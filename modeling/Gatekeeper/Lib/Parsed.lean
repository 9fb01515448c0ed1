import Gatekeeper.Lib.EcmaOps

/-!
# What is made of a written value

`JSON.parse` of what `JSON.stringify` wrote has the members of the value, perhaps listed in
another order, so its text with sorted keys is the one of the value.
-/

namespace Ecma

/-- The value that is read back from the text of a value. -/
def Value.parsed (v : Value) : Value := v.nulled.assembled

/-- The members of what is made of distinct members. -/
theorem assembled_object {ms : List (Str × Value)} (h : (ms.map Prod.fst).Nodup) :
    (Value.object ms).assembled = .object (listed (ms.map fun m => (m.1, m.2.assembled))) := by
  rw [Value.assembled, assembledMembers_eq (by rwa [List.nil_append]), List.nil_append]

/-- Objects with the same distinct members, in whatever order, are alike with sorted keys. -/
theorem sorted_object_of_perm {ms ns : List (Str × Value)} (h : (ms.map Prod.fst).Nodup)
    (hperm : (sortedMembers ms).Perm (sortedMembers ns)) :
    (Value.object ms).sorted = (Value.object ns).sorted := by
  have hkeys : ((sortedMembers ms).map Prod.fst).Nodup := by
    rw [sortedMembers_eq, List.map_map]
    exact h
  rw [Value.sorted, Value.sorted, (sortMembers_eq_iff hkeys).mpr hperm]

mutual

theorem sorted_assembled : ∀ {v : Value}, v.Distinct → v.assembled.sorted = v.sorted
  | .array xs, h => by
    rw [Value.assembled, Value.sorted, Value.sorted, sortedElements_assembled h]
  | .object ms, h => by
    rw [assembled_object h.1]
    refine (sorted_object_of_perm h.1 ?_).symm
    rw [sortedMembers_eq ms, ← sortedMembers_assembled h.2, sortedMembers_eq]
    exact ((perm_listed _).map _).symm
  | .null, _ | .bool _, _ | .number _, _ | .string _, _ => rfl

theorem sortedElements_assembled : ∀ {xs : List Value}, allDistinct xs →
    sortedElements (assembledElements xs) = sortedElements xs
  | [], _ => rfl
  | x :: xs, h => by
    rw [assembledElements, sortedElements, sortedElements, sorted_assembled h.1,
      sortedElements_assembled h.2]

theorem sortedMembers_assembled : ∀ {ms : List (Str × Value)}, allDistinctMembers ms →
    (ms.map fun m => (m.1, m.2.assembled)).map (fun m => (m.1, m.2.sorted)) =
      ms.map fun m => (m.1, m.2.sorted)
  | [], _ => rfl
  | (k, x) :: ms, h => by
    rw [List.map_cons, List.map_cons, List.map_cons, sorted_assembled h.1,
      sortedMembers_assembled h.2]

end

theorem distinct_filter {ms : List (Str × Value)} (h : (Value.object ms).Distinct)
    (keep : Str → Bool) : (Value.object (ms.filter fun m => keep m.1)).Distinct := by
  refine ⟨h.1.sublist (List.filter_sublist.map Prod.fst), allDistinctMembers_iff.mpr ?_⟩
  intro m hm
  exact allDistinctMembers_iff.mp h.2 m (List.mem_of_mem_filter hm)

/-- Leaving out some of the members commutes with writing and reading back. -/
theorem sorted_filter_parsed {ms : List (Str × Value)} (h : (Value.object ms).Distinct)
    (keep : Str → Bool) :
    ∃ ns, (Value.object ms).parsed = .object ns ∧
      (Value.object (ns.filter fun m => keep m.1)).sorted =
        (Value.object (ms.filter fun m => keep m.1)).nulled.sorted := by
  have hkept := nulled_distinct (distinct_filter h keep)
  have hfilter : ((nulledMembers ms).map fun m => (m.1, m.2.assembled)).filter
      (fun m => keep m.1) =
        (nulledMembers (ms.filter fun m => keep m.1)).map fun m => (m.1, m.2.assembled) := by
    rw [nulledMembers_eq, nulledMembers_eq, List.filter_map, List.filter_map]
    rfl
  refine ⟨_, assembled_object (nulled_distinct h).1, ?_⟩
  refine (sorted_object_of_perm hkept.1 ?_).symm
  rw [sortedMembers_eq, ← sortedMembers_assembled hkept.2, ← hfilter, sortedMembers_eq]
  exact (((perm_listed _).filter _).map _).symm

/-- The value itself has no key twice. -/
def Value.NodupKeys : Value → Prop
  | .object ms => (ms.map Prod.fst).Nodup
  | _ => True

/-- A member that is read of the value that is read back. -/
theorem get?_parsed_of_some {v x : Value} {name : String} (h : v.NodupKeys)
    (hx : v.get? name = some x) : v.parsed.get? name = some x.parsed := by
  cases v with
  | object ms =>
    have hget : (Value.object ms).parsed.get? name =
        ((Value.object ms).get? name).map Value.parsed := get?_parsed h name
    rw [hget, hx, Option.map_some]
  | _ => cases hx

theorem get?_parsed_of_string {v : Value} {name : String} {s : Str} (h : v.NodupKeys)
    (hs : v.get? name = some (.string s)) : v.parsed.get? name = some (.string s) :=
  get?_parsed_of_some h hs

theorem parsed_array (xs : List Value) :
    (Value.array xs).parsed = .array (xs.map Value.parsed) := by
  induction xs with
  | nil => rfl
  | cons x xs ih =>
    have hrest : assembledElements (nulledElements xs) = xs.map Value.parsed :=
      Value.array.inj ih
    rw [Value.parsed, Value.nulled, nulledElements, Value.assembled, assembledElements, hrest,
      List.map_cons]
    rfl

/-! ## An object with a member set -/

theorem map_fst_setMember (ms : List (Str × Value)) (k : Str) (x : Value) :
    (setMember ms k x).map Prod.fst =
      if k ∈ ms.map Prod.fst then ms.map Prod.fst else ms.map Prod.fst ++ [k] := by
  rw [setMember]
  split_ifs
  · rw [List.map_map]
    refine List.map_congr_left fun m _ => ?_
    by_cases hm : m.1 = k
    · simp [hm]
    · simp [hm]
  · rw [List.map_append, List.map_singleton]

theorem nodup_setMember {ms : List (Str × Value)} (h : (ms.map Prod.fst).Nodup) (k : Str)
    (x : Value) : ((setMember ms k x).map Prod.fst).Nodup := by
  rw [map_fst_setMember]
  split_ifs with hk
  · exact h
  · exact List.nodup_append.mpr ⟨h, List.nodup_singleton k, fun a ha b hb hab => hk
      (List.mem_singleton.mp hb ▸ hab ▸ ha)⟩

theorem distinct_setMember {ms : List (Str × Value)} (h : (Value.object ms).Distinct) (k : Str)
    {x : Value} (hx : x.Distinct) : (Value.object (setMember ms k x)).Distinct := by
  refine ⟨nodup_setMember h.1 k x, allDistinctMembers_iff.mpr fun m hm => ?_⟩
  have hold := allDistinctMembers_iff.mp h.2
  rw [setMember] at hm
  split_ifs at hm
  · obtain ⟨n, hn, rfl⟩ := List.mem_map.mp hm
    split_ifs
    · exact hx
    · exact hold n hn
  · rcases List.mem_append.mp hm with hm | hm
    · exact hold m hm
    · rw [List.mem_singleton.mp hm]
      exact hx

/-- The other members are left as they are. -/
theorem filter_setMember (ms : List (Str × Value)) (k : Str) (x : Value) :
    ((setMember ms k x).filter fun m => decide (m.1 ≠ k)) =
      ms.filter fun m => decide (m.1 ≠ k) := by
  have hmap : ((ms.map fun m => if m.1 = k then (k, x) else m).filter fun m =>
      decide (m.1 ≠ k)) = ms.filter fun m => decide (m.1 ≠ k) := by
    induction ms with
    | nil => rfl
    | cons m ms ih =>
      rw [List.map_cons, List.filter_cons, List.filter_cons, ih]
      by_cases hm : m.1 = k
      · simp [hm]
      · simp [hm]
  rw [setMember]
  split_ifs
  · exact hmap
  · simp

end Ecma
