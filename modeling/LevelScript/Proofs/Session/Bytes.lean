import LevelScript.Proofs.Bytes.Codec
import LevelScript.Session.Bytes

/-!
# Sessions read back

A session that was written as bytes is read back as it was: all scopes, all elements of sparse
arrays, and all that waits, in its order.

* `insert_toList`: a map is made again of its own entries.
* `Session.ofBytes_toBytes`: a session is read back from its bytes.
-/

namespace LevelScript

open Std

/-- Filing the entries of a map one after the other gives the map again. -/
theorem insert_toList {β : Type} (m : ExtTreeMap Int32 β) :
    m.toList.foldl (fun m e => m.insert e.1 e.2) ∅ = m := by
  rw [← ExtTreeMap.insertMany_list_eq_foldl]
  apply ExtTreeMap.ext_getElem?
  intro k
  cases hk : m[k]? with
  | some v =>
    have hmem : (k, v) ∈ m.toList := ExtTreeMap.mem_toList_iff_getElem?_eq_some.mpr hk
    exact ExtTreeMap.getElem?_insertMany_list_of_mem compare_self ExtTreeMap.distinct_keys_toList
      hmem
  | none =>
    have hnot : (m.toList.map Prod.fst).contains k = false := by
      rw [List.contains_eq_mem, decide_eq_false_iff_not]
      intro hmem
      obtain ⟨⟨k', v⟩, he, rfl⟩ := List.mem_map.mp hmem
      rw [ExtTreeMap.mem_toList_iff_getElem?_eq_some.mp he] at hk
      cases hk
    rw [ExtTreeMap.getElem?_insertMany_list_of_contains_eq_false hnot]
    exact ExtTreeMap.getElem?_empty

namespace Codec

theorem lawful_sparseArray : sparseArray.Lawful :=
  (lawful_int.pair lawful_int).list.convert fun a => congrArg SparseArray.mk (insert_toList a.cells)

theorem lawful_deferredAction : deferredAction.Lawful :=
  lawful_enumeration (fun a => by cases a <;> simp) (by decide)

theorem lawful_scriptArgs : scriptArgs.Lawful :=
  (lawful_int.pair (lawful_int.pair lawful_int)).convert fun _ => rfl

theorem lawful_deferredEntry : deferredEntry.Lawful :=
  (lawful_int.pair <| lawful_deferredAction.pair <| lawful_int.pair <| lawful_scriptArgs.pair
    lawful_byte.option).convert fun _ => rfl

theorem lawful_deferredQueue : deferredQueue.Lawful :=
  (lawful_int.pair lawful_deferredEntry.list).list.convert fun q =>
    congrArg DeferredQueue.mk (insert_toList q.maps)

theorem lawful_sessionParts : sessionParts.Lawful :=
  lawful_int.array.pair <| lawful_sparseArray.array.pair <| lawful_int.array.pair <|
    lawful_sparseArray.array.pair lawful_deferredQueue

end Codec

/-- A session is read back from its bytes. -/
theorem Session.ofBytes_toBytes {s : Session} (h : s.toBytes.length < 2 ^ 64) :
    ofBytes s.toBytes = .ok s := by
  have hdecode := Codec.lawful_sessionParts.decode_encode (s.worldVars.toArray,
    s.worldArrays.toArray, s.globalVars.toArray, s.globalArrays.toArray, s.deferred) [] h
  rw [List.append_nil] at hdecode
  rw [ofBytes, toBytes, hdecode]
  exact dif_pos ⟨s.worldVars.size_toArray, s.worldArrays.size_toArray, s.globalVars.size_toArray,
    s.globalArrays.size_toArray⟩

end LevelScript
