import LevelScript.Proofs.Bytes.Exact
import LevelScript.Proofs.Session.Bytes
import LevelScript.Proofs.Snapshot.Transparency

/-!
# Saved bytes are prefix codes

The bytes of a snapshot or a session are read back whatever follows them, and are refused if they
are cut off anywhere. A snapshot has one form: whatever is read as it begins with its bytes. A
session has more than one, since the entries of its maps are read in any order.

* `Codec.exact_snapshot`: the codec of snapshots reads nothing but what it writes.
* `Codec.local_sessionParts`: the codec of sessions looks at nothing beyond what it takes.
* `saved_bytes_are_prefix_codes`: both formats.
-/

namespace LevelScript

namespace Codec

/-! ## Snapshots -/

theorem exact_actor : actor.Exact := (exact_word.pair exact_word).convert fun _ => rfl

theorem exact_line : line.Exact := exact_word.convert fun _ => rfl

theorem exact_side : side.Exact := exact_enumeration (by decide)

theorem exact_status : status.Exact := by
  refine exact_cases 10 fun n d h => ?_
  split at h
  case h_11 => cases h
  all_goals obtain rfl := Option.some.inj h
  · exact writesCase_plain rfl
  · exact writesCase_plain rfl
  · exact writesCase_part exact_word fun _ => rfl
  · exact writesCase_part exact_int fun _ => rfl
  · exact writesCase_part exact_int fun _ => rfl
  · exact writesCase_part exact_int fun _ => rfl
  · exact writesCase_part exact_int fun _ => rfl
  · exact writesCase_plain rfl
  · exact writesCase_plain rfl
  · exact writesCase_plain rfl

theorem exact_frame : frame.Exact := by
  refine exact_cases 2 fun n d h => ?_
  split at h
  case h_3 => cases h
  all_goals obtain rfl := Option.some.inj h
  · exact writesCase_plain rfl
  · exact writesCase_part exact_word fun _ => rfl

theorem exact_returnRecord : returnRecord.Exact :=
  (exact_word.pair (exact_frame.pair (exact_word.option.pair exact_bool))).convert fun _ => rfl

theorem exact_slot : slot.Exact := by
  refine exact_cases 2 fun n d h => ?_
  split at h
  case h_3 => cases h
  all_goals obtain rfl := Option.some.inj h
  · exact writesCase_part exact_int fun _ => rfl
  · exact writesCase_part exact_returnRecord fun _ => rfl

theorem exact_fingerprint : fingerprint.Exact :=
  (exact_word.pair (exact_block 32)).convert fun _ => rfl

theorem exact_savedInstance : savedInstance.Exact :=
  Exact.convert (exact_int.pair <| exact_word.pair <| exact_status.pair <|
    exact_int.array.pair <| exact_actor.option.pair <| exact_line.option.pair <|
    exact_side.pair <| exact_slot.array.pair <| exact_frame.pair <| exact_word.option.pair <|
    exact_text.pair <| exact_word.option.pair <| exact_int.pair <|
    exact_long.pair exact_bool) fun _ => rfl

theorem exact_snapshot : snapshot.Exact :=
  Exact.convert (exact_int.pair <| exact_fingerprint.pair <| exact_int.array.pair <|
    exact_int.array.array.pair <| exact_savedInstance.list.pair exact_long) fun _ => rfl

/-! ## Sessions -/

theorem local_sparseArray : sparseArray.Local :=
  ((exact_int.pair exact_int).list.isLocal (lawful_int.pair lawful_int).list).convert _ _

theorem exact_deferredEntry : deferredEntry.Exact :=
  Exact.convert (exact_int.pair <| Exact.pair (exact_enumeration (by decide)) <|
    exact_int.pair <| Exact.pair
      (Exact.convert (exact_int.pair (exact_int.pair exact_int)) fun _ => rfl)
      exact_byte.option) fun _ => rfl

theorem local_deferredQueue : deferredQueue.Local :=
  ((exact_int.pair exact_deferredEntry.list).list.isLocal
    (lawful_int.pair lawful_deferredEntry.list).list).convert _ _

theorem local_sessionParts : sessionParts.Local :=
  (exact_int.array.isLocal lawful_int.array).pair <| local_sparseArray.array.pair <|
    (exact_int.array.isLocal lawful_int.array).pair <| local_sparseArray.array.pair
      local_deferredQueue

end Codec

/-! ## Both formats -/

namespace Snapshot

variable {s : Snapshot}

theorem ofBytes_append (h : s.toBytes.length < 2 ^ 64) (rest : List UInt8) :
    ofBytes (s.toBytes ++ rest) = .ok s := by
  rw [ofBytes, toBytes, Codec.lawful_snapshot.decode_encode s rest h]

theorem ofBytes_cut (h : s.toBytes.length < 2 ^ 64) {front : List UInt8}
    (hfront : front <+: s.toBytes) (hne : front ≠ s.toBytes) :
    ∃ e, ofBytes front = .error (.decode e) := by
  obtain ⟨e, he⟩ := Codec.error_of_cut Codec.lawful_snapshot
    (Codec.exact_snapshot.isLocal Codec.lawful_snapshot) h hfront hne
  exact ⟨e, by rw [ofBytes, he]⟩

theorem toBytes_prefix {bytes : List UInt8} (h : ofBytes bytes = .ok s) : s.toBytes <+: bytes := by
  unfold ofBytes at h
  split at h
  · rename_i s' rest hdecode
    obtain rfl := Except.ok.inj h
    exact ⟨rest, (Codec.exact_snapshot bytes s' rest hdecode).symm⟩
  · cases h

end Snapshot

namespace Session

variable {s : Session}

theorem ofBytes_append (h : s.toBytes.length < 2 ^ 64) (rest : List UInt8) :
    ofBytes (s.toBytes ++ rest) = .ok s := by
  have hdecode := Codec.lawful_sessionParts.decode_encode (s.worldVars.toArray,
    s.worldArrays.toArray, s.globalVars.toArray, s.globalArrays.toArray, s.deferred) rest h
  rw [ofBytes, toBytes, hdecode]
  exact dif_pos ⟨s.worldVars.size_toArray, s.worldArrays.size_toArray, s.globalVars.size_toArray,
    s.globalArrays.size_toArray⟩

theorem ofBytes_cut (h : s.toBytes.length < 2 ^ 64) {front : List UInt8}
    (hfront : front <+: s.toBytes) (hne : front ≠ s.toBytes) :
    ∃ e, ofBytes front = .error (.decode e) := by
  obtain ⟨e, he⟩ := Codec.error_of_cut Codec.lawful_sessionParts Codec.local_sessionParts h hfront
    hne
  exact ⟨e, by rw [ofBytes, he]⟩

end Session

/-- **Saved bytes are prefix codes.** A snapshot is read back from its bytes whatever follows
them, it is refused if they are cut off anywhere, and whatever is read as it begins with them. A
session is read back and refused alike. Lengths are written in 64 bits, so bytes that are longer
than any memory are left out. -/
theorem saved_bytes_are_prefix_codes :
    (∀ s : Snapshot, s.toBytes.length < 2 ^ 64 →
      (∀ rest, Snapshot.ofBytes (s.toBytes ++ rest) = .ok s) ∧
      ∀ front, front <+: s.toBytes → front ≠ s.toBytes →
        ∃ e, Snapshot.ofBytes front = .error (.decode e)) ∧
    (∀ bytes s, Snapshot.ofBytes bytes = .ok s → s.toBytes <+: bytes) ∧
    (∀ s : Session, s.toBytes.length < 2 ^ 64 →
      (∀ rest, Session.ofBytes (s.toBytes ++ rest) = .ok s) ∧
      ∀ front, front <+: s.toBytes → front ≠ s.toBytes →
        ∃ e, Session.ofBytes front = .error (.decode e)) := by
  refine ⟨fun s hlength => ⟨?_, ?_⟩, fun bytes s => Snapshot.toBytes_prefix,
    fun s hlength => ⟨?_, ?_⟩⟩
  · exact Snapshot.ofBytes_append hlength
  · exact fun front => Snapshot.ofBytes_cut hlength
  · exact Session.ofBytes_append hlength
  · exact fun front => Session.ofBytes_cut hlength

namespace Filed

/-- An instance that waits, in a function that it called. -/
def saved : Snapshot where
  map := 7
  fingerprint := ⟨12, .replicate 32 255⟩
  mapVars := #[-1, 2]
  mapArrays := #[#[], #[3]]
  instances := [{
    number := 1, pc := 8, status := .scriptWait 2, locals := #[0, 4], activator := some ⟨1, 2⟩
    line := none, side := .back, segment := #[.value 5, .record ⟨4, .stack 1, some 3, true⟩]
    frame := .script, function := some 3, print := "né", hudMark := none, result := 0
    lastTick := 6, tracked := true }]
  tick := 6

/-- A request waits for map 2. -/
def session : Session :=
  { Session.empty with deferred := DeferredQueue.empty.push ⟨2, .suspend, 1, default, some 3⟩ }

/-- A snapshot and a session, with more bytes behind them and with the last byte cut off. -/
theorem saved_bytes_are_prefix_codes_filed :
    Snapshot.ofBytes (saved.toBytes ++ [1, 2]) = .ok saved ∧
    (∃ e, Snapshot.ofBytes saved.toBytes.dropLast = .error (.decode e)) ∧
    (∃ s, Snapshot.ofBytes (saved.toBytes ++ [1, 2]) = .ok s ∧
      s.toBytes <+: saved.toBytes ++ [1, 2]) ∧
    Session.ofBytes (session.toBytes ++ [1, 2]) = .ok session ∧
    ∃ e, Session.ofBytes session.toBytes.dropLast = .error (.decode e) := by
  have hlengths : (0 < saved.toBytes.length ∧ saved.toBytes.length < 2 ^ 64) ∧
      0 < session.toBytes.length ∧ session.toBytes.length < 2 ^ 64 := by decide +kernel
  obtain ⟨⟨hpos, hlt⟩, hpos', hlt'⟩ := hlengths
  have hcut (l : List UInt8) (hl : 0 < l.length) : l.dropLast ≠ l := fun heq => by
    have hlen := congrArg List.length heq
    rw [List.length_dropLast] at hlen
    omega
  obtain ⟨hsnapshot, hprefix, hsession⟩ := saved_bytes_are_prefix_codes
  have hread := (hsnapshot saved hlt).1 [1, 2]
  exact ⟨hread, (hsnapshot saved hlt).2 _ (List.dropLast_prefix _) (hcut _ hpos),
    ⟨saved, hread, hprefix _ saved hread⟩, (hsession session hlt').1 [1, 2],
    (hsession session hlt').2 _ (List.dropLast_prefix _) (hcut _ hpos')⟩

end Filed

end LevelScript
