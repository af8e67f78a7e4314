import LevelScript.Proofs.Session.Ledger
import LevelScript.Proofs.Snapshot.PrefixCode

/-!
# Sessions in their one form

What a session holds can be stored in one way only, as long as no sparse array stores a zero, no
map has an empty queue, and every entry waits under its own map. Everything that is done to a
session keeps it so. Only reading one from bytes may not: the bytes are believed.

* `Session.Canonical`: the one form.
* `Session.canonical_edit`: every edit keeps it, and so does reading what such a session wrote.
* `Session.canonical_iff_loads`: runs of edits, whatever they read.
* `Hollow.loaded_not_canonical`: bytes that are read as a session which is not in that form.
-/

namespace LevelScript

open Std

/-! ## Maps without defaults -/

/-- The map stores no value that is read where nothing is stored. -/
def Bare {β : Type} (d : β) (m : ExtTreeMap Int32 β) : Prop := ∀ k : Int32, m[k]? ≠ some d

namespace Bare

variable {β : Type} {d : β} {m n : ExtTreeMap Int32 β}

theorem empty : Bare d (∅ : ExtTreeMap Int32 β) := fun k => by simp

theorem insert (hm : Bare d m) {v : β} (hv : v ≠ d) (i : Int32) : Bare d (m.insert i v) := by
  intro k
  rw [ExtTreeMap.getElem?_insert]
  split
  · exact fun h => hv (Option.some.inj h)
  · exact hm k

theorem erase (hm : Bare d m) (i : Int32) : Bare d (m.erase i) := by
  intro k
  rw [ExtTreeMap.getElem?_erase]
  split
  · nofun
  · exact hm k

/-- Such a map is told by what is read in it. -/
theorem ext (hm : Bare d m) (hn : Bare d n) (h : ∀ k, m.getD k d = n.getD k d) : m = n := by
  apply ExtTreeMap.ext_getElem?
  intro k
  have hk := h k
  rw [ExtTreeMap.getD_eq_getD_getElem?, ExtTreeMap.getD_eq_getD_getElem?] at hk
  cases hmk : m[k]? with
  | none =>
    cases hnk : n[k]? with
    | none => rfl
    | some w =>
      rw [hmk, hnk] at hk
      exact absurd (hnk.trans (congrArg some hk.symm)) (hn k)
  | some v =>
    cases hnk : n[k]? with
    | none =>
      rw [hmk, hnk] at hk
      exact absurd (hmk.trans (congrArg some hk)) (hm k)
    | some w =>
      rw [hmk, hnk] at hk
      exact congrArg some hk

end Bare

/-! ## Sparse arrays -/

namespace SparseArray

variable {a b : SparseArray}

/-- No zero is stored. -/
def Canonical (a : SparseArray) : Prop := Bare 0 a.cells

theorem canonical_empty : empty.Canonical := Bare.empty

theorem Canonical.set (ha : a.Canonical) (i v : Int32) : (a.set i v).Canonical := by
  unfold SparseArray.set
  split
  · exact Bare.erase ha i
  · exact Bare.insert ha ‹_› i

theorem Canonical.ext (ha : a.Canonical) (hb : b.Canonical) (h : ∀ i, a.get i = b.get i) :
    a = b := by
  cases a
  cases b
  exact congrArg mk (Bare.ext ha hb h)

end SparseArray

/-! ## Queues -/

namespace DeferredQueue

variable {q r : DeferredQueue}

/-- No queue is empty, and every entry waits under its own map. -/
structure Canonical (q : DeferredQueue) : Prop where
  bare : Bare [] q.maps
  own : ∀ m, ∀ e ∈ q.waiting m, e.map = m

theorem canonical_empty : empty.Canonical where
  bare := Bare.empty
  own m e he := by simp [waiting_empty] at he

theorem Canonical.push (hq : q.Canonical) (e : DeferredEntry) : (q.push e).Canonical where
  bare := hq.bare.insert (by simp) e.map
  own m f hf := by
    rw [waiting_push] at hf
    split at hf
    · rcases List.mem_append.mp hf with hold | hnew
      · exact hq.own m f hold
      · rw [List.mem_singleton.mp hnew]
        assumption
    · exact hq.own m f hf

theorem Canonical.drop (hq : q.Canonical) (map : Int32) : (q.drop map).Canonical where
  bare := hq.bare.erase map
  own m e he := by
    rw [waiting_drop] at he
    split at he
    · simp at he
    · exact hq.own m e he

theorem Canonical.ext (hq : q.Canonical) (hr : r.Canonical) (h : ∀ m, q.waiting m = r.waiting m) :
    q = r := by
  cases q
  cases r
  exact congrArg DeferredQueue.mk (Bare.ext hq.bare hr.bare h)

/-- Nothing is stored exactly if nothing waits. -/
theorem Canonical.isEmpty_iff (hq : q.Canonical) : q.isEmpty = true ↔ q.length = 0 := by
  have hstored : q.isEmpty = true ↔ q.maps.toList = [] := by
    rw [isEmpty, ← ExtTreeMap.isEmpty_toList, List.isEmpty_iff]
  rw [hstored, length, entries, toList, List.length_eq_zero_iff, List.flatMap_eq_nil_iff]
  constructor
  · intro hnil e he
    rw [hnil] at he
    exact absurd he List.not_mem_nil
  · intro hqueues
    refine List.eq_nil_iff_forall_not_mem.mpr fun e he => ?_
    have hstores := ExtTreeMap.mem_toList_iff_getElem?_eq_some.mp he
    exact hq.bare e.1 (hqueues e he ▸ hstores)

end DeferredQueue

/-! ## Sessions -/

namespace Session

/-- The session has the one form for what it holds. -/
structure Canonical (s : Session) : Prop where
  worldArrays : ∀ i (h : i < worldCount), s.worldArrays[i].Canonical
  globalArrays : ∀ i (h : i < globalCount), s.globalArrays[i].Canonical
  deferred : s.deferred.Canonical

theorem canonical_empty : empty.Canonical where
  worldArrays i h := by simpa [empty] using SparseArray.canonical_empty
  globalArrays i h := by simpa [empty] using SparseArray.canonical_empty
  deferred := DeferredQueue.canonical_empty

/-- Something that is done to a session. -/
inductive Edit where
  | setWorldVar (i : Nat) (v : Int32)
  | setGlobalVar (i : Nat) (v : Int32)
  | setWorldElement (array : Nat) (i v : Int32)
  | setGlobalElement (array : Nat) (i v : Int32)
  | defer (e : DeferredEntry)
  /-- All entries of a map are taken out. -/
  | take (map : Int32)
  | resetWorld
  /-- Another session is read; bytes that are refused change nothing. -/
  | load (bytes : List UInt8)

def edit (s : Session) : Edit → Session
  | .setWorldVar i v => s.setWorldVar i v
  | .setGlobalVar i v => s.setGlobalVar i v
  | .setWorldElement array i v => s.setWorldElement array i v
  | .setGlobalElement array i v => s.setGlobalElement array i v
  | .defer e => s.defer e
  | .take map => { s with deferred := s.deferred.drop map }
  | .resetWorld => s.resetWorld
  | .load bytes =>
    match ofBytes bytes with
    | .ok t => t
    | .error _ => s

theorem edit_load (s : Session) {t : Session} {bytes : List UInt8} (h : ofBytes bytes = .ok t) :
    s.edit (.load bytes) = t := by
  rw [edit, h]

/-- Edits one after the other. -/
def editAll (s : Session) (edits : List Edit) : Session := edits.foldl edit s

/-- The edit does not read a session, or it reads one that has its one form. -/
def Edit.LoadsCanonical : Edit → Prop
  | .load bytes => ∀ t, ofBytes bytes = .ok t → t.Canonical
  | _ => True

variable {s t : Session}

theorem Canonical.setWorldElement (hs : s.Canonical) (array : Nat) (i v : Int32) :
    (s.setWorldElement array i v).Canonical := by
  unfold Session.setWorldElement
  split
  · refine ⟨fun k hk => ?_, hs.globalArrays, hs.deferred⟩
    simp only [Vector.getElem_set]
    split
    · exact (hs.worldArrays array ‹_›).set i v
    · exact hs.worldArrays k hk
  · exact hs

theorem Canonical.setGlobalElement (hs : s.Canonical) (array : Nat) (i v : Int32) :
    (s.setGlobalElement array i v).Canonical := by
  unfold Session.setGlobalElement
  split
  · refine ⟨hs.worldArrays, fun k hk => ?_, hs.deferred⟩
    simp only [Vector.getElem_set]
    split
    · exact (hs.globalArrays array ‹_›).set i v
    · exact hs.globalArrays k hk
  · exact hs

theorem canonical_edit (hs : s.Canonical) {e : Edit} (he : e.LoadsCanonical) :
    (s.edit e).Canonical := by
  cases e with
  | setWorldVar i v => exact ⟨hs.worldArrays, hs.globalArrays, hs.deferred⟩
  | setGlobalVar i v => exact ⟨hs.worldArrays, hs.globalArrays, hs.deferred⟩
  | setWorldElement array i v => exact hs.setWorldElement array i v
  | setGlobalElement array i v => exact hs.setGlobalElement array i v
  | defer e => exact ⟨hs.worldArrays, hs.globalArrays, hs.deferred.push e⟩
  | take map => exact ⟨hs.worldArrays, hs.globalArrays, hs.deferred.drop map⟩
  | resetWorld => exact ⟨canonical_empty.worldArrays, hs.globalArrays, hs.deferred⟩
  | load bytes =>
    cases hread : ofBytes bytes with
    | ok t => exact edit_load s hread ▸ he t hread
    | error e =>
      rw [edit, hread]
      exact hs

theorem canonical_editAll (hs : s.Canonical) {edits : List Edit}
    (hedits : ∀ e ∈ edits, e.LoadsCanonical) : (s.editAll edits).Canonical := by
  induction edits generalizing s with
  | nil => exact hs
  | cons e rest ih =>
    refine ih (canonical_edit hs (hedits e List.mem_cons_self)) fun f hf => ?_
    exact hedits f (List.mem_cons_of_mem e hf)

/-- A run of edits keeps the one form throughout exactly if all that it reads has it. -/
theorem canonical_iff_loads (hs : s.Canonical) (edits : List Edit) :
    (∀ front, front <+: edits → (s.editAll front).Canonical) ↔
      ∀ e ∈ edits, e.LoadsCanonical := by
  constructor
  · intro hall e he
    obtain ⟨before, after, rfl⟩ := List.append_of_mem he
    cases e with
    | load bytes =>
      intro t hread
      have hloaded := hall (before ++ [.load bytes]) ⟨after, by simp⟩
      rw [editAll, List.foldl_append, List.foldl_cons, List.foldl_nil,
        edit_load _ hread] at hloaded
      exact hloaded
    | _ => trivial
  · intro hedits front hfront
    exact canonical_editAll hs fun e he => hedits e (hfront.subset he)

/-- What such a session wrote is read as such a session, whatever follows it. -/
theorem Canonical.loads_toBytes (hs : s.Canonical) (hsize : s.toBytes.length < 2 ^ 64)
    (rest : List UInt8) : (Edit.load (s.toBytes ++ rest)).LoadsCanonical := by
  intro t hread
  rw [ofBytes_append hsize rest] at hread
  exact Except.ok.inj hread ▸ hs

/-! ## What can be read -/

/-- Everything that can be read in the sessions is the same. -/
structure Agree (s t : Session) : Prop where
  worldVar : ∀ i, s.worldVar? i = t.worldVar? i
  globalVar : ∀ i, s.globalVar? i = t.globalVar? i
  worldElement : ∀ a i, (s.worldArray? a).map (·.get i) = (t.worldArray? a).map (·.get i)
  globalElement : ∀ a i, (s.globalArray? a).map (·.get i) = (t.globalArray? a).map (·.get i)
  waiting : ∀ m, s.deferred.waiting m = t.deferred.waiting m

theorem Agree.refl (s : Session) : s.Agree s :=
  ⟨fun _ => rfl, fun _ => rfl, fun _ _ => rfl, fun _ _ => rfl, fun _ => rfl⟩

theorem vars_ext {n : Nat} {v w : Vector Int32 n} (h : ∀ i : Nat, v[i]? = w[i]?) : v = w := by
  refine Vector.ext fun i hi => ?_
  have hread := h i
  rw [Vector.getElem?_eq_getElem hi, Vector.getElem?_eq_getElem hi] at hread
  exact Option.some.inj hread

/-- Arrays of sparse arrays are told by what is read in them. -/
theorem arrays_ext {n : Nat} {v w : Vector SparseArray n} (hv : ∀ i (h : i < n), v[i].Canonical)
    (hw : ∀ i (h : i < n), w[i].Canonical)
    (h : ∀ (a : Nat) (i : Int32), v[a]?.map (·.get i) = w[a]?.map (·.get i)) : v = w := by
  refine Vector.ext fun a ha => (hv a ha).ext (hw a ha) fun i => ?_
  have hread := h a i
  rw [Vector.getElem?_eq_getElem ha, Vector.getElem?_eq_getElem ha] at hread
  exact Option.some.inj hread

theorem Agree.eq (h : s.Agree t) (hs : s.Canonical) (ht : t.Canonical) : s = t := by
  have hworldVars : s.worldVars = t.worldVars := vars_ext h.worldVar
  have hglobalVars : s.globalVars = t.globalVars := vars_ext h.globalVar
  have hworldArrays := arrays_ext hs.worldArrays ht.worldArrays h.worldElement
  have hglobalArrays := arrays_ext hs.globalArrays ht.globalArrays h.globalElement
  have hdeferred := hs.deferred.ext ht.deferred h.waiting
  cases s
  cases t
  simp_all

theorem arrays_inj {n : Nat} {v w : Vector SparseArray n}
    (h : v.map SparseArray.toList = w.map SparseArray.toList) : v = w := by
  refine Vector.ext fun i hi => ?_
  have hcells := congrArg (fun u : Vector _ n => u[i]) h
  simp only [Vector.getElem_map] at hcells
  exact congrArg SparseArray.mk (ExtTreeMap.toList_inj.mp hcells)

/-- The test for equal sessions is one. -/
theorem same_iff (s t : Session) : s.same t = true ↔ s = t := by
  constructor
  · intro h
    simp only [same, Bool.and_eq_true, beq_iff_eq] at h
    obtain ⟨⟨⟨⟨hworldVars, hglobalVars⟩, hworldArrays⟩, hglobalArrays⟩, hdeferred⟩ := h
    have hqueue : s.deferred = t.deferred :=
      congrArg DeferredQueue.mk (ExtTreeMap.toList_inj.mp hdeferred)
    have hworld := arrays_inj hworldArrays
    have hglobal := arrays_inj hglobalArrays
    cases s
    cases t
    simp_all
  · rintro rfl
    simp [same]

/-- In sessions of the one form, all that can be read tells whether they are equal. -/
theorem Canonical.same_iff_agree (hs : s.Canonical) (ht : t.Canonical) :
    s.same t = true ↔ s.Agree t := by
  rw [same_iff]
  constructor
  · rintro rfl
    exact .refl s
  · exact fun h => h.eq hs ht

/-- **A session keeps its one form unless it reads another.** A run of edits from a new session
keeps the form throughout exactly if every session that it reads has it; what a session of this
form wrote has it, whatever follows the bytes. Then nothing is stored in the queues exactly if
nothing waits, and two sessions are equal exactly if all that can be read in them is the same. -/
theorem one_form_unless_loaded (edits : List Edit) :
    ((∀ front, front <+: edits → (empty.editAll front).Canonical) ↔
      ∀ e ∈ edits, e.LoadsCanonical) ∧
    (∀ s : Session, s.Canonical → s.toBytes.length < 2 ^ 64 →
      ∀ rest, (Edit.load (s.toBytes ++ rest)).LoadsCanonical) ∧
    (∀ s : Session, s.Canonical → (s.deferred.isEmpty = true ↔ s.deferred.length = 0)) ∧
    ∀ s t : Session, s.Canonical → t.Canonical → (s.same t = true ↔ s.Agree t) := by
  refine ⟨canonical_iff_loads canonical_empty edits, fun s hs hsize rest => ?_, fun s hs => ?_,
    fun s t hs ht => ?_⟩
  · exact hs.loads_toBytes hsize rest
  · exact hs.deferred.isEmpty_iff
  · exact hs.same_iff_agree ht

end Session

namespace Hollow

open Session

/-- A request that waits for map 2. -/
def entry : DeferredEntry := ⟨2, .suspend, 1, default, some 3⟩

def filed : Session := empty.editAll [.defer entry]

/-- An element is set, another session is read with a byte behind it, and the element is cleared. -/
def edits : List Edit :=
  [.setWorldElement 3 7 5, .load (filed.toBytes ++ [0]), .setWorldElement 3 7 0]

theorem one_form_unless_loaded_filed :
    (∀ e ∈ edits, e.LoadsCanonical) ∧ (empty.editAll edits).Canonical ∧
    (empty.editAll edits).deferred.waiting 2 = [entry] ∧
    ((empty.editAll edits).deferred.isEmpty = true ↔
      (empty.editAll edits).deferred.length = 0) ∧
    ((empty.editAll edits).same filed = true ↔ (empty.editAll edits).Agree filed) := by
  obtain ⟨hruns, hbytes, hempty, hsame⟩ := one_form_unless_loaded edits
  have hsize : filed.toBytes.length < 2 ^ 64 := by decide +kernel
  have hfiled : filed.Canonical :=
    canonical_editAll canonical_empty (by simp [Edit.LoadsCanonical])
  have hloads : ∀ e ∈ edits, e.LoadsCanonical := by
    simp only [edits, List.forall_mem_cons]
    exact ⟨trivial, hbytes filed hfiled hsize [0], trivial, nofun⟩
  have hedited := hruns.mpr hloads edits List.prefix_rfl
  have hloaded : empty.editAll edits = filed.setWorldElement 3 7 0 := by
    show (edit _ (.load (filed.toBytes ++ [0]))).setWorldElement 3 7 0 = _
    rw [edit_load _ (ofBytes_append hsize [0])]
  refine ⟨hloads, hedited, ?_, hempty _ hedited, hsame _ _ hedited hfiled⟩
  rw [hloaded]
  decide +kernel

/-- A stored zero, and an empty queue for map 2. -/
def session : Session :=
  { empty with
    worldArrays := empty.worldArrays.set 0 (.ofList [(7, 0)])
    deferred := .ofList [(2, [])] }

/-- The request for map 2 waits under map 3. -/
def astray : Session := { empty with deferred := .ofList [(3, [entry])] }

theorem agree_empty : session.Agree empty where
  worldVar _ := rfl
  globalVar _ := rfl
  worldElement a i := by
    have hzero : (SparseArray.ofList [(7, 0)]).get i = SparseArray.empty.get i := by
      show (ExtTreeMap.insert ∅ 7 0).getD i 0 = (∅ : ExtTreeMap _ _).getD i 0
      rw [ExtTreeMap.getD_insert, ExtTreeMap.getD_empty, ite_self]
    show ((empty.worldArrays.set 0 (.ofList [(7, 0)]))[a]?).map _ = (empty.worldArrays[a]?).map _
    rw [Vector.getElem?_set]
    split
    · subst a
      exact congrArg some hzero
    · rfl
  globalElement _ _ := rfl
  waiting m := by
    show (ExtTreeMap.insert ∅ 2 []).getD m [] = (∅ : ExtTreeMap _ _).getD m []
    rw [ExtTreeMap.getD_insert, ExtTreeMap.getD_empty, ite_self]

/-- Bytes are read as a session whose queues are not empty though nothing waits, and which differs
from a new one though all that can be read in them is the same; and others as a session in which
an entry waits under another map. -/
theorem loaded_not_canonical :
    (ofBytes session.toBytes = .ok session ∧ session.deferred.length = 0 ∧
      session.deferred.isEmpty = false ∧ session.Agree empty ∧ session.same empty = false) ∧
    ofBytes astray.toBytes = .ok astray ∧ astray.deferred.waiting 3 = [entry] ∧
      entry.map ≠ 3 := by
  have hfacts : session.toBytes.length < 2 ^ 64 ∧ session.deferred.length = 0 ∧
      session.deferred.isEmpty = false ∧ astray.toBytes.length < 2 ^ 64 ∧
      astray.deferred.waiting 3 = [entry] ∧ entry.map ≠ 3 := by decide +kernel
  obtain ⟨hsize, hlength, hstored, hsize', hwaiting, hmap⟩ := hfacts
  have hdiffers : session.same empty = false := by
    rw [Bool.eq_false_iff, ne_eq, same_iff]
    intro heq
    rw [heq] at hstored
    cases hstored
  exact ⟨⟨ofBytes_toBytes hsize, hlength, hstored, agree_empty, hdiffers⟩, ofBytes_toBytes hsize',
    hwaiting, hmap⟩

end Hollow

end LevelScript
