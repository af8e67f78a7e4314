import LevelScript.Proofs.Bytes.Codec

/-!
# Codecs read nothing but what they write

A value has one form in bytes: whatever a codec reads as the value is what it would write, and
what follows. A decoder that looks at nothing beyond what it takes refuses bytes that are cut off.

* `Codec.Exact`: all that is read is what would be written. One lemma for each way to make a codec.
* `Codec.Local`: a decoder takes the same in front of all other bytes.
* `Codec.error_of_cut`: a value whose bytes are cut off is not read.
-/

namespace LevelScript.Codec

variable {α β : Type} {c : Codec α} {d : Codec β}

/-- Bytes that are read as a value are those of the value and what follows. -/
def Exact (c : Codec α) : Prop :=
  ∀ bytes a rest, c.decode bytes = .ok (a, rest) → bytes = c.encode a ++ rest

/-! ## Words -/

theorem exact_byte : byte.Exact := by
  intro bytes b rest h
  cases bytes with
  | nil => cases h
  | cons b' bytes =>
    obtain ⟨rfl, rfl⟩ := Prod.mk.inj (Except.ok.inj h)
    rfl

theorem exact_word : word.Exact := by
  intro bytes v rest h
  unfold word at h
  dsimp only at h
  split at h
  · obtain ⟨rfl, rfl⟩ := Prod.mk.inj (Except.ok.inj h)
    show _ = Bytes.le32 _ ++ _
    rw [Bytes.le32_ofLe32]
    rfl
  · cases h

theorem exact_long : long.Exact := by
  intro bytes v rest h
  unfold long at h
  dsimp only at h
  split at h
  · obtain ⟨rfl, rfl⟩ := Prod.mk.inj (Except.ok.inj h)
    show _ = Bytes.le64 _ ++ _
    rw [Bytes.le64_ofLe64]
    rfl
  · cases h

/-! ## Combining codecs -/

theorem Exact.refine (hc : c.Exact) {write : β → α}
    {read : α → Except DecodeError β} (hread : ∀ a b, read a = .ok b → write b = a) :
    (c.refine write read).Exact := by
  intro bytes b rest h
  simp only [Codec.refine] at h ⊢
  cases hdecode : c.decode bytes with
  | error e =>
    rw [hdecode] at h
    cases h
  | ok r =>
    obtain ⟨a, rest'⟩ := r
    rw [hdecode] at h
    dsimp only at h
    cases hb : read a with
    | error e =>
      rw [hb] at h
      cases h
    | ok b' =>
      rw [hb] at h
      obtain ⟨rfl, rfl⟩ := Prod.mk.inj (Except.ok.inj h)
      rw [hread a b' hb]
      exact hc bytes a rest' hdecode

/-- What a converted codec reads, its own codec reads before it. -/
theorem decode_convert {write : β → α} {read : α → β} {bytes rest : List UInt8}
    {b : β} (h : (c.convert write read).decode bytes = .ok (b, rest)) :
    ∃ a, c.decode bytes = .ok (a, rest) ∧ read a = b := by
  simp only [Codec.convert] at h
  cases hdecode : c.decode bytes with
  | error e =>
    rw [hdecode] at h
    cases h
  | ok r =>
    obtain ⟨a, rest'⟩ := r
    rw [hdecode] at h
    obtain ⟨rfl, rfl⟩ := Prod.mk.inj (Except.ok.inj h)
    exact ⟨a, rfl, rfl⟩

theorem Exact.convert (hc : c.Exact) {write : β → α} {read : α → β}
    (hread : ∀ a, write (read a) = a) : (c.convert write read).Exact := by
  intro bytes b rest h
  obtain ⟨a, ha, rfl⟩ := decode_convert h
  simp only [Codec.convert]
  rw [hread]
  exact hc bytes a rest ha

/-- A pair is read in two steps. -/
theorem decode_pair {bytes rest : List UInt8} {p : α × β}
    (h : (c.pair d).decode bytes = .ok (p, rest)) :
    ∃ between, c.decode bytes = .ok (p.1, between) ∧ d.decode between = .ok (p.2, rest) := by
  simp only [Codec.pair] at h
  cases hfirst : c.decode bytes with
  | error e =>
    rw [hfirst] at h
    cases h
  | ok r =>
    obtain ⟨a, between⟩ := r
    rw [hfirst] at h
    dsimp only at h
    cases hsecond : d.decode between with
    | error e =>
      rw [hsecond] at h
      cases h
    | ok r =>
      obtain ⟨b, rest'⟩ := r
      rw [hsecond] at h
      obtain ⟨rfl, rfl⟩ := Prod.mk.inj (Except.ok.inj h)
      exact ⟨between, rfl, hsecond⟩

theorem Exact.pair (hc : c.Exact) (hd : d.Exact) :
    (c.pair d).Exact := by
  intro bytes p rest h
  obtain ⟨between, hfirst, hsecond⟩ := decode_pair h
  rw [hc bytes p.1 between hfirst, hd between p.2 rest hsecond]
  exact (List.append_assoc ..).symm

theorem exact_int : int.Exact := exact_word.convert fun v => UInt32.toUInt32_toInt32 v

theorem exact_bool : bool.Exact := by
  refine exact_byte.refine fun a b h => ?_
  split at h
  · obtain rfl := Except.ok.inj h
    rfl
  · obtain rfl := Except.ok.inj h
    rfl
  · cases h

theorem Exact.option (hc : c.Exact) : c.option.Exact := by
  intro bytes o rest h
  unfold Codec.option at h
  dsimp only at h
  split at h
  · cases h
  · obtain ⟨rfl, rfl⟩ := Prod.mk.inj (Except.ok.inj h)
    rfl
  · rename_i bytes
    cases hdecode : c.decode bytes with
    | error e =>
      rw [hdecode] at h
      cases h
    | ok r =>
      obtain ⟨a, rest'⟩ := r
      rw [hdecode] at h
      obtain ⟨rfl, rfl⟩ := Prod.mk.inj (Except.ok.inj h)
      exact congrArg (1 :: ·) (hc bytes a rest' hdecode)
  · cases h

/-! ## Lists -/

theorem toUInt64_toNat (n : UInt64) : n.toNat.toUInt64 = n := UInt64.ofNat_toNat

/-- Reading many values is reading one and then the others. -/
theorem decodeMany_succ {n : Nat} {read l : List α} {bytes rest : List UInt8}
    (h : decodeMany c (n + 1) read bytes = .ok (l, rest)) :
    ∃ a between, c.decode bytes = .ok (a, between) ∧
      decodeMany c n (a :: read) between = .ok (l, rest) := by
  rw [decodeMany] at h
  cases hfirst : c.decode bytes with
  | error e =>
    rw [hfirst] at h
    cases h
  | ok r =>
    obtain ⟨a, between⟩ := r
    rw [hfirst] at h
    exact ⟨a, between, rfl, h⟩

theorem flatMap_of_decodeMany (hc : c.Exact) {n : Nat} {read l : List α}
    {bytes rest : List UInt8} (h : decodeMany c n read bytes = .ok (l, rest)) :
    ∃ as, l = read.reverse ++ as ∧ as.length = n ∧ bytes = as.flatMap c.encode ++ rest := by
  induction n generalizing read bytes with
  | zero =>
    obtain ⟨rfl, rfl⟩ := Prod.mk.inj (Except.ok.inj h)
    exact ⟨[], (List.append_nil _).symm, rfl, rfl⟩
  | succ n ih =>
    obtain ⟨a, between, hfirst, hothers⟩ := decodeMany_succ h
    obtain ⟨as, rfl, rfl, rfl⟩ := ih hothers
    refine ⟨a :: as, by simp, rfl, ?_⟩
    rw [hc bytes a _ hfirst, List.flatMap_cons, List.append_assoc]

/-- A list is read as its length and then its values. -/
theorem decode_list {bytes rest : List UInt8} {l : List α}
    (h : c.list.decode bytes = .ok (l, rest)) :
    ∃ n between, long.decode bytes = .ok (n, between) ∧
      decodeMany c n.toNat [] between = .ok (l, rest) := by
  simp only [Codec.list] at h
  cases hlength : long.decode bytes with
  | error e =>
    rw [hlength] at h
    cases h
  | ok r =>
    obtain ⟨n, between⟩ := r
    rw [hlength] at h
    exact ⟨n, between, rfl, h⟩

theorem Exact.list (hc : c.Exact) : c.list.Exact := by
  intro bytes l rest h
  obtain ⟨n, between, hlength, hvalues⟩ := decode_list h
  obtain ⟨as, rfl, hn, rfl⟩ := flatMap_of_decodeMany hc hvalues
  rw [exact_long bytes n _ hlength]
  simp only [Codec.list]
  rw [hn, toUInt64_toNat, List.append_assoc]

theorem Exact.array (hc : c.Exact) : c.array.Exact :=
  hc.list.convert fun _ => rfl

theorem eq_of_takeBytes {n : Nat} {taken bytes l rest : List UInt8}
    (h : takeBytes n taken bytes = some (l, rest)) :
    ∃ front, l = taken.reverse ++ front ∧ front.length = n ∧ bytes = front ++ rest := by
  induction n generalizing taken bytes with
  | zero =>
    obtain ⟨rfl, rfl⟩ := Prod.mk.inj (Option.some.inj h)
    exact ⟨[], (List.append_nil _).symm, rfl, rfl⟩
  | succ n ih =>
    cases bytes with
    | nil => cases h
    | cons b bytes =>
      obtain ⟨front, rfl, rfl, rfl⟩ := ih h
      exact ⟨b :: front, by simp, rfl, rfl⟩

theorem exact_block (n : Nat) : (block n).Exact := by
  intro bytes v rest h
  simp only [block] at h
  cases htaken : takeBytes n [] bytes with
  | none =>
    rw [htaken] at h
    cases h
  | some r =>
    obtain ⟨l, rest'⟩ := r
    obtain ⟨front, rfl, hlength, rfl⟩ := eq_of_takeBytes htaken
    rw [htaken] at h
    dsimp only at h
    split at h
    · obtain ⟨rfl, rfl⟩ := Prod.mk.inj (Except.ok.inj h)
      rfl
    · cases h

theorem exact_text : text.Exact := by
  intro bytes t rest h
  simp only [text] at h ⊢
  cases hlength : long.decode bytes with
  | error e =>
    rw [hlength] at h
    cases h
  | ok r =>
    obtain ⟨n, between⟩ := r
    rw [hlength] at h
    dsimp only at h
    cases htaken : takeBytes n.toNat [] between with
    | none =>
      rw [htaken] at h
      cases h
    | some r =>
      obtain ⟨l, rest'⟩ := r
      obtain ⟨front, rfl, hn, rfl⟩ := eq_of_takeBytes htaken
      rw [htaken] at h
      dsimp only at h
      cases htext : Text.Utf8.decode? l with
      | error e =>
        rw [htext] at h
        cases h
      | ok t' =>
        rw [htext] at h
        obtain ⟨rfl, rfl⟩ := Prod.mk.inj (Except.ok.inj h)
        rw [Text.Utf8.encode_of_decode? htext, hn, toUInt64_toNat, List.append_assoc]
        exact exact_long bytes n _ hlength

/-! ## Cases -/

theorem exact_enumeration [DecidableEq α] {values : List α} (hnodup : values.Nodup) :
    (enumeration values).Exact := by
  refine exact_word.refine fun n a h => ?_
  split at h
  · rename_i a' hget
    obtain rfl := Except.ok.inj h
    obtain ⟨hlt, rfl⟩ := List.getElem?_eq_some_iff.mp hget
    rw [hnodup.idxOf_getElem]
    exact UInt32.ofNat_toNat
  · cases h

/-- The reader of a case reads what is written after the word of the case. -/
def WritesCase (encode : α → List UInt8) (n : Nat) (d : Decoder α) : Prop :=
  ∀ bytes a rest, d bytes = .ok (a, rest) →
    ∃ body, encode a = caseOf n ++ body ∧ bytes = body ++ rest

section Cases

variable {encode : α → List UInt8} {n : Nat}

theorem writesCase_plain {a : α} (h : encode a = caseOf n) : WritesCase encode n (plain a) := by
  intro bytes a' rest hread
  obtain ⟨rfl, rfl⟩ := Prod.mk.inj (Except.ok.inj hread)
  exact ⟨[], by rw [h, List.append_nil], rfl⟩

theorem writesCase_part {c : Codec β} (hc : c.Exact) {make : β → α}
    (h : ∀ b, encode (make b) = caseOf n ++ c.encode b) : WritesCase encode n (part c make) := by
  intro bytes a rest hread
  unfold part at hread
  cases hdecode : c.decode bytes with
  | error e =>
    rw [hdecode] at hread
    cases hread
  | ok r =>
    obtain ⟨b, rest'⟩ := r
    rw [hdecode] at hread
    obtain ⟨rfl, rfl⟩ := Prod.mk.inj (Except.ok.inj hread)
    exact ⟨c.encode b, h b, hc bytes b rest' hdecode⟩

theorem exact_cases {decodeCase : Nat → Option (Decoder α)} (count : Nat)
    (h : ∀ n d, decodeCase n = some d → WritesCase encode n d) :
    Exact ⟨encode, cases count decodeCase⟩ := by
  intro bytes a rest hread
  dsimp only [cases] at hread ⊢
  cases hword : word.decode bytes with
  | error e =>
    rw [hword] at hread
    cases hread
  | ok r =>
    obtain ⟨n, between⟩ := r
    rw [hword] at hread
    dsimp only at hread
    cases hcase : decodeCase n.toNat with
    | none =>
      rw [hcase] at hread
      cases hread
    | some d =>
      rw [hcase] at hread
      obtain ⟨body, hbody, rfl⟩ := h n.toNat d hcase between a rest hread
      have hn : n.toNat.toUInt32 = n := UInt32.ofNat_toNat
      rw [hbody, caseOf, hn, List.append_assoc]
      exact exact_word bytes n _ hword

end Cases

/-! ## Bytes that are cut off -/

/-- From bytes of a memory a value is taken as it would be in front of any other bytes. -/
def Local (c : Codec α) : Prop :=
  ∀ bytes a rest, bytes.length < 2 ^ 64 → c.decode bytes = .ok (a, rest) →
    ∃ taken, bytes = taken ++ rest ∧ ∀ more, c.decode (taken ++ more) = .ok (a, more)

theorem Exact.isLocal (he : c.Exact) (hl : c.Lawful) : c.Local := by
  intro bytes a rest hlength h
  have hbytes := he bytes a rest h
  refine ⟨c.encode a, hbytes, fun more => hl.decode_encode a more ?_⟩
  rw [hbytes, List.length_append] at hlength
  omega

theorem Local.convert (hc : c.Local) (write : β → α) (read : α → β) :
    (c.convert write read).Local := by
  intro bytes b rest hlength h
  obtain ⟨a, ha, rfl⟩ := decode_convert h
  obtain ⟨taken, rfl, hmore⟩ := hc bytes a rest hlength ha
  refine ⟨taken, rfl, fun more => ?_⟩
  simp only [Codec.convert]
  rw [hmore]

theorem Local.pair (hc : c.Local) (hd : d.Local) :
    (c.pair d).Local := by
  intro bytes p rest hlength h
  obtain ⟨between, hfirst, hsecond⟩ := decode_pair h
  obtain ⟨taken, rfl, hmore⟩ := hc bytes p.1 between hlength hfirst
  rw [List.length_append] at hlength
  obtain ⟨taken', rfl, hmore'⟩ := hd between p.2 rest (by omega) hsecond
  refine ⟨taken ++ taken', (List.append_assoc ..).symm, fun more => ?_⟩
  simp only [Codec.pair]
  rw [List.append_assoc, hmore]
  dsimp only
  rw [hmore']

theorem Local.decodeMany (hc : c.Local) {n : Nat} {read l : List α}
    {bytes rest : List UInt8} (hlength : bytes.length < 2 ^ 64)
    (h : Codec.decodeMany c n read bytes = .ok (l, rest)) :
    ∃ taken, bytes = taken ++ rest ∧
      ∀ more, Codec.decodeMany c n read (taken ++ more) = .ok (l, more) := by
  induction n generalizing read bytes with
  | zero =>
    obtain ⟨rfl, rfl⟩ := Prod.mk.inj (Except.ok.inj h)
    exact ⟨[], rfl, fun _ => rfl⟩
  | succ n ih =>
    obtain ⟨a, between, hfirst, hothers⟩ := decodeMany_succ h
    obtain ⟨taken, rfl, hmore⟩ := hc bytes a between hlength hfirst
    rw [List.length_append] at hlength
    obtain ⟨taken', rfl, hmore'⟩ := ih (by omega) hothers
    refine ⟨taken ++ taken', (List.append_assoc ..).symm, fun more => ?_⟩
    rw [List.append_assoc, Codec.decodeMany, hmore]
    exact hmore' more

theorem Local.list (hc : c.Local) : c.list.Local := by
  intro bytes l rest hlength h
  obtain ⟨n, between, hcount, hvalues⟩ := decode_list h
  have hbytes := exact_long bytes n between hcount
  subst hbytes
  rw [List.length_append] at hlength
  obtain ⟨taken, rfl, hmore⟩ := hc.decodeMany (by omega) hvalues
  refine ⟨long.encode n ++ taken, (List.append_assoc ..).symm, fun more => ?_⟩
  simp only [Codec.list]
  rw [List.append_assoc, long_decode]
  exact hmore more

theorem Local.array (hc : c.Local) : c.array.Local := hc.list.convert _ _

/-- Part of the bytes of a value is not read as any value. -/
theorem error_of_cut (hlawful : c.Lawful) (hlocal : c.Local) {a : α}
    (hlength : (c.encode a).length < 2 ^ 64) {front : List UInt8} (hfront : front <+: c.encode a)
    (hne : front ≠ c.encode a) : ∃ e, c.decode front = .error e := by
  cases h : c.decode front with
  | error e => exact ⟨e, rfl⟩
  | ok r =>
    obtain ⟨b, rest⟩ := r
    obtain ⟨missing, hwhole⟩ := hfront
    have hfits : front.length < 2 ^ 64 := by
      rw [← hwhole, List.length_append] at hlength
      omega
    obtain ⟨taken, rfl, hmore⟩ := hlocal front b rest hfits h
    -- The decoder takes the same from the whole, and leaves what is missing.
    have hwhole' := hlawful.decode_encode a [] hlength
    rw [List.append_nil, ← hwhole, List.append_assoc, hmore] at hwhole'
    obtain ⟨-, hnil⟩ := Prod.mk.inj (Except.ok.inj hwhole')
    rw [(List.append_eq_nil_iff.mp hnil).2, List.append_nil] at hwhole
    exact absurd hwhole hne

end LevelScript.Codec
