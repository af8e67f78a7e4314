import LevelScript.Proofs.Roster.Reuse
import LevelScript.Proofs.Snapshot.Restore

/-!
# Levels in pairs

Two levels with the same instances in the same order, under handles that may differ. Every
operation of a level, done on both sides to instances that stand for each other, leaves such
levels again, and says which handles stand for each other then.

* `Level.Matched`: the instances are paired and alike, and both levels track the same ones.
* `Matched.modify`, `Matched.reorder`, `Matched.add`, `Matched.remove` and `Matched.clear`.
-/

namespace LevelScript

variable {P : UInt32 → UInt32 → Prop}

namespace Instance.Alike

variable {i j : Instance}

theorem number_eq (h : i.Alike P j) : j.number = i.number := h.keeps number fun _ _ _ _ => rfl

theorem status_eq (h : i.Alike P j) : j.status = i.status := h.keeps status fun _ _ _ _ => rfl

theorem lastTick_eq (h : i.Alike P j) : j.lastTick = i.lastTick :=
  h.keeps lastTick fun _ _ _ _ => rfl

theorem setStatus (h : i.Alike P j) (st : Status) :
    Instance.Alike P { i with status := st } { j with status := st } :=
  Mild.alike (f := ({ · with status := st })) ⟨fun _ _ _ _ => rfl, fun _ => rfl⟩ h

theorem setLastTick (h : i.Alike P j) (t : UInt64) :
    Instance.Alike P { i with lastTick := t } { j with lastTick := t } :=
  ⟨congrArg (fun k : Instance => { k with lastTick := t }) h.same, h.pc, h.entry, h.segment⟩

end Instance.Alike

namespace Level

theorem settled_alike {i j : Instance} (h : i.Alike P j) (n : Int32) (always : Bool) :
    (settled n always i).Alike P (settled n always j) := by
  unfold settled
  split
  · exact h
  · have hset := h.setStatus (promoted n i.status)
    unfold awaiting
    rwa [h.status_eq]

/-! ## Lists of pairs -/

section Pairs

variable {ps : List Pair}

/-- Conditions that agree on pairs select the same pairs. -/
theorem filter_pairs {c d : Handle × Instance → Bool} (h : ∀ p ∈ ps, c p.1 = d p.2) :
    (ps.map Prod.fst).filter c = (ps.filter fun p => c p.1).map Prod.fst ∧
      (ps.map Prod.snd).filter d = (ps.filter fun p => c p.1).map Prod.snd := by
  constructor
  · rw [List.filter_map]
    rfl
  · rw [List.filter_map]
    congr 1
    exact List.filter_congr fun p hp => (h p hp).symm

theorem stands_append {qs : List Pair} {a b : Handle} :
    Stands (ps ++ qs) a b ↔ Stands ps a b ∨ Stands qs a b := by
  unfold Stands
  simp only [List.mem_append]
  constructor
  · rintro ⟨p, hp | hp, h⟩
    · exact .inl ⟨p, hp, h⟩
    · exact .inr ⟨p, hp, h⟩
  · rintro (⟨p, hp, h⟩ | ⟨p, hp, h⟩)
    · exact ⟨p, .inl hp, h⟩
    · exact ⟨p, .inr hp, h⟩

/-- A change of instances leaves their handles. -/
theorem stands_map {f g : Handle × Instance → Handle × Instance} (hf : ∀ e, (f e).1 = e.1)
    (hg : ∀ e, (g e).1 = e.1) {a b : Handle} :
    Stands (ps.map fun p => (f p.1, g p.2)) a b ↔ Stands ps a b := by
  unfold Stands
  simp only [List.mem_map]
  constructor
  · rintro ⟨_, ⟨p, hp, rfl⟩, ha, hb⟩
    exact ⟨p, hp, (hf p.1).symm.trans ha, (hg p.2).symm.trans hb⟩
  · rintro ⟨p, hp, ha, hb⟩
    exact ⟨_, ⟨p, hp, rfl⟩, (hf p.1).trans ha, (hg p.2).trans hb⟩

theorem stands_filter_or {c : Pair → Bool} {a b : Handle} :
    Stands (ps.filter c ++ ps.filter fun p => !c p) a b ↔ Stands ps a b := by
  rw [stands_append]
  unfold Stands
  simp only [List.mem_filter, Bool.not_eq_true']
  constructor
  · rintro (⟨p, ⟨hp, -⟩, h⟩ | ⟨p, ⟨hp, -⟩, h⟩)
    · exact ⟨p, hp, h⟩
    · exact ⟨p, hp, h⟩
  · rintro ⟨p, hp, h⟩
    cases hc : c p with
    | true => exact .inl ⟨p, ⟨hp, hc⟩, h⟩
    | false => exact .inr ⟨p, ⟨hp, hc⟩, h⟩

end Pairs

theorem sameCells_wake (l : Level) (n : Int32) : l.roster.SameCells (l.wake n).roster := by
  unfold wake
  generalize l.roster.handlesWhere _ = handles
  induction handles generalizing l with
  | nil => exact .refl _
  | cons k rest ih =>
    have hstep : l.roster.SameCells (l.awaken k).roster :=
      (Roster.SameCells.modify _ _ _).trans (.put (.inr rfl))
    exact hstep.trans (ih _)

/-! ## Matched levels -/

/-- The instances of two levels are paired and alike, and both levels track the same ones. If `E`
holds, even their handles are the same. -/
structure Matched (E : Prop) (P : UInt32 → UInt32 → Prop) (ps : List Pair) (l₁ l₂ : Level) : Prop
    extends Paired ps l₁ l₂ where
  sound₁ : l₁.Sound
  sound₂ : l₂.Sound
  alike : ∀ p ∈ ps, p.1.2.Alike P p.2.2
  cells : E → l₁.roster.SameCells l₂.roster
  handles : E → ∀ p ∈ ps, p.2.1 = p.1.1

namespace Matched

variable {E : Prop} {ps : List Pair} {l₁ l₂ l₁' l₂' : Level} {a b : Handle}

/-- What a change of one instance makes of an entry. -/
def changed (a : Handle) (f : Instance → Instance) (e : Handle × Instance) : Handle × Instance :=
  if e.1 = a then (e.1, f e.2) else e

theorem fst_changed (f : Instance → Instance) (e : Handle × Instance) :
    (changed a f e).1 = e.1 := by
  unfold changed
  split <;> rfl

theorem sound_reorder {l l' : Level} (hl : l.Sound) {k : Handle}
    (roster : l'.roster = l.roster.putFirst k ∨ l'.roster = l.roster.putLast k)
    (tracked : l'.tracked = l.tracked) : l'.Sound :=
  have hchange : Change (fun _ => True) l l' := .order roster tracked
  hchange.sound hl

/-! ## Pairs that stand for each other -/

variable (h : Matched E P ps l₁ l₂)

include h

theorem inst₁ {p : Pair} (hp : p ∈ ps) :
    l₁.instance? p.1.1 = some p.1.2 := by
  rw [instance?, ← Roster.mem_entries_iff h.sound₁.roster, h.left]
  exact List.mem_map_of_mem hp

theorem inst₂ {p : Pair} (hp : p ∈ ps) :
    l₂.instance? p.2.1 = some p.2.2 := by
  rw [instance?, ← Roster.mem_entries_iff h.sound₂.roster, h.right]
  exact List.mem_map_of_mem hp

theorem exists_pair₁ {i : Instance} (hi : l₁.instance? a = some i) :
    ∃ p ∈ ps, p.1 = (a, i) := by
  have hmem := (Roster.mem_entries_iff h.sound₁.roster).mpr hi
  rw [h.left] at hmem
  obtain ⟨p, hp, heq⟩ := List.mem_map.mp hmem
  exact ⟨p, hp, heq⟩

theorem exists_pair₂ {j : Instance} (hj : l₂.instance? b = some j) :
    ∃ p ∈ ps, p.2 = (b, j) := by
  have hmem := (Roster.mem_entries_iff h.sound₂.roster).mpr hj
  rw [h.right] at hmem
  obtain ⟨p, hp, heq⟩ := List.mem_map.mp hmem
  exact ⟨p, hp, heq⟩

/-- What two handles that stand for each other find. -/
theorem find (hab : Stands ps a b) :
    ∃ i j, l₁.instance? a = some i ∧ l₂.instance? b = some j ∧ i.Alike P j := by
  obtain ⟨p, hp, rfl, rfl⟩ := hab
  exact ⟨p.1.2, p.2.2, h.inst₁ hp, h.inst₂ hp, h.alike p hp⟩

theorem unique₁ {p q : Pair} (hp : p ∈ ps) (hq : q ∈ ps) (heq : p.1.1 = q.1.1) : p = q := by
  have hnodup := Roster.nodup_keys h.sound₁.roster
  rw [h.left, List.map_map] at hnodup
  exact List.inj_on_of_nodup_map hnodup hp hq heq

theorem unique₂ {p q : Pair} (hp : p ∈ ps) (hq : q ∈ ps) (heq : p.2.1 = q.2.1) : p = q := by
  have hnodup := Roster.nodup_keys h.sound₂.roster
  rw [h.right, List.map_map] at hnodup
  exact List.inj_on_of_nodup_map hnodup hp hq heq

/-- A handle is that of a pair on one side if it is on the other. -/
theorem fst_eq_iff (hab : Stands ps a b) {p : Pair} (hp : p ∈ ps) :
    p.1.1 = a ↔ p.2.1 = b := by
  obtain ⟨q, hq, rfl, rfl⟩ := hab
  constructor
  · intro heq
    rw [h.unique₁ hp hq heq]
  · intro heq
    rw [h.unique₂ hp hq heq]

theorem stands_iff (hab : Stands ps a b) {a' b' : Handle}
    (hab' : Stands ps a' b') : a' = a ↔ b' = b := by
  obtain ⟨p, hp, rfl, rfl⟩ := hab'
  exact h.fst_eq_iff hab hp

theorem find?_some {n : Int32} (ha : l₁.find? n = some a) :
    ∃ b, l₂.find? n = some b ∧ Stands ps a b := by
  have hrel := h.tracked n
  rw [ha] at hrel
  generalize l₂.find? n = y at hrel
  cases hrel with
  | some hab => exact ⟨_, rfl, hab⟩

theorem find?_none {n : Int32} (ha : l₁.find? n = none) :
    l₂.find? n = none := by
  have hrel := h.tracked n
  rw [ha] at hrel
  generalize l₂.find? n = y at hrel
  cases hrel
  rfl

theorem find?_eq_some_iff (hab : Stands ps a b) (n : Int32) :
    l₁.find? n = some a ↔ l₂.find? n = some b := by
  cases hfind : l₁.find? n with
  | none => simp [h.find?_none hfind]
  | some x =>
    obtain ⟨y, hy, hxy⟩ := h.find?_some hfind
    rw [hy, Option.some.injEq, Option.some.injEq]
    exact h.stands_iff hab hxy

theorem isTracked_eq (n : Int32) : l₂.isTracked n = l₁.isTracked n := by
  rw [isTracked, isTracked]
  cases hfind : l₁.find? n with
  | none => rw [h.find?_none hfind]
  | some x =>
    obtain ⟨y, hy, -⟩ := h.find?_some hfind
    rw [hy]
    rfl

/-- The registry may stay if the same handles stand for each other. -/
theorem tracked_congr {qs : List Pair}
    (hqs : ∀ a b, Stands ps a b → Stands qs a b) (h₁ : l₁'.tracked = l₁.tracked)
    (h₂ : l₂'.tracked = l₂.tracked) (n : Int32) :
    Option.Rel (Stands qs) (l₁'.find? n) (l₂'.find? n) := by
  have hrel := h.tracked n
  rw [find?, find?, h₁, h₂]
  rw [find?, find?] at hrel
  generalize l₁.tracked.find? n = x at hrel ⊢
  generalize l₂.tracked.find? n = y at hrel ⊢
  cases hrel with
  | none => exact .none
  | some hxy => exact .some (hqs _ _ hxy)

/-- Levels with other instances than before, in pairs again. -/
theorem of_entries (sound₁ : l₁'.Sound) (sound₂ : l₂'.Sound)
    {qs : List Pair} (left : l₁'.roster.entries = qs.map Prod.fst)
    (right : l₂'.roster.entries = qs.map Prod.snd) (alike : ∀ q ∈ qs, q.1.2.Alike P q.2.2)
    (cells : E → l₁'.roster.SameCells l₂'.roster) (hqs : ∀ x y, Stands qs x y ↔ Stands ps x y)
    (t₁ : l₁'.tracked = l₁.tracked) (t₂ : l₂'.tracked = l₂.tracked) : Matched E P qs l₁' l₂' where
  left := left
  right := right
  tracked := h.tracked_congr (fun x y => (hqs x y).mpr) t₁ t₂
  sound₁ := sound₁
  sound₂ := sound₂
  alike := alike
  cells := cells
  handles hE q hq := by
    obtain ⟨p, hp, h₁, h₂⟩ := (hqs _ _).mp ⟨q, hq, rfl, rfl⟩
    rw [← h₁, ← h₂]
    exact h.handles hE p hp

/-- Both levels stay as they are, as far as instances and registry go. -/
theorem congr (r₁ : l₁'.roster = l₁.roster)
    (r₂ : l₂'.roster = l₂.roster) (t₁ : l₁'.tracked = l₁.tracked)
    (t₂ : l₂'.tracked = l₂.tracked) : Matched E P ps l₁' l₂' :=
  h.of_entries (h.sound₁.congr r₁ t₁) (h.sound₂.congr r₂ t₂) (r₁ ▸ h.left) (r₂ ▸ h.right) h.alike
    (fun hE => r₁ ▸ r₂ ▸ h.cells hE) (fun _ _ => .rfl) t₁ t₂

/-! ## Changes of one instance -/

theorem modify (hab : Stands ps a b) {f g : Instance → Instance}
    (hfg : ∀ i j, l₁.instance? a = some i → l₂.instance? b = some j → i.Alike P j →
      (f i).Alike P (g j))
    (hf : ∀ i, l₁.instance? a = some i → (f i).number = i.number) :
    ∃ qs, (∀ l₁' l₂' : Level, l₁'.roster = l₁.roster.modify a f →
        l₂'.roster = l₂.roster.modify b g → l₁'.tracked = l₁.tracked →
        l₂'.tracked = l₂.tracked → Matched E P qs l₁' l₂') ∧
      ∀ x y, Stands qs x y ↔ Stands ps x y := by
  have hg : ∀ j, l₂.instance? b = some j → (g j).number = j.number := by
    intro j hj
    obtain ⟨i, j', hi, hj', hij⟩ := h.find hab
    obtain rfl : j = j' := Option.some.inj (hj.symm.trans hj')
    rw [(hfg i j hi hj hij).number_eq, hf i hi, hij.number_eq]
  have hstands : ∀ x y, Stands (ps.map fun p => (changed a f p.1, changed b g p.2)) x y ↔
      Stands ps x y := fun x y => stands_map (fst_changed f) (fst_changed g)
  refine ⟨_, fun l₁' l₂' r₁ r₂ t₁ t₂ => h.of_entries (h.sound₁.of_modify r₁ t₁ hf)
    (h.sound₂.of_modify r₂ t₂ hg) ?_ ?_ ?_ ?_ hstands t₁ t₂, hstands⟩
  · rw [r₁, Roster.entries_modify h.sound₁.roster, h.left, List.map_map, List.map_map]
    rfl
  · rw [r₂, Roster.entries_modify h.sound₂.roster, h.right, List.map_map, List.map_map]
    rfl
  · intro q hq
    obtain ⟨p, hp, rfl⟩ := List.mem_map.mp hq
    by_cases hp₁ : p.1.1 = a
    · have hp₂ := (h.fst_eq_iff hab hp).mp hp₁
      have hi := h.inst₁ hp
      have hj := h.inst₂ hp
      rw [hp₁] at hi
      rw [hp₂] at hj
      simp only [changed, if_pos hp₁, if_pos hp₂]
      exact hfg _ _ hi hj (h.alike p hp)
    · have hp₂ := mt (h.fst_eq_iff hab hp).mpr hp₁
      simp only [changed, if_neg hp₁, if_neg hp₂]
      exact h.alike p hp
  · intro hE
    rw [r₁, r₂]
    exact (h.cells hE).congr (.modify _ _ _) (.modify _ _ _)

/-- Conditions on the handle agree on pairs. -/
theorem beq_eq (hab : Stands ps a b) {p : Pair} (hp : p ∈ ps) :
    (p.1.1 == a) = (p.2.1 == b) := by
  rw [Bool.eq_iff_iff, beq_iff_eq, beq_iff_eq]
  exact h.fst_eq_iff hab hp

/-- The instances that satisfy a condition come first. -/
theorem split {c d : Handle × Instance → Bool} (hcd : ∀ p ∈ ps, c p.1 = d p.2) :
    ∃ qs, (∀ l₁' l₂' : Level, l₁'.Sound → l₂'.Sound →
        l₁'.roster.entries =
          l₁.roster.entries.filter c ++ l₁.roster.entries.filter (fun e => !c e) →
        l₂'.roster.entries =
          l₂.roster.entries.filter d ++ l₂.roster.entries.filter (fun e => !d e) →
        (E → l₁'.roster.SameCells l₂'.roster) → l₁'.tracked = l₁.tracked →
        l₂'.tracked = l₂.tracked → Matched E P qs l₁' l₂') ∧
      ∀ x y, Stands qs x y ↔ Stands ps x y := by
  obtain ⟨hin₁, hin₂⟩ := filter_pairs hcd
  obtain ⟨hout₁, hout₂⟩ := filter_pairs (c := fun e => !c e) (d := fun e => !d e)
    fun p hp => congrArg (!·) (hcd p hp)
  have hstands : ∀ x y, Stands ((ps.filter fun p => c p.1) ++ ps.filter fun p => !c p.1) x y ↔
      Stands ps x y := fun x y => stands_filter_or
  refine ⟨_, fun l₁' l₂' sound₁ sound₂ e₁ e₂ cells t₁ t₂ =>
    h.of_entries sound₁ sound₂ ?_ ?_ (fun q hq => ?_) cells hstands t₁ t₂, hstands⟩
  · rw [e₁, h.left, List.map_append, hin₁, hout₁]
  · rw [e₂, h.right, List.map_append, hin₂, hout₂]
  · rcases List.mem_append.mp hq with hq | hq
    · exact h.alike q (List.mem_filter.mp hq).1
    · exact h.alike q (List.mem_filter.mp hq).1

theorem put {put : Roster → Handle → Roster} (hput : put = Roster.putFirst ∨ put = Roster.putLast)
    (hab : Stands ps a b) :
    ∃ qs, (∀ l₁' l₂' : Level, l₁'.roster = put l₁.roster a → l₂'.roster = put l₂.roster b →
        l₁'.tracked = l₁.tracked → l₂'.tracked = l₂.tracked → Matched E P qs l₁' l₂') ∧
      ∀ x y, Stands qs x y ↔ Stands ps x y := by
  -- What comes first, the instance itself or all others.
  obtain ⟨c, hentries, hc⟩ : ∃ c : Handle → Handle × Instance → Bool,
      (∀ r : Roster, r.Sound → ∀ k, (put r k).entries =
        r.entries.filter (c k) ++ r.entries.filter (!c k ·)) ∧ ∀ p ∈ ps, c a p.1 = c b p.2 := by
    rcases hput with rfl | rfl
    · exact ⟨fun k e => e.1 == k, fun r hr k => (Roster.sound_putFirst hr k).2,
        fun p hp => h.beq_eq hab hp⟩
    · refine ⟨fun k e => e.1 != k, fun r hr k => ?_, fun p hp => congrArg (!·) (h.beq_eq hab hp)⟩
      simp only [(Roster.sound_putLast hr k).2, bne, Bool.not_not]
  obtain ⟨qs, hm, hqs⟩ := h.split (c := c a) (d := c b) hc
  refine ⟨qs, fun l₁' l₂' r₁ r₂ t₁ t₂ => ?_, hqs⟩
  have hr₁ := hput.imp (fun heq => heq ▸ r₁) (fun heq => heq ▸ r₁)
  have hr₂ := hput.imp (fun heq => heq ▸ r₂) (fun heq => heq ▸ r₂)
  exact hm l₁' l₂' (sound_reorder h.sound₁ hr₁ t₁) (sound_reorder h.sound₂ hr₂ t₂)
    (r₁ ▸ hentries _ h.sound₁.roster a) (r₂ ▸ hentries _ h.sound₂.roster b)
    (fun hE => (h.cells hE).congr (.put hr₁) (.put hr₂)) t₁ t₂

/-! ## Instances come and go -/

theorem add {i j : Instance} (hij : i.Alike P j) (always : Bool) :
    ∃ qs, Matched E P qs (l₁.add i always).2 (l₂.add j always).2 ∧
      ∀ x y, Stands qs x y ↔
        Stands ps x y ∨ (x = (l₁.add i always).1 ∧ y = (l₂.add j always).1) := by
  have hnumber := hij.number_eq
  obtain ⟨-, he₁⟩ := add_spec h.sound₁.roster i always
  obtain ⟨-, he₂⟩ := add_spec h.sound₂.roster j always
  rw [hnumber] at he₂
  let new : Pair := (((l₁.add i always).1, i), ((l₂.add j always).1, j))
  have hstands : ∀ x y, Stands ((ps ++ [new]).map fun p =>
      ((p.1.1, settled i.number always p.1.2), (p.2.1, settled i.number always p.2.2))) x y ↔
      Stands ps x y ∨ (x = (l₁.add i always).1 ∧ y = (l₂.add j always).1) := by
    intro x y
    refine (stands_map (f := fun e => (e.1, settled i.number always e.2))
      (g := fun e => (e.1, settled i.number always e.2)) (fun _ => rfl) fun _ => rfl).trans ?_
    rw [stands_append]
    refine or_congr_right ?_
    unfold Stands
    simp only [List.mem_singleton, exists_eq_left, new]
    exact and_congr eq_comm eq_comm
  refine ⟨_, ⟨⟨?_, ?_, fun n => ?_⟩, h.sound₁.add i always, h.sound₂.add j always, ?_, ?_, ?_⟩,
    hstands⟩
  · rw [he₁, h.left, List.map_map]
    simp [new, Function.comp_def]
  · rw [he₂, h.right, List.map_map]
    simp [new, Function.comp_def]
  · rw [find?_add, find?_add, hnumber]
    by_cases hn : always = false ∧ n = i.number
    · rw [if_pos hn, if_pos hn]
      exact .some ((hstands _ _).mpr (.inr ⟨rfl, rfl⟩))
    · rw [if_neg hn, if_neg hn]
      exact h.tracked_congr (fun x y hxy => (hstands x y).mpr (.inl hxy)) rfl rfl n
  · intro q hq
    obtain ⟨p, hp, rfl⟩ := List.mem_map.mp hq
    refine settled_alike ?_ i.number always
    rcases List.mem_append.mp hp with hp | hp
    · exact h.alike p hp
    · rw [List.mem_singleton.mp hp]
      exact hij
  · intro hE
    have hcells := ((h.cells hE).add h.sound₁.roster h.sound₂.roster i j).2
    cases always with
    | true => exact hcells
    | false => exact hcells.congr (.mapInstances _ _) (.mapInstances _ _)
  · intro hE q hq
    obtain ⟨p, hp, rfl⟩ := List.mem_map.mp hq
    rcases List.mem_append.mp hp with hp | hp
    · exact h.handles hE p hp
    · rw [List.mem_singleton.mp hp]
      show (l₂.add j always).1 = (l₁.add i always).1
      rw [fst_add, fst_add]
      exact ((h.cells hE).add h.sound₁.roster h.sound₂.roster i j).1

/-- Removing one of each pair removes the pair, and no other. -/
theorem remove (hab : Stands ps a b) :
    ∃ qs, Matched E P qs (l₁.remove a) (l₂.remove b) ∧
      ∀ x y, Stands qs x y ↔ Stands ps x y ∧ x ≠ a := by
  obtain ⟨i, j, hi, hj, hij⟩ := h.find hab
  obtain ⟨-, he₁⟩ := remove_spec h.sound₁.roster hi
  obtain ⟨-, he₂⟩ := remove_spec h.sound₂.roster hj
  rw [hij.number_eq] at he₂
  let n := i.number
  let others := ps.filter fun p => p.1.1 != a
  have hothers : ∀ p, p ∈ others ↔ p ∈ ps ∧ p.1.1 ≠ a := by
    intro p
    simp [others, List.mem_filter]
  obtain ⟨hout₁, hout₂⟩ := filter_pairs (c := (·.1 != a)) (d := (·.1 != b))
    fun p hp => congrArg (!·) (h.beq_eq hab hp)
  have hwaits : ∀ p ∈ others, waitsFor n p.1 = waitsFor n p.2 := by
    intro p hp
    rw [waitsFor, waitsFor, (h.alike p ((hothers p).mp hp).1).status_eq]
  obtain ⟨hw₁, hw₂⟩ := filter_pairs hwaits
  obtain ⟨hs₁, hs₂⟩ := filter_pairs (c := fun e => !waitsFor n e) (d := fun e => !waitsFor n e)
    fun p hp => congrArg (!·) (hwaits p hp)
  -- Those that do not wait keep their places, the others come last and run.
  let staying := others.filter fun p => !waitsFor n p.1
  let leaving := others.filter fun p => waitsFor n p.1
  let awake := leaving.map fun p : Pair => ((p.1.1, running p.1.2), (p.2.1, running p.2.2))
  have hstands : ∀ x y, Stands (staying ++ awake) x y ↔ Stands ps x y ∧ x ≠ a := by
    intro x y
    have hmap : Stands awake x y ↔ Stands leaving x y :=
      stands_map (f := fun e => (e.1, running e.2)) (g := fun e => (e.1, running e.2))
        (fun _ => rfl) fun _ => rfl
    rw [stands_append, hmap, or_comm, ← stands_append, stands_filter_or]
    constructor
    · rintro ⟨p, hp, rfl, rfl⟩
      obtain ⟨hp, hne⟩ := (hothers p).mp hp
      exact ⟨⟨p, hp, rfl, rfl⟩, hne⟩
    · rintro ⟨⟨p, hp, rfl, rfl⟩, hne⟩
      exact ⟨p, (hothers p).mpr ⟨hp, hne⟩, rfl, rfl⟩
  refine ⟨staying ++ awake, ⟨⟨?_, ?_, fun m => ?_⟩, h.sound₁.remove hi, h.sound₂.remove hj, ?_,
    fun hE => ?_, fun hE q hq => ?_⟩, hstands⟩
  · rw [he₁, h.left, hout₁, hw₁, hs₁, List.map_append, List.map_map, List.map_map]
    rfl
  · rw [he₂, h.right, hout₂, hw₂, hs₂, List.map_append, List.map_map, List.map_map]
    rfl
  · rw [find?_remove hi, find?_remove hj, hij.number_eq]
    have hiff := h.find?_eq_some_iff hab i.number
    by_cases hm : m = i.number ∧ l₁.find? i.number = some a
    · rw [if_pos hm, if_pos ⟨hm.1, hiff.mp hm.2⟩]
      exact .none
    · rw [if_neg hm, if_neg fun hm' => hm ⟨hm'.1, hiff.mpr hm'.2⟩]
      cases hfind : l₁.find? m with
      | none =>
        rw [h.find?_none hfind]
        exact .none
      | some x =>
        obtain ⟨y, hy, hxy⟩ := h.find?_some hfind
        rw [hy]
        refine .some ((hstands x y).mpr ⟨hxy, ?_⟩)
        -- What is tracked for another number is another instance.
        rintro rfl
        obtain ⟨k, hk, hnumber⟩ := h.sound₁.find hfind
        obtain rfl : i = k := Option.some.inj (hi.symm.trans hk)
        exact hm ⟨hnumber.symm, hnumber ▸ hfind⟩
  · intro q hq
    rcases List.mem_append.mp hq with hq | hq
    · exact h.alike q ((hothers q).mp (List.mem_filter.mp hq).1).1
    · obtain ⟨p, hp, rfl⟩ := List.mem_map.mp hq
      exact (h.alike p ((hothers p).mp (List.mem_filter.mp hp).1).1).setStatus .running
  · obtain ⟨p, hp, rfl, rfl⟩ := hab
    have hsame := h.handles hE p hp
    rw [remove_eq hi, remove_eq hj]
    refine Roster.SameCells.congr ?_ (sameCells_wake _ _) (sameCells_wake _ _)
    rw [hsame] at hj ⊢
    exact (h.cells hE).erase h.sound₁.roster h.sound₂.roster hi hj
  · obtain ⟨⟨p, hp, h₁, h₂⟩, -⟩ := (hstands _ _).mp ⟨q, hq, rfl, rfl⟩
    rw [← h₁, ← h₂]
    exact h.handles hE p hp

/-- The same handles in the order of turns, if handles are the same at all. -/
theorem handles_eq (hE : E) :
    l₂.roster.handles = l₁.roster.handles := by
  rw [Roster.handles_eq h.sound₁.roster, Roster.handles_eq h.sound₂.roster, h.left, h.right,
    List.map_map, List.map_map]
  exact List.map_congr_left fun p hp => h.handles hE p hp

/-- If handles are the same, each leads to a pair or to nothing. -/
theorem stands_or_none (hE : E) (a : Handle) :
    Stands ps a a ∨ (l₁.instance? a = none ∧ l₂.instance? a = none) := by
  cases hi : l₁.instance? a with
  | some i =>
    obtain ⟨p, hp, hpa⟩ := h.exists_pair₁ hi
    have hsame := h.handles hE p hp
    rw [hpa] at hsame
    exact .inl ⟨p, hp, by rw [hpa], hsame⟩
  | none =>
    cases hj : l₂.instance? a with
    | none => exact .inr ⟨rfl, rfl⟩
    | some j =>
      obtain ⟨p, hp, hpa⟩ := h.exists_pair₂ hj
      have hsame := h.handles hE p hp
      rw [hpa] at hsame
      exact .inl ⟨p, hp, hsame.symm, by rw [hpa]⟩

theorem clear (r₁ : l₁'.roster = l₁.roster.clear)
    (r₂ : l₂'.roster = l₂.roster.clear) (t₁ : l₁'.tracked = []) (t₂ : l₂'.tracked = []) :
    Matched E P [] l₁' l₂' where
  left := by rw [r₁, (Roster.sound_clear h.sound₁.roster).2, List.map_nil]
  right := by rw [r₂, (Roster.sound_clear h.sound₂.roster).2, List.map_nil]
  tracked n := by
    rw [find?, find?, t₁, t₂]
    exact .none
  sound₁ :=
    have hchange : Change (fun _ => True) l₁ l₁' := .clear r₁ t₁
    hchange.sound h.sound₁
  sound₂ :=
    have hchange : Change (fun _ => True) l₂ l₂' := .clear r₂ t₂
    hchange.sound h.sound₂
  alike := fun p hp => absurd hp List.not_mem_nil
  cells hE := by
    rw [r₁, r₂]
    exact (h.cells hE).clear h.sound₁.roster h.sound₂.roster (h.handles_eq hE)
  handles := fun _ p hp => absurd hp List.not_mem_nil

/-- Conditions that agree on instances that are alike select handles that stand for each other. -/
theorem handlesWhere {c : Instance → Bool} (hc : ∀ i j : Instance, i.Alike P j → c j = c i) :
    List.Forall₂ (Stands ps) (l₁.roster.handlesWhere c) (l₂.roster.handlesWhere c) := by
  obtain ⟨h₁, h₂⟩ := filter_pairs (c := fun e => c e.2) (d := fun e => c e.2)
    fun p hp => (hc _ _ (h.alike p hp)).symm
  unfold Roster.handlesWhere
  rw [h.left, h.right, h₁, h₂, List.map_map, List.map_map, List.forall₂_map_left_iff,
    List.forall₂_map_right_iff, List.forall₂_same]
  intro p hp
  exact ⟨p, (List.mem_filter.mp hp).1, rfl, rfl⟩

end Matched

end Level

end LevelScript
