import Mathlib.Algebra.Group.Nat.Defs
import LevelScript.Proofs.Level.Sides

/-!
# Operations on both sides

Whole operations on two sides that are alike. The one place where handles matter is a tick: it
lists the handles to visit beforehand, and an instance may be gone, and even its handle be in use
again, when its turn comes. What is then found under the handle is new in this tick, and a visit
does nothing to it.

* `Simulation.Spent`: a visit to this handle does nothing.
* `Simulation.Watched`: handles to visit, one on each side, that lead to the same.
* `keeps_settle`, `beside_pass`: settling and passing keep the sides alike.
* `Operation.parallel_run`, `parallel_play`: operations give the same on both sides.
-/

namespace LevelScript.Simulation

open Level (Stands Matched)

/-! ## Handles that need no visit -/

section Spent

variable {ω : Type} {s : Simulation ω} {a : Handle}

/-- What is under this handle, if anything, has taken its turn in this tick or is new. -/
def Spent (s : Simulation ω) (h : Handle) : Prop := ∃ rest, s.Stamped rest ∧ h ∉ rest

theorem Stamped.mono {rest rest' : List Handle} (h : s.Stamped rest) (hsub : rest ⊆ rest') :
    s.Stamped rest' :=
  fun k j hj => (h k j hj).imp_right (Or.imp_left fun hk => hsub hk)

/-- A change that keeps what has taken its turn keeps handles spent. -/
theorem Spent.of_stamped {s' : Simulation ω} (h : s.Spent a)
    (hstep : ∀ rest, s.Stamped rest → s'.Stamped rest) : s'.Spent a := by
  obtain ⟨rest, hs, hnot⟩ := h
  exact ⟨rest, hstep rest hs, hnot⟩

theorem spent_of_none (hl : s.level.Sound) (ha : s.level.instance? a = none) : s.Spent a := by
  refine ⟨s.level.roster.entries.map Prod.fst, fun k j hj => .inr (.inl ?_), fun hmem => ?_⟩
  · exact List.mem_map_of_mem ((Roster.mem_entries_iff hl.roster).mpr hj)
  · obtain ⟨⟨_, i⟩, hi, rfl⟩ := List.mem_map.mp hmem
    have hfind : s.level.instance? _ = some i := (Roster.mem_entries_iff hl.roster).mp hi
    simp [ha] at hfind

variable [Host ω]

theorem visit_of_none (ha : s.level.instance? a = none) : s.visit a = s := by rw [visit, ha]

theorem visit_of_spent (h : s.Spent a) (hready : s.level.ready = []) (htick : s.level.tick ≠ 0) :
    s.visit a = s := by
  obtain ⟨rest, hs, hnot⟩ := h
  cases hi : s.level.instance? a with
  | none => exact visit_of_none hi
  | some i =>
    have hlast : i.lastTick = s.level.tick := by
      rcases hs a i hi with h | h | h
      · exact h
      · exact absurd h hnot
      · rw [hready] at h
        exact absurd h List.not_mem_nil
    rw [visit, hi]
    dsimp only
    rw [if_neg]
    simp [isDue, hlast, htick]

theorem Spent.visit (hl : s.level.Sound) (h : s.Spent a) (b : Handle) : (s.visit b).Spent a :=
  h.of_stamped fun rest hs => stamped_visit hl (hs.mono (List.subset_cons_self b rest))

end Spent

/-! ## Handles to visit -/

variable {ω₁ ω₂ : Type} {k : Link ω₁ ω₂} {ps qs : List Level.Pair}
  {s₁ s₁' s₁'' : Simulation ω₁} {s₂ s₂' s₂'' : Simulation ω₂} {a b : Handle}

/-- Visits to these handles, one on each side, do the same. -/
def Watched (ps : List Level.Pair) (s₁ : Simulation ω₁) (s₂ : Simulation ω₂) (a b : Handle) :
    Prop :=
  Stands ps a b ∨ (s₁.Spent a ∧ s₂.Spent b)

/-- The sides are alike after a change, and what was watched still is. -/
def Keeps (k : Link ω₁ ω₂) (ps : List Level.Pair) (s₁ : Simulation ω₁) (s₂ : Simulation ω₂)
    (s₁' : Simulation ω₁) (s₂' : Simulation ω₂) : Prop :=
  ∃ qs, s₁'.Beside k qs s₂' ∧ ∀ a b, Watched ps s₁ s₂ a b → Watched qs s₁' s₂' a b

/-- What survives is watched on, as long as spent handles stay spent. -/
theorem Survives.keeps (h : s₁'.Survives k ps s₂') (h₁ : ∀ a, s₁.Spent a → s₁'.Spent a)
    (h₂ : ∀ b, s₂.Spent b → s₂'.Spent b) : Keeps k ps s₁ s₂ s₁' s₂' := by
  obtain ⟨qs, hbeside, hqs⟩ := h
  refine ⟨qs, hbeside, fun a b hab => ?_⟩
  rcases hab with hab | ⟨ha, hb⟩
  · refine (hqs a b hab).imp_right fun ⟨ha, hb⟩ => ?_
    exact ⟨spent_of_none hbeside.matched.sound₁ ha, spent_of_none hbeside.matched.sound₂ hb⟩
  · exact .inr ⟨h₁ a ha, h₂ b hb⟩

theorem sound_remove {ω : Type} {s : Simulation ω} (hl : s.level.Sound) (h : Handle) :
    (s.remove h).level.Sound :=
  have hchange : s.level.Change (fun _ => True) (s.remove h).level :=
    (step_remove s h).change hl trivial trivial trivial trivial
  hchange.sound hl

theorem instance?_foldl_remove {ω : Type} {s : Simulation ω} (hl : s.level.Sound) {x : Handle}
    (hx : s.level.instance? x = none) (handles : List Handle) :
    (handles.foldl remove s).level.instance? x = none := by
  induction handles generalizing s with
  | nil => exact hx
  | cons h rest ih => exact ih (sound_remove hl h) (instance?_remove_eq_none hl h (.inr hx))

/-! ## The parts of settling -/

section Parts

variable (h : s₁.Beside k ps s₂)

include h

theorem Beside.isReplica_eq : s₂.level.isReplica = s₁.level.isReplica := by
  rw [Level.isReplica, Level.isReplica, h.level.config₁, h.level.config₂]

theorem beside_dropRequest :
    s₁.dropRequest.Beside k ps s₂.dropRequest :=
  ⟨{ h.level with
      matched := h.matched.congr rfl rfl rfl rfl
      pending := congrArg List.tail h.level.pending }, h.session, h.world⟩

/-- The first of the new instances on both sides. -/
theorem beside_dropReady {rest : List Handle} (hr : s₁.level.ready = a :: rest) :
    ∃ b rest', s₂.level.ready = b :: rest' ∧ Stands ps a b ∧
      s₁.dropReady.Beside k ps s₂.dropReady ∧ a ∉ s₁.dropReady.level.ready := by
  have hready := h.level.ready
  have hnodup := h.level.nodup
  rw [hr] at hready hnodup
  obtain ⟨b, rest', hab, hrest, hr₂⟩ := List.forall₂_cons_left_iff.mp hready
  have htail₁ : s₁.dropReady.level.ready = rest := congrArg List.tail hr
  have htail₂ : s₂.dropReady.level.ready = rest' := congrArg List.tail hr₂
  refine ⟨b, rest', hr₂, hab, ⟨?_, h.session, h.world⟩, ?_⟩
  · exact { h.level with
      matched := h.matched.congr rfl rfl rfl rfl
      ready := by rw [htail₁, htail₂]; exact hrest
      nodup := by rw [htail₁]; exact (List.nodup_cons.mp hnodup).2 }
  · rw [htail₁]
    exact (List.nodup_cons.mp hnodup).1

theorem follows_postpone (hab : Stands ps a b) :
    (s₁.postpone a).Follows k ps (s₂.postpone b) := by
  obtain ⟨qs, hm, hqs⟩ := h.matched.modify hab (f := ({ · with lastTick := s₁.level.tick }))
    (g := ({ · with lastTick := s₁.level.tick })) (fun _ _ _ _ hij => hij.setLastTick _)
    fun _ _ => rfl
  have hkeep : ∀ x y, Stands ps x y → Stands qs x y := fun x y => (hqs x y).mpr
  refine ⟨qs, Beside.note ?_ _ _, hkeep⟩
  refine h.withMatched (hm _ _ rfl ?_ rfl rfl) rfl rfl (fun x y _ => hkeep x y) rfl rfl rfl rfl
  show s₂.level.roster.modify b _ = _
  rw [h.level.tick]

/-- Removing instances one after the other on both sides. -/
theorem survives_foldl_remove (hready : s₁.level.ready = [])
    {xs ys : List Handle} (hxy : List.Forall₂ (Stands ps) xs ys) (hnodup : xs.Nodup) :
    (xs.foldl remove s₁).Survives k ps (ys.foldl remove s₂) := by
  induction xs generalizing ps s₁ s₂ ys with
  | nil =>
    cases hxy
    exact h.follows.survives
  | cons x xs ih =>
    obtain ⟨y, ys, hab, hrest, rfl⟩ := List.forall₂_cons_left_iff.mp hxy
    obtain ⟨hnot, hnodup⟩ := List.nodup_cons.mp hnodup
    obtain ⟨qs, hbeside, hqs⟩ := beside_remove h hab (by simp [hready])
    have hready' : (s₁.remove x).level.ready = [] := by
      obtain ⟨i, -, hi, -, -⟩ := h.matched.find hab
      rw [remove_of_some hi]
      show (s₁.level.remove x).ready = []
      rw [Level.remove_keeps]
      exact hready
    have hrest' : List.Forall₂ (Stands qs) xs ys := forall₂_imp_of_mem hrest fun u v hu huv =>
      (hqs u v).mpr ⟨huv, fun heq => hnot (heq ▸ hu)⟩
    obtain ⟨rs, hbeside', hrs⟩ := ih hbeside hready' hrest' hnodup
    refine ⟨rs, hbeside', fun u v huv => ?_⟩
    by_cases hu : u = x
    · have hv := (h.matched.stands_iff hab huv).mp hu
      refine .inr ⟨?_, ?_⟩
      · exact instance?_foldl_remove (sound_remove h.matched.sound₁ x)
          (instance?_remove_eq_none h.matched.sound₁ x (.inl hu)) xs
      · exact instance?_foldl_remove (sound_remove h.matched.sound₂ y)
          (instance?_remove_eq_none h.matched.sound₂ y (.inl hv)) ys
    · exact hrs u v ((hqs u v).mpr ⟨huv, hu⟩)

theorem survives_reap (hready : s₁.level.ready = []) :
    s₁.reap.Survives k ps s₂.reap := by
  unfold reap
  rw [h.level.reapPending]
  split
  · have hflag : (s₁.modifyLevel ({ · with reapPending := false })).Beside k ps
        (s₂.modifyLevel ({ · with reapPending := false })) :=
      ⟨{ h.level with matched := h.matched.congr rfl rfl rfl rfl, reapPending := rfl },
        h.session, h.world⟩
    refine survives_foldl_remove hflag hready (h.matched.handlesWhere fun i j hij => ?_)
      (Level.handlesWhere_waits h.matched.sound₁.roster _).1
    rw [hij.status_eq]
  · exact h.follows.survives

end Parts

/-! ## Settling -/

variable [Host ω₁] [Host ω₂]

omit [Host ω₂] in
theorem tick_of_proper {sets : Status → Prop} {acts : List Act} (h : s₁.Proper sets acts) :
    (s₁.actAll acts).level.tick = s₁.level.tick := by
  induction acts generalizing s₁ with
  | nil => rfl
  | cons a rest ih =>
    rw [actAll_cons, ih h.2]
    exact (staysInTick_act s₁ h.1.ne_tick).tick

theorem closed_true : Status.Closed fun _ => True :=
  ⟨trivial, trivial, trivial, fun _ _ _ => trivial⟩

omit [Host ω₂] in
theorem tick_visit_settle (hl : s₁.level.Sound) (hq : s₁.level.Quiet) (left : Nat) (a : Handle) :
    ((s₁.visit a).settle left).2.level.tick = s₁.level.tick := by
  have hproper := proper_passActs closed_true left hl hq [a]
  have htick := tick_of_proper hproper
  rwa [actAll_passActs] at htick

/-- The handles that a tick is about to visit on the two sides. -/
def Agenda (k : Link ω₁ ω₂) (ps : List Level.Pair) (s₁ : Simulation ω₁) (s₂ : Simulation ω₂)
    (xs ys : List Handle) : Prop :=
  (k.sameHandles ∧ xs = ys) ∨
    (s₁.level.tick ≠ 0 ∧ List.Forall₂ (Watched ps s₁ s₂) xs ys)

variable (hk : k.Fair) (h : s₁.Beside k ps s₂)

include hk h

/-- Settling on both sides takes the same first turns. -/
theorem keeps_settle (left : Nat) (hw : s₁.Within k.inside (s₁.settleActs left)) :
    (s₂.settle left).1 = (s₁.settle left).1 ∧
      Keeps k ps s₁ s₂ (s₁.settle left).2 (s₂.settle left).2 := by
  fun_induction settle left s₁ generalizing ps s₂ with
  | case1 left s₁ r rest hp _ ih =>
    have hp₂ : s₂.level.pending = r :: rest := h.level.pending.trans hp
    rw [settleActs_request hp] at hw
    rw [settle_request hp₂]
    have hdrop := beside_dropRequest h
    obtain ⟨qs, hbeside, hqs⟩ : Keeps k ps s₁ s₂ (s₁.dropRequest.route r).2
        (s₂.dropRequest.route r).2 :=
      (follows_route hk hdrop r).2.survives.keeps
        (fun a ha => ha.of_stamped fun _ hs => stamped_route hdrop.matched.sound₁ hs r)
        fun b hb => hb.of_stamped fun _ hs => stamped_route hdrop.matched.sound₂ hs r
    obtain ⟨hleft, rs, hbeside', hrs⟩ := ih hbeside hw.2.2
    exact ⟨hleft, rs, hbeside', fun a b hab => hrs a b (hqs a b hab)⟩
  | case2 left s₁ hp hr =>
    have hr₂ : s₂.level.ready = [] := by
      have hready := h.level.ready
      rw [hr] at hready
      exact List.forall₂_nil_left_iff.mp hready
    rw [settle_done (h.level.pending.trans hp) hr₂]
    exact ⟨rfl, (survives_reap h hr).keeps
      (fun a ha => ha.of_stamped fun _ hs => stamped_reap h.matched.sound₁ hs)
      fun b hb => hb.of_stamped fun _ hs => stamped_reap h.matched.sound₂ hs⟩
  | case3 s₁ hp a rest hr _ ih =>
    obtain ⟨b, rest', hr₂, hab, hdrop, -⟩ := beside_dropReady h hr
    rw [settleActs_postpone hp hr] at hw
    rw [settle_postpone (h.level.pending.trans hp) hr₂]
    obtain ⟨qs, hbeside, hqs⟩ : Keeps k ps s₁ s₂ (s₁.dropReady.postpone a)
        (s₂.dropReady.postpone b) :=
      (follows_postpone hdrop hab).survives.keeps
        (fun x hx => hx.of_stamped fun _ hs => stamped_postpone h.matched.sound₁ hr hs)
        fun y hy => hy.of_stamped fun _ hs => stamped_postpone h.matched.sound₂ hr₂ hs
    obtain ⟨hleft, rs, hbeside', hrs⟩ := ih hbeside hw.2
    exact ⟨hleft, rs, hbeside', fun x y hxy => hrs x y (hqs x y hxy)⟩
  | case4 s₁ hp a rest hr left ih =>
    obtain ⟨b, rest', hr₂, hab, hdrop, hnot⟩ := beside_dropReady h hr
    rw [settleActs_visit hp hr, List.cons_append] at hw
    obtain ⟨-, hw⟩ := hw
    rw [within_append] at hw
    obtain ⟨hvisit, hrest⟩ := hw
    rw [show s₁.act .takeReady = s₁.dropReady from rfl, actAll_visitActs] at hrest
    rw [settle_visit (h.level.pending.trans hp) hr₂]
    obtain ⟨qs, hbeside, hqs⟩ : Keeps k ps s₁ s₂ (s₁.dropReady.visit a) (s₂.dropReady.visit b) :=
      (survives_visit hk hdrop hab hnot hvisit).keeps
        (fun x hx => hx.of_stamped fun _ hs =>
          stamped_visit hdrop.matched.sound₁ (stamped_dropReady hr hs))
        fun y hy => hy.of_stamped fun _ hs =>
          stamped_visit hdrop.matched.sound₂ (stamped_dropReady hr₂ hs)
    obtain ⟨hleft, rs, hbeside', hrs⟩ := ih hbeside hrest
    exact ⟨hleft, rs, hbeside', fun x y hxy => hrs x y (hqs x y hxy)⟩

/-! ## Ticks -/

/-- A visit to the first handles of the agenda. -/
theorem keeps_visit (hq : s₁.level.Quiet)
    {xs ys : List Handle} (hagenda : Agenda k ps s₁ s₂ (a :: xs) (b :: ys))
    (hw : s₁.Within k.inside (s₁.visitActs a)) :
    Keeps k ps s₁ s₂ (s₁.visit a) (s₂.visit b) := by
  have hkeep : Keeps k ps s₁ s₂ s₁ s₂ := ⟨ps, h, fun _ _ hab => hab⟩
  have hstands : Stands ps a b → Keeps k ps s₁ s₂ (s₁.visit a) (s₂.visit b) := fun hab =>
    (survives_visit hk h hab (by simp [hq.2]) hw).keeps
      (fun x hx => hx.visit h.matched.sound₁ a) fun y hy => hy.visit h.matched.sound₂ b
  have hready₂ : s₂.level.ready = [] := by
    have hready := h.level.ready
    rw [hq.2] at hready
    exact List.forall₂_nil_left_iff.mp hready
  rcases hagenda with ⟨hsame, heq⟩ | ⟨htick, hall⟩
  · obtain ⟨rfl, -⟩ := List.cons.inj heq
    rcases h.matched.stands_or_none hsame a with hab | ⟨ha, hb⟩
    · exact hstands hab
    · rwa [visit_of_none ha, visit_of_none hb]
  · obtain ⟨hab, -⟩ := List.forall₂_cons.mp hall
    rcases hab with hab | ⟨ha, hb⟩
    · exact hstands hab
    · rwa [visit_of_spent ha hq.2 htick,
        visit_of_spent hb hready₂ (by rw [h.level.tick]; exact htick)]

theorem beside_pass (left : Nat) (hq : s₁.level.Quiet)
    {xs ys : List Handle} (hagenda : Agenda k ps s₁ s₂ xs ys)
    (hw : s₁.Within k.inside (s₁.passActs left xs)) :
    ∃ qs, (xs.foldl (fun (left, s) h => (s.visit h).settle left) (left, s₁)).2.Beside k qs
      (ys.foldl (fun (left, s) h => (s.visit h).settle left) (left, s₂)).2 := by
  induction xs generalizing left ps s₁ s₂ ys with
  | nil =>
    obtain rfl : ys = [] := by
      rcases hagenda with ⟨-, heq⟩ | ⟨-, hall⟩
      · exact heq.symm
      · exact List.forall₂_nil_left_iff.mp hall
    exact ⟨ps, h⟩
  | cons a xs ih =>
    obtain ⟨b, ys, rfl⟩ : ∃ b ys', ys = b :: ys' := by
      rcases hagenda with ⟨-, heq⟩ | ⟨-, hall⟩
      · exact ⟨a, xs, heq.symm⟩
      · obtain ⟨b, ys', -, -, heq⟩ := List.forall₂_cons_left_iff.mp hall
        exact ⟨b, ys', heq⟩
    rw [passActs, within_append, within_append, actAll_append, actAll_visitActs,
      actAll_settleActs] at hw
    obtain ⟨⟨hvisit, hsettle⟩, hrest⟩ := hw
    obtain ⟨qs, hbeside, hqs⟩ := keeps_visit hk h hq hagenda hvisit
    obtain ⟨hleft, rs, hbeside', hrs⟩ := keeps_settle hk hbeside left hsettle
    have hagenda' :
        Agenda k rs ((s₁.visit a).settle left).2 ((s₂.visit b).settle left).2 xs ys := by
      rcases hagenda with ⟨hsame, heq⟩ | ⟨htick, hall⟩
      · exact .inl ⟨hsame, (List.cons.inj heq).2⟩
      · refine .inr ⟨?_, (List.forall₂_cons.mp hall).2.imp fun x y hxy => hrs x y (hqs x y hxy)⟩
        rwa [tick_visit_settle h.matched.sound₁ hq]
    have := ih hbeside' ((s₁.visit a).settle left).1 (quiet_settle left _) hagenda' hrest
    rw [List.foldl_cons, List.foldl_cons]
    dsimp only
    rwa [← Prod.eta ((s₂.visit b).settle left), hleft]

theorem beside_tick (hq : s₁.level.Quiet)
    (htick : k.sameHandles ∨ s₁.level.tick + 1 ≠ 0) (hw : s₁.Within k.inside s₁.tickActs) :
    ∃ qs, s₁.tick.Beside k qs s₂.tick := by
  unfold tick
  unfold tickActs at hw
  rw [h.isReplica_eq]
  by_cases hr : s₁.level.isReplica = true
  · rw [if_pos hr, if_pos hr]
    exact ⟨ps, h⟩
  · rw [if_neg hr] at hw ⊢
    rw [if_neg hr]
    have hbegun : (s₁.act .tick).Beside k ps (s₂.act .tick) :=
      ⟨{ h.level with
          matched := h.matched.congr rfl rfl rfl rfl
          tick := congrArg (· + 1) h.level.tick }, h.session, h.world⟩
    have hall : List.Forall₂ (Stands ps) (s₁.act .tick).dueHandles (s₂.act .tick).dueHandles := by
      rw [dueHandles, dueHandles, hbegun.level.tick]
      refine hbegun.matched.handlesWhere fun i j hij => ?_
      rw [hij.lastTick_eq]
    refine beside_pass hk hbegun maxFirstTurns hq ?_ hw.2
    rcases htick with hsame | htick
    · refine .inl ⟨hsame, ?_⟩
      have heq := hall.imp fun a b ⟨p, hp, hpa, hpb⟩ =>
        show a = b from hpa ▸ hpb ▸ (h.matched.handles hsame p hp).symm
      rwa [List.forall₂_eq_eq_eq] at heq
    · exact .inr ⟨htick, hall.imp fun a b hab => .inl hab⟩

/-! ## Starts -/

theorem beside_settled
    (hw : s₁.Within k.inside s₁.settledActs) : ∃ qs, s₁.settled.Beside k qs s₂.settled := by
  obtain ⟨-, qs, hbeside, -⟩ := keeps_settle hk h maxFirstTurns hw
  exact ⟨qs, hbeside⟩

theorem follows_startAll (launches : List Launch) :
    (s₂.startAll launches).1 = (s₁.startAll launches).1 ∧
      (s₁.startAll launches).2.Follows k ps (s₂.startAll launches).2 := by
  unfold startAll
  generalize 0 = n
  induction launches generalizing ps s₁ s₂ n with
  | nil => exact ⟨rfl, h.follows⟩
  | cons p rest ih =>
    obtain ⟨hok, qs, hbeside, hqs⟩ := follows_start hk h p
    obtain ⟨hcount, rs, hbeside', hrs⟩ := ih hbeside (if (s₁.start p).1 then n + 1 else n)
    rw [List.foldl_cons, List.foldl_cons]
    dsimp only
    rw [hok]
    exact ⟨hcount, rs, hbeside', fun a b hab => hrs a b (hqs a b hab)⟩

theorem beside_startKind (kind : ScriptKind) (activator : Option Actor) (always : Bool)
    (hw : s₁.Within k.inside (s₁.startKindActs kind activator always)) :
    (s₂.startKind kind activator always).1 = (s₁.startKind kind activator always).1 ∧
      ∃ qs, (s₁.startKind kind activator always).2.Beside k qs
        (s₂.startKind kind activator always).2 := by
  unfold startKind
  unfold startKindActs at hw
  rw [h.isReplica_eq]
  by_cases hr : s₁.level.isReplica = true
  · rw [if_pos hr, if_pos hr]
    exact ⟨rfl, ps, h⟩
  · rw [if_neg hr] at hw ⊢
    rw [if_neg hr]
    have hkinds : s₂.level.program.scriptsOfKind kind = s₁.level.program.scriptsOfKind kind := by
      rw [h.level.program₁, h.level.program₂, hk.kinds]
    rw [within_append, actAll_startAll] at hw
    obtain ⟨hcount, qs, hbeside, -⟩ := follows_startAll hk h (s₁.kindLaunches kind activator always)
    dsimp only
    rw [hkinds]
    exact ⟨hcount, beside_settled hk hbeside hw.2⟩

theorem beside_launch (p : Launch) (hw : s₁.Within k.inside ((Operation.launch p).acts s₁)) :
    (s₂.launch p).1 = (s₁.launch p).1 ∧
      ∃ qs, (s₁.launch p).2.Beside k qs (s₂.launch p).2 := by
  unfold launch
  simp only [Operation.acts] at hw
  rw [h.isReplica_eq]
  by_cases hr : s₁.level.isReplica = true
  · rw [if_pos hr, if_pos hr]
    exact ⟨rfl, ps, h⟩
  · rw [if_neg hr] at hw ⊢
    rw [if_neg hr]
    obtain ⟨hok, qs, hbeside, -⟩ := follows_start hk h p
    exact ⟨hok, beside_settled hk hbeside hw.2⟩

theorem beside_request (r : Request) (hw : s₁.Within k.inside ((Operation.request r).acts s₁)) :
    (s₂.request r).1 = (s₁.request r).1 ∧
      ∃ qs, (s₁.request r).2.Beside k qs (s₂.request r).2 := by
  unfold request
  simp only [Operation.acts] at hw
  rw [h.isReplica_eq]
  by_cases hr : s₁.level.isReplica = true
  · rw [if_pos hr, if_pos hr]
    exact ⟨rfl, ps, h⟩
  · rw [if_neg hr] at hw ⊢
    rw [if_neg hr]
    obtain ⟨hok, qs, hbeside, -⟩ := follows_route hk h r
    exact ⟨hok, beside_settled hk hbeside hw.2⟩

theorem follows_foldl_deliver (es : List DeferredEntry) :
    (es.foldl deliver s₁).Follows k ps (es.foldl deliver s₂) := by
  induction es generalizing ps s₁ s₂ with
  | nil => exact h.follows
  | cons e rest ih =>
    obtain ⟨qs, hbeside, hqs⟩ := follows_deliver hk h e
    obtain ⟨rs, hbeside', hrs⟩ := ih hbeside
    exact ⟨rs, hbeside', fun a b hab => hrs a b (hqs a b hab)⟩

theorem beside_begin
    (hw : s₁.Within k.inside s₁.beginActs) : ∃ qs, s₁.begin.Beside k qs s₂.begin := by
  unfold begin
  unfold beginActs at hw
  rw [h.isReplica_eq]
  by_cases hr : s₁.level.isReplica = true
  · rw [if_pos hr, if_pos hr]
    exact ⟨ps, h⟩
  · rw [if_neg hr] at hw ⊢
    rw [if_neg hr, h.session, h.level.map]
    have htaken : s₁.takeDeferred.Beside k ps
        { s₂ with session := { s₁.session with
          deferred := s₁.session.deferred.drop s₁.level.map } } :=
      ⟨h.level, rfl, h.world⟩
    simp only [List.cons_append, within_append, Within, actAll_append,
      actAll_map .deliver deliver fun _ _ => rfl] at hw
    obtain ⟨-, ⟨⟨-, hsettle⟩, hstart⟩, -⟩ := hw
    rw [show s₁.act .takeDeferred = s₁.takeDeferred from rfl] at hsettle hstart
    rw [actAll_settledActs] at hstart
    obtain ⟨qs, hbeside, -⟩ := follows_foldl_deliver hk htaken
      (s₁.session.deferred.waiting s₁.level.map)
    obtain ⟨rs, hbeside⟩ := beside_settled hk hbeside hsettle
    obtain ⟨-, rs', hbeside⟩ := beside_startKind hk hbeside .opening none false hstart
    exact ⟨rs', hbeside.note _ _⟩

end LevelScript.Simulation

namespace LevelScript

open Level (Stands Matched)

variable {ω₁ ω₂ : Type} {k : Link ω₁ ω₂} {ps : List Level.Pair} {s₁ : Simulation ω₁}
  {s₂ : Simulation ω₂} {a b : Handle}

/-! ## The order of turns -/

/-- The name means the same instance on both sides. -/
def Which.Shared (k : Link ω₁ ω₂) : Which → Prop
  | handle _ => k.sameHandles
  | _ => True

/-- The operation names instances in a way that means the same on both sides. -/
def Operation.Shared (k : Link ω₁ ω₂) : Operation → Prop
  | putFirst which => which.Shared k
  | putLast which => which.Shared k
  | _ => True

namespace Simulation

variable (h : s₁.Beside k ps s₂)

include h

theorem Beside.handles :
    List.Forall₂ (Stands ps) s₁.level.roster.handles s₂.level.roster.handles := by
  rw [Roster.handles_eq h.matched.sound₁.roster, Roster.handles_eq h.matched.sound₂.roster,
    h.matched.left, h.matched.right, List.map_map, List.map_map, List.forall₂_map_left_iff,
    List.forall₂_map_right_iff, List.forall₂_same]
  exact fun p hp => ⟨p, hp, rfl, rfl⟩

/-- A name leads to a pair, to handles of nothing, or nowhere. -/
theorem Beside.which_cases {which : Which} (hw : which.Shared k) :
    (which.find? s₁.level = none ∧ which.find? s₂.level = none) ∨
      ∃ a b, which.find? s₁.level = some a ∧ which.find? s₂.level = some b ∧
        (Stands ps a b ∨ (s₁.level.instance? a = none ∧ s₂.level.instance? b = none)) := by
  cases which with
  | handle a => exact .inr ⟨a, a, rfl, rfl, h.matched.stands_or_none hw a⟩
  | script n =>
    simp only [Which.find?]
    cases hfind : s₁.level.find? n with
    | none => exact .inl ⟨rfl, h.matched.find?_none hfind⟩
    | some a =>
      obtain ⟨b, hb, hab⟩ := h.matched.find?_some hfind
      exact .inr ⟨a, b, rfl, hb, .inl hab⟩
  | place index =>
    simp only [Which.find?]
    have hhandles := h.handles
    by_cases hi : index < s₁.level.roster.handles.length
    · have hj : index < s₂.level.roster.handles.length := hhandles.length_eq ▸ hi
      rw [List.getElem?_eq_getElem hi, List.getElem?_eq_getElem hj]
      exact .inr ⟨_, _, rfl, rfl, .inl (hhandles.get hi hj)⟩
    · rw [List.getElem?_eq_none (by omega),
        List.getElem?_eq_none (by rw [← hhandles.length_eq]; omega)]
      exact .inl ⟨rfl, rfl⟩

/-- An instance is moved in the order of turns on both sides. -/
theorem beside_reorder {move : Level → Handle → Bool × Level}
    (hnone : ∀ (l : Level) a, l.Sound → l.instance? a = none → move l a = (false, l))
    (hmove : ∀ a b, Stands ps a b → (move s₂.level b).1 = (move s₁.level a).1 ∧
      ∃ qs, Beside k qs { s₁ with level := (move s₁.level a).2 }
        { s₂ with level := (move s₂.level b).2 })
    {which : Which} (hw : which.Shared k) :
    (s₂.reorder move which).1 = (s₁.reorder move which).1 ∧
      ∃ qs, (s₁.reorder move which).2.Beside k qs (s₂.reorder move which).2 := by
  unfold reorder
  rcases h.which_cases hw with ⟨h₁, h₂⟩ | ⟨a, b, h₁, h₂, hab | ⟨ha, hb⟩⟩
  · rw [h₁, h₂]
    exact ⟨rfl, ps, h⟩
  · rw [h₁, h₂]
    obtain ⟨hflag, hbeside⟩ := hmove a b hab
    exact ⟨congrArg Outcome.flag hflag, hbeside⟩
  · rw [h₁, h₂]
    dsimp only
    rw [hnone _ _ h.matched.sound₁ ha, hnone _ _ h.matched.sound₂ hb]
    exact ⟨rfl, ps, h⟩

theorem isSome_cell?_eq (hab : Stands ps a b) :
    (s₂.level.roster.cell? b).isSome = (s₁.level.roster.cell? a).isSome := by
  obtain ⟨i, j, hi, hj, -⟩ := h.matched.find hab
  rw [Roster.isSome_cell? h.matched.sound₁.roster, Roster.isSome_cell? h.matched.sound₂.roster,
    show s₁.level.roster.instance? a = some i from hi,
    show s₂.level.roster.instance? b = some j from hj]
  rfl

theorem beside_put {put : Roster → Handle → Roster}
    (hput : put = Roster.putFirst ∨ put = Roster.putLast) {which : Which} (hw : which.Shared k) :
    let move (l : Level) a := ((l.roster.cell? a).isSome, { l with roster := put l.roster a })
    (s₂.reorder move which).1 = (s₁.reorder move which).1 ∧
      ∃ qs, (s₁.reorder move which).2.Beside k qs (s₂.reorder move which).2 := by
  refine beside_reorder h (fun l a hl ha => ?_) (fun a b hab => ?_) hw
  · have hcell : l.roster.cell? a = none := (Roster.cell?_eq_none_iff hl.roster).mpr ha
    rcases hput with rfl | rfl
    · simp [Roster.putFirst, hcell]
    · simp [Roster.putLast, hcell]
  · obtain ⟨qs, hm, hqs⟩ := h.matched.put hput hab
    refine ⟨isSome_cell?_eq h hab, qs, ?_⟩
    exact h.withMatched (hm _ _ rfl rfl rfl rfl) rfl rfl (fun x y _ => (hqs x y).mpr)
      rfl rfl rfl rfl

end Simulation

/-! ## Operations -/

variable [Host ω₁] [Host ω₂]

namespace Operation

open Simulation

/-- An operation gives the same on both sides, and leaves them alike. -/
theorem parallel_run (hk : k.Fair) (h : s₁.Beside k ps s₂) (hq : s₁.level.Quiet) {op : Operation}
    (hop : op.Shared k) (htick : k.sameHandles ∨ (op = .tick → s₁.level.tick + 1 ≠ 0))
    (hw : s₁.Within k.inside (op.acts s₁)) :
    (op.run s₂).1 = (op.run s₁).1 ∧ ∃ qs, (op.run s₁).2.Beside k qs (op.run s₂).2 := by
  cases op with
  | begin => exact ⟨rfl, beside_begin hk h hw⟩
  | launch p =>
    obtain ⟨hok, hbeside⟩ := beside_launch hk h p hw
    exact ⟨congrArg Outcome.flag hok, hbeside⟩
  | request r =>
    obtain ⟨hok, hbeside⟩ := beside_request hk h r hw
    exact ⟨congrArg Outcome.flag hok, hbeside⟩
  | startKind kind activator always =>
    obtain ⟨hcount, hbeside⟩ := beside_startKind hk h kind activator always hw
    exact ⟨congrArg Outcome.count hcount, hbeside⟩
  | tick => exact ⟨rfl, beside_tick hk h hq (htick.imp_right fun h => h rfl) hw⟩
  | putFirst which => exact beside_put h (.inl rfl) hop
  | putLast which => exact beside_put h (.inr rfl) hop
  | setStatus script status =>
    obtain ⟨hok, qs, hbeside, -⟩ := follows_setStatus h script status
    exact ⟨congrArg Outcome.flag hok, qs, hbeside⟩
  | setVar index value =>
    refine ⟨rfl, ps, ⟨?_, h.session, h.world⟩⟩
    exact { h.level with
      matched := h.matched.congr rfl rfl rfl rfl
      memory := congrArg (MapMemory.setVar · index value) h.level.memory }
  | setElement array index value =>
    refine ⟨rfl, ps, ⟨?_, h.session, h.world⟩⟩
    exact { h.level with
      matched := h.matched.congr rfl rfl rfl rfl
      memory := congrArg (MapMemory.setElement · array index value) h.level.memory }
  | terminateAll =>
    refine ⟨rfl, [], ⟨?_, h.session, h.world⟩⟩
    exact { h.level with
      matched := h.matched.clear rfl rfl rfl rfl
      stack₁ := rfl, stack₂ := rfl, pending := rfl, ready := .nil, nodup := List.nodup_nil }

omit [Host ω₂] in
/-- Only the operation for it lets a tick go by. -/
theorem tick_run (hl : s₁.level.AtRest) (op : Operation) :
    (op.run s₁).2.level.tick = s₁.level.tick ∨
      op = .tick ∧ (op.run s₁).2.level.tick = s₁.level.tick + 1 := by
  have hsets : op.Sets fun _ => True := by cases op <;> trivial
  obtain ⟨front, rest, hacts, hfront, hproper⟩ := exists_proper_acts closed_true hl hsets
  rw [op.run_eq_acts, hacts, actAll_append, tick_of_proper hproper]
  rcases hfront with rfl | ⟨rfl, rfl⟩
  · exact .inl rfl
  · exact .inr ⟨rfl, rfl⟩

end Operation

namespace Simulation

/-- All turns in a list of operations fetch only at offsets inside. -/
def PlayWithin {ω : Type} [Host ω] (inside : UInt32 → Prop) (s : Simulation ω) :
    List Operation → Prop
  | [] => True
  | op :: ops => s.Within inside (op.acts s) ∧ (op.run s).2.PlayWithin inside ops

/-- Operations give the same on both sides, one after the other, and leave the sides alike. If
handles differ, the counter of ticks must not start anew. -/
theorem parallel_play (hk : k.Fair) (h : s₁.Beside k ps s₂) (hl : s₁.level.AtRest)
    {ops : List Operation} (hops : ∀ op ∈ ops, op.Shared k)
    (hticks : k.sameHandles ∨ s₁.level.tick.toNat + ops.count .tick < 2 ^ 64)
    (hw : s₁.PlayWithin k.inside ops) :
    (s₂.play ops).1 = (s₁.play ops).1 ∧ ∃ qs, (s₁.play ops).2.Beside k qs (s₂.play ops).2 := by
  induction ops generalizing ps s₁ s₂ with
  | nil => exact ⟨rfl, ps, h⟩
  | cons op ops ih =>
    have hnext : k.sameHandles ∨ (op = .tick → s₁.level.tick + 1 ≠ 0) := by
      refine hticks.imp_right fun hlt hop hzero => ?_
      rw [hop, List.count_cons_self] at hlt
      have hnat := congrArg UInt64.toNat hzero
      rw [UInt64.toNat_add, show (1 : UInt64).toNat = 1 from rfl,
        show (0 : UInt64).toNat = 0 from rfl] at hnat
      omega
    obtain ⟨hfirst, qs, hbeside⟩ := op.parallel_run hk h hl.quiet (hops op List.mem_cons_self)
      hnext hw.1
    have hticks' : k.sameHandles ∨
        (op.run s₁).2.level.tick.toNat + ops.count .tick < 2 ^ 64 := by
      refine hticks.imp_right fun hlt => ?_
      rcases op.tick_run hl with htick | ⟨hop, htick⟩
      · rw [htick]
        exact Nat.lt_of_le_of_lt (Nat.add_le_add_left (List.count_le_count_cons ..) _) hlt
      · rw [hop, List.count_cons_self] at hlt
        rw [htick, UInt64.toNat_add, show (1 : UInt64).toNat = 1 from rfl]
        omega
    obtain ⟨hrest, hbeside'⟩ := ih hbeside (hl.run op)
      (fun op' hop' => hops op' (List.mem_cons_of_mem _ hop')) hticks' hw.2
    simp only [play]
    exact ⟨by rw [hfirst, hrest], hbeside'⟩

end Simulation

end LevelScript
