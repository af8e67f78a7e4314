import LevelScript.Proofs.Machine.Decoding

/-!
# Frames of functions

A function's arguments and other variables are its frame, with the record of the call above them.
Until the function returns, what lies under its frame is out of reach: a pop stops at the record,
and variables are counted from a frame at or above this one. Calls, returns and restarts, which
change the frame, are treated apart.

* `Activation`: a call that has not returned; `Activation.Holds`: what stays true until then.
* `Exec.Secluded`: whatever lies under the frame, a computation does the same and leaves it there.
* `Exec.secluded_executeWith`: so does every opcode but calls, returns and restarts.
-/

namespace LevelScript

/-- The machine with slots under those that it has. -/
def Machine.on {ω : Type} (m : Machine ω) (lower : Array Slot) : Machine ω :=
  { m with stack := lower ++ m.stack }

/-- The record in a slot. -/
def Slot.record? : Slot → Option ReturnRecord
  | value _ => none
  | record r => some r

/-- A call of a function that has not returned. -/
structure Activation where
  /-- Where the function's frame starts, counted from the instance's first slot. -/
  base : UInt32
  function : UInt32
  /-- How many slots the frame has; the record lies above them. -/
  size : Nat
  record : ReturnRecord
  deriving DecidableEq

namespace Activation

variable {ω : Type} (a : Activation)

/-- How many slots lie under the frame, with those of others. -/
def floor (ctx : Context) : Nat := ctx.base + a.base.toNat

/-- The frame of the function itself, or one above its record. -/
def Inside (frame : Frame) (function : Option UInt32) : Prop :=
  frame = .stack a.base ∧ function = some a.function ∨
    ∃ base, frame = .stack base ∧ a.base.toNat + a.size < base.toNat

/-- What stays true until the function returns, of a machine with the slots from the function's
frame on: the record is there, and all frames are the function's or above it. -/
structure Holds (ctx : Context) (m : Machine ω) : Prop where
  current : a.Inside m.inst.frame m.inst.function
  record : m.stack[a.size]? = some (.record a.record)
  callers : ∀ k r, a.size < k → m.stack[k]? = some (.record r) →
    a.Inside r.callerFrame r.callerFunction
  room : a.floor ctx + m.stack.size ≤ ctx.config.stackCapacity

/-- The machine after the function itself returned: nothing is left of it but its result. -/
def back (v : Int32) (m : Machine ω) : Machine ω :=
  { m with
    inst := { m.inst with
      pc := a.record.returnPc
      frame := a.record.callerFrame
      function := a.record.callerFunction }
    stack := if a.record.discardResult then #[] else #[.value v] }

namespace Holds

variable {a : Activation} {ctx : Context} {m m' : Machine ω}

theorem size_lt (h : a.Holds ctx m) : a.size < m.stack.size := by
  obtain ⟨hlt, -⟩ := Array.getElem?_eq_some_iff.mp h.record
  exact hlt

/-- Variables are in a frame at or above the function's own. -/
theorem frame (h : a.Holds ctx m) :
    ∃ base, m.inst.frame = .stack base ∧ a.base.toNat ≤ base.toNat := by
  rcases h.current with ⟨hframe, -⟩ | ⟨base, hframe, hlt⟩
  · exact ⟨a.base, hframe, Nat.le_refl _⟩
  · exact ⟨base, hframe, by omega⟩

/-- Neither the slots nor the frame change. -/
theorem congr (h : a.Holds ctx m) (hstack : m'.stack = m.stack)
    (hframe : m'.inst.frame = m.inst.frame) (hfunction : m'.inst.function = m.inst.function) :
    a.Holds ctx m' where
  current := by rw [hframe, hfunction]; exact h.current
  record := by rw [hstack]; exact h.record
  callers := by rw [hstack]; exact h.callers
  room := by rw [hstack]; exact h.room

theorem enter (h : a.Holds ctx m) {frame : Frame} {function : Option UInt32} (pc : UInt32)
    (hinside : a.Inside frame function) : a.Holds ctx
      { m with inst := { m.inst with frame := frame, function := function, pc := pc } } :=
  { h with current := hinside }

theorem push (h : a.Holds ctx m) {s : Slot}
    (hs : ∀ r, s = .record r → a.Inside r.callerFrame r.callerFunction)
    (hroom : a.floor ctx + m.stack.size < ctx.config.stackCapacity) :
    a.Holds ctx { m with stack := m.stack.push s } where
  current := h.current
  record := by
    have hlt := h.size_lt
    show (m.stack.push s)[a.size]? = _
    rw [Array.getElem?_push, if_neg (by omega)]
    exact h.record
  callers k r hk hr := by
    change (m.stack.push s)[k]? = _ at hr
    rw [Array.getElem?_push] at hr
    split at hr
    · exact hs r (Option.some.inj hr)
    · exact h.callers k r hk hr
  room := by
    show a.floor ctx + (m.stack.push s).size ≤ _
    rw [Array.size_push]
    omega

/-- The slots above the record can go. -/
theorem shrink (h : a.Holds ctx m) {n : Nat} (hn : a.size < n) :
    a.Holds ctx { m with stack := m.stack.shrink n } where
  current := h.current
  record := by
    show (m.stack.shrink n)[a.size]? = _
    rw [← Array.getElem?_toList, Array.toList_shrink, List.getElem?_take_of_lt hn,
      Array.getElem?_toList]
    exact h.record
  callers k r hk hr := by
    change (m.stack.shrink n)[k]? = _ at hr
    rw [← Array.getElem?_toList, Array.toList_shrink, List.getElem?_take] at hr
    split at hr
    · exact h.callers k r hk (by rwa [← Array.getElem?_toList])
    · cases hr
  room := by
    have hroom := h.room
    show a.floor ctx + (m.stack.shrink n).size ≤ _
    rw [Array.size_shrink]
    omega

/-- Values can be overwritten. -/
theorem overwrite (h : a.Holds ctx m) {k : Nat} {w : Int32} (v : Int32)
    (hk : m.stack[k]? = some (.value w)) :
    a.Holds ctx { m with stack := m.stack.setIfInBounds k (.value v) } where
  current := h.current
  record := by
    have hne : k ≠ a.size := by
      rintro rfl
      rw [h.record] at hk
      cases hk
    show (m.stack.setIfInBounds k _)[a.size]? = _
    rw [Array.getElem?_setIfInBounds_ne hne]
    exact h.record
  callers j r hj hr := by
    change (m.stack.setIfInBounds k _)[j]? = _ at hr
    by_cases hne : k = j
    · subst hne
      obtain ⟨hlt, -⟩ := Array.getElem?_eq_some_iff.mp hk
      rw [Array.getElem?_setIfInBounds_self_of_lt hlt] at hr
      cases hr
    · rw [Array.getElem?_setIfInBounds_ne hne] at hr
      exact h.callers j r hj hr
  room := by
    show a.floor ctx + (m.stack.setIfInBounds k _).size ≤ _
    rw [Array.size_setIfInBounds]
    exact h.room

end Holds

end Activation

/-! ## What lies under a frame -/

namespace Machine

variable {ω : Type} {m : Machine ω} {lower : Array Slot} {n : Nat}

theorem on_size (h : lower.size = n) : (m.on lower).stack.size = n + m.stack.size := by
  rw [on, Array.size_append, h]

/-- Slots from the frame on. -/
theorem on_getElem? (h : lower.size = n) (k : Nat) : (m.on lower).stack[n + k]? = m.stack[k]? := by
  rw [on, Array.getElem?_append_right (by omega), h, Nat.add_sub_cancel_left]

theorem on_push (s : Slot) : ({ m.on lower with stack := (m.on lower).stack.push s } : Machine ω) =
    ({ m with stack := m.stack.push s } : Machine ω).on lower := by
  simp [on]

theorem on_shrink (h : lower.size = n) (k : Nat) :
    ({ m.on lower with stack := (m.on lower).stack.shrink (n + k) } : Machine ω) =
      ({ m with stack := m.stack.shrink k } : Machine ω).on lower := by
  have hstack : (lower ++ m.stack).shrink (n + k) = lower ++ m.stack.shrink k := by
    apply Array.toList_inj.mp
    rw [Array.toList_shrink, Array.toList_append, Array.toList_append, Array.toList_shrink, ← h,
      ← Array.length_toList, List.take_length_add_append]
  rw [on, hstack]
  rfl

theorem on_pop (h : m.stack ≠ #[]) :
    ({ m.on lower with stack := (m.on lower).stack.pop } : Machine ω) =
      ({ m with stack := m.stack.pop } : Machine ω).on lower := by
  have hstack : (lower ++ m.stack).pop = lower ++ m.stack.pop := Array.pop_append_of_ne_empty h
  rw [on, hstack]
  rfl

theorem on_set (h : lower.size = n) (k : Nat) (s : Slot) :
    ({ m.on lower with stack := (m.on lower).stack.setIfInBounds (n + k) s } : Machine ω) =
      ({ m with stack := m.stack.setIfInBounds k s } : Machine ω).on lower := by
  have hstack : (lower ++ m.stack).setIfInBounds (n + k) s =
      lower ++ m.stack.setIfInBounds k s := by
    rw [Array.setIfInBounds_append_right (by omega), h, Nat.add_sub_cancel_left]
  rw [on, hstack]
  rfl

end Machine

namespace Exec

variable {ω α β : Type}

/-- The computation faults whatever lies under the frame. Which fault it is and which slots are
left may depend on that, but nothing else does. -/
def FaultsAt (ctx : Context) (a : Activation) (x : Exec ω α) (m : Machine ω) : Prop :=
  ∃ m' : Machine ω, ∀ lower, lower.size = a.floor ctx →
    ∃ f slots, x ctx (m.on lower) = .error f { m' with stack := slots }

/-- The computation does the same whatever lies under the frame, leaves that there and what stays
true as well; or it faults. -/
def SecludedAt (ctx : Context) (a : Activation) (x : Exec ω α) (m : Machine ω) : Prop :=
  (∃ v m', a.Holds ctx m' ∧
    ∀ lower, lower.size = a.floor ctx → x ctx (m.on lower) = .ok v (m'.on lower)) ∨
  FaultsAt ctx a x m

def Secluded (ctx : Context) (a : Activation) (x : Exec ω α) : Prop :=
  ∀ m, a.Holds ctx m → SecludedAt ctx a x m

variable {ctx : Context} {a : Activation} {m : Machine ω}

/-! ## Sequences -/

/-- A fault before anything was done. -/
theorem faultsAt_of_error {x : Exec ω α} (h : ∀ lower, lower.size = a.floor ctx →
    ∃ f, x ctx (m.on lower) = .error f (m.on lower)) : FaultsAt ctx a x m :=
  ⟨m, fun lower hlower => (h lower hlower).imp fun _ hf => ⟨_, hf⟩⟩

theorem secludedAt_of_eq {x y : Exec ω α}
    (h : ∀ lower, lower.size = a.floor ctx → x ctx (m.on lower) = y ctx (m.on lower))
    (hy : SecludedAt ctx a y m) : SecludedAt ctx a x m := by
  rcases hy with ⟨v, m', hm', hrun⟩ | ⟨m', hfault⟩
  · exact .inl ⟨v, m', hm', fun lower hlower => (h lower hlower).trans (hrun lower hlower)⟩
  · exact .inr ⟨m', fun lower hlower => h lower hlower ▸ hfault lower hlower⟩

theorem secludedAt_bind_of_ok {x : Exec ω α} {k : α → Exec ω β} {v : α} {m' : Machine ω}
    (hx : ∀ lower, lower.size = a.floor ctx → x ctx (m.on lower) = .ok v (m'.on lower))
    (hk : SecludedAt ctx a (k v) m') : SecludedAt ctx a (x >>= k) m := by
  rcases hk with ⟨w, m₂, hm₂, hrun⟩ | ⟨m₂, hfault⟩
  · exact .inl ⟨w, m₂, hm₂, fun lower hlower =>
      (bind_ok (hx lower hlower) k).trans (hrun lower hlower)⟩
  · exact .inr ⟨m₂, fun lower hlower => bind_ok (hx lower hlower) k ▸ hfault lower hlower⟩

theorem secludedAt_bind_of_fault {x : Exec ω α} (hx : FaultsAt ctx a x m) (k : α → Exec ω β) :
    SecludedAt ctx a (x >>= k) m := by
  obtain ⟨m', hfault⟩ := hx
  refine .inr ⟨m', fun lower hlower => ?_⟩
  obtain ⟨f, slots, hrun⟩ := hfault lower hlower
  exact ⟨f, slots, bind_error hrun k⟩

theorem secludedAt_bind {x : Exec ω α} {k : α → Exec ω β} (hx : SecludedAt ctx a x m)
    (hk : ∀ v, Secluded ctx a (k v)) : SecludedAt ctx a (x >>= k) m := by
  rcases hx with ⟨v, m', hm', hrun⟩ | hfault
  · exact secludedAt_bind_of_ok hrun (hk v m' hm')
  · exact secludedAt_bind_of_fault hfault k

@[simp] theorem secluded_bind {x : Exec ω α} {k : α → Exec ω β} (hx : Secluded ctx a x)
    (hk : ∀ v, Secluded ctx a (k v)) : Secluded ctx a (x >>= k) :=
  fun m hm => secludedAt_bind (hx m hm) hk

@[simp] theorem secluded_pure (v : α) : Secluded (ω := ω) ctx a (pure v) :=
  fun m hm => .inl ⟨v, m, hm, fun _ _ => rfl⟩

theorem secludedAt_throw (f : Fault) : SecludedAt (α := α) ctx a (throw f) m :=
  .inr (faultsAt_of_error fun _ _ => ⟨f, rfl⟩)

theorem secludedAt_throw_bind (f : Fault) (k : α → Exec ω β) :
    SecludedAt ctx a (throw f >>= k) m := .inr (faultsAt_of_error fun _ _ => ⟨f, rfl⟩)

@[simp] theorem secluded_map {x : Exec ω α} (f : α → β) (hx : Secluded ctx a x) :
    Secluded ctx a (f <$> x) := by
  rw [map_eq_pure_bind]
  exact secluded_bind hx fun v => secluded_pure _

/-! ## The instance, the memory and the host -/

/-- A computation that neither looks at the stack nor at the frame. -/
theorem secluded_of_aside {x : Exec ω α} (value : Machine ω → α) (change : Machine ω → Machine ω)
    (hrun : ∀ m lower, x ctx (m.on lower) = .ok (value m) ((change m).on lower))
    (hkept : ∀ m, (change m).stack = m.stack ∧ (change m).inst.frame = m.inst.frame ∧
      (change m).inst.function = m.inst.function) : Secluded ctx a x :=
  fun m hm => .inl ⟨value m, change m, hm.congr (hkept m).1 (hkept m).2.1 (hkept m).2.2,
    fun lower _ => hrun m lower⟩

/-- A computation that only looks at something. -/
theorem secluded_observe (value : Machine ω → α)
    (hvalue : ∀ m lower, value (m.on lower) = value m) :
    Secluded ctx a (fun _ m => .ok (value m) m) :=
  secluded_of_aside value id
    (fun m lower => congrArg (EStateM.Result.ok · _) (hvalue m lower)) fun _ => ⟨rfl, rfl, rfl⟩

@[simp] theorem secluded_read : Secluded (ω := ω) ctx a read :=
  secluded_observe (fun _ => ctx) fun _ _ => rfl

@[simp] theorem secluded_getInst : Secluded (ω := ω) ctx a getInst :=
  secluded_observe (·.inst) fun _ _ => rfl

theorem secluded_modifyInst {f : Instance → Instance}
    (hf : ∀ i, (f i).frame = i.frame ∧ (f i).function = i.function) :
    Secluded (ω := ω) ctx a (modifyInst f) :=
  secluded_of_aside (fun _ => ()) (fun m => { m with inst := f m.inst }) (fun _ _ => rfl)
    fun m => ⟨rfl, hf m.inst⟩

@[simp] theorem secluded_setStatus (s : Status) : Secluded (ω := ω) ctx a (setStatus s) :=
  secluded_modifyInst fun _ => ⟨rfl, rfl⟩

@[simp] theorem secluded_setHudMark (mark : Option UInt32) :
    Secluded (ω := ω) ctx a (modifyInst ({ · with hudMark := mark })) :=
  secluded_modifyInst fun _ => ⟨rfl, rfl⟩

@[simp] theorem secluded_jump (pc : UInt32) : Secluded (ω := ω) ctx a (jump pc) :=
  secluded_modifyInst fun _ => ⟨rfl, rfl⟩

@[simp] theorem secluded_append (s : String) : Secluded (ω := ω) ctx a (append s) :=
  secluded_of_aside (fun _ => ())
    (fun m => { m with inst := { m.inst with print := m.inst.print ++ s } }) (fun _ _ => rfl)
    fun _ => ⟨rfl, rfl, rfl⟩

@[simp] theorem secluded_takePrint : Secluded (ω := ω) ctx a takePrint :=
  secluded_of_aside (·.inst.print) (fun m => { m with inst := { m.inst with print := "" } })
    (fun _ _ => rfl) fun _ => ⟨rfl, rfl, rfl⟩

@[simp] theorem secluded_note (d : Diagnostic) : Secluded (ω := ω) ctx a (note d) :=
  secluded_of_aside (fun _ => ()) (fun m => { m with journal := m.journal.note d })
    (fun _ _ => rfl) fun _ => ⟨rfl, rfl, rfl⟩

@[simp] theorem secluded_raise (r : Request) : Secluded (ω := ω) ctx a (raise r) :=
  secluded_of_aside (fun _ => ()) (fun m => { m with requests := m.requests.push r })
    (fun _ _ => rfl) fun _ => ⟨rfl, rfl, rfl⟩

@[simp] theorem secluded_loadElement (scope : ArrayScope) (slot : UInt32) (element : Int32) :
    Secluded (ω := ω) ctx a (loadElement scope slot element) := by
  cases scope with
  | map => exact secluded_observe _ fun _ _ => rfl
  | world => exact secluded_observe _ fun _ _ => rfl
  | global => exact secluded_observe _ fun _ _ => rfl

@[simp] theorem secluded_storeElement (scope : ArrayScope) (slot : UInt32) (element v : Int32) :
    Secluded (ω := ω) ctx a (storeElement scope slot element v) := by
  cases scope with
  | map =>
    intro m hm
    cases hvar : m.memory.var? slot.toNat with
    | none =>
      refine .inl ⟨(), m, hm, fun lower _ => ?_⟩
      dsimp only [storeElement, Machine.on]
      rw [hvar]
    | some array =>
      refine .inl ⟨(), { m with memory := m.memory.setElement array element v },
        hm.congr rfl rfl rfl, fun lower _ => ?_⟩
      dsimp only [storeElement, Machine.on]
      rw [hvar]
  | world =>
    exact secluded_of_aside (fun _ => ())
      (fun m => { m with session := m.session.setWorldElement slot.toNat element v })
      (fun _ _ => rfl) fun _ => ⟨rfl, rfl, rfl⟩
  | global =>
    exact secluded_of_aside (fun _ => ())
      (fun m => { m with session := m.session.setGlobalElement slot.toNat element v })
      (fun _ _ => rfl) fun _ => ⟨rfl, rfl, rfl⟩

/-! ## The operand stack -/

theorem secludedAt_pushSlot (hm : a.Holds ctx m) {s : Slot}
    (hs : ∀ r, s = .record r → a.Inside r.callerFrame r.callerFunction) :
    SecludedAt ctx a (pushSlot s) m := by
  by_cases hroom : a.floor ctx + m.stack.size < ctx.config.stackCapacity
  · refine .inl ⟨(), _, hm.push hs hroom, fun lower hlower => ?_⟩
    rw [pushSlot, if_pos (by rwa [Machine.on_size hlower]), Machine.on_push]
  · exact .inr (faultsAt_of_error fun lower hlower =>
      ⟨_, if_neg (by rwa [Machine.on_size hlower])⟩)

@[simp] theorem secluded_push (v : Int32) : Secluded (ω := ω) ctx a (push v) :=
  fun _ hm => secludedAt_pushSlot hm nofun

/-- The topmost slot is at or above the record. -/
theorem back?_on (hm : a.Holds ctx m) (lower : Array Slot) :
    (m.on lower).stack.back? = m.stack.back? ∧ ∃ s, m.stack.back? = some s := by
  have hlt := hm.size_lt
  obtain ⟨s, hs⟩ : ∃ s, m.stack.back? = some s := by
    rw [Array.back?, Array.getElem?_eq_getElem (by omega)]
    exact ⟨_, rfl⟩
  exact ⟨by rw [Machine.on, Array.back?_append, hs]; rfl, s, hs⟩

/-- A pop stops at the record. -/
theorem pop_on (hm : a.Holds ctx m) :
    (∃ v, a.Holds ctx { m with stack := m.stack.pop } ∧
      ∀ lower, lower.size = a.floor ctx →
        pop ctx (m.on lower) = .ok v (({ m with stack := m.stack.pop } : Machine ω).on lower)) ∨
    FaultsAt ctx a pop m := by
  have hlt := hm.size_lt
  have hne : m.stack ≠ #[] := by
    intro hempty
    rw [hempty] at hlt
    exact absurd hlt (by simp)
  have hown (lower : Array Slot) (hlower : lower.size = a.floor ctx) :
      ¬ (m.on lower).stack.size ≤ ctx.base := by
    rw [Machine.on_size hlower, Activation.floor]
    omega
  obtain ⟨s, hs⟩ := (back?_on hm #[]).2
  cases s with
  | record r =>
    refine .inr ⟨m, fun lower hlower => ?_⟩
    rw [pop, if_neg (hown lower hlower), (back?_on hm lower).1, hs]
    exact ⟨_, _, rfl⟩
  | value v =>
    -- The topmost slot is a value, so it is above the record.
    have habove : a.size < m.stack.size - 1 := by
      rw [Array.back?] at hs
      rcases Nat.lt_or_ge a.size (m.stack.size - 1) with h | h
      · exact h
      · rw [show m.stack.size - 1 = a.size by omega, hm.record] at hs
        cases hs
    have hshrink : m.stack.pop = m.stack.shrink (m.stack.size - 1) := by
      apply Array.toList_inj.mp
      rw [Array.toList_pop, Array.toList_shrink, List.dropLast_eq_take, Array.length_toList]
    refine .inl ⟨v, hshrink ▸ hm.shrink habove, fun lower hlower => ?_⟩
    rw [pop, if_neg (hown lower hlower), (back?_on hm lower).1, hs]
    exact congrArg _ (Machine.on_pop hne)

@[simp] theorem secluded_pop : Secluded (ω := ω) ctx a pop := by
  intro m hm
  rcases pop_on hm with ⟨v, hm', hrun⟩ | hfault
  · exact .inl ⟨v, _, hm', hrun⟩
  · exact .inr hfault

/-- A slot of the frame or above it. -/
theorem secluded_valueAt (k : Nat) : Secluded (ω := ω) ctx a (valueAt (a.floor ctx + k)) := by
  intro m hm
  have hslot (lower : Array Slot) (hlower : lower.size = a.floor ctx) :=
    Machine.on_getElem? (m := m) hlower k
  rcases hk : m.stack[k]? with _ | v | r
  · exact .inr (faultsAt_of_error fun lower hlower =>
      ⟨_, by rw [valueAt, hslot lower hlower, hk]⟩)
  · exact .inl ⟨v, m, hm, fun lower hlower => by rw [valueAt, hslot lower hlower, hk]⟩
  · exact .inr (faultsAt_of_error fun lower hlower =>
      ⟨_, by rw [valueAt, hslot lower hlower, hk]⟩)

theorem secluded_setValueAt (k : Nat) (v : Int32) :
    Secluded (ω := ω) ctx a (setValueAt (a.floor ctx + k) v) := by
  intro m hm
  rcases hk : m.stack[k]? with _ | w | r
  · exact .inr (faultsAt_of_error fun lower hlower =>
      ⟨_, by rw [setValueAt, Machine.on_getElem? hlower, hk]⟩)
  · refine .inl ⟨(), _, hm.overwrite v hk, fun lower hlower => ?_⟩
    rw [setValueAt, Machine.on_getElem? hlower, hk]
    exact congrArg _ (Machine.on_set hlower k (.value v))
  · exact .inr (faultsAt_of_error fun lower hlower =>
      ⟨_, by rw [setValueAt, Machine.on_getElem? hlower, hk]⟩)

@[simp] theorem secluded_peek : Secluded (ω := ω) ctx a peek := by
  intro m hm
  have hlt := hm.size_lt
  refine secludedAt_of_eq (y := valueAt (a.floor ctx + (m.stack.size - 1))) (fun lower hlower => ?_)
    (secluded_valueAt _ m hm)
  have hsize := Machine.on_size (m := m) hlower
  rw [peek, if_neg (by rw [hsize, Activation.floor]; omega), hsize,
    show a.floor ctx + m.stack.size - 1 = a.floor ctx + (m.stack.size - 1) by omega]

/-- How many slots the instance has. -/
theorem secludedAt_depth_bind {k : Nat → Exec ω β}
    (hk : SecludedAt ctx a (k (a.base.toNat + m.stack.size)) m) :
    SecludedAt ctx a (depth >>= k) m := by
  refine secludedAt_of_eq (fun lower hlower => ?_) hk
  show k ((m.on lower).stack.size - ctx.base) ctx (m.on lower) = _
  rw [Machine.on_size hlower, Activation.floor]
  congr 1
  omega

@[simp] theorem secluded_depth : Secluded (ω := ω) ctx a depth :=
  fun m hm => secludedAt_depth_bind (k := pure) (secluded_pure _ m hm)

theorem secludedAt_truncate (hm : a.Holds ctx m) {d : Nat} (hd : a.base.toNat + a.size < d) :
    SecludedAt ctx a (truncate d) m := by
  refine .inl ⟨(), _, hm.shrink (n := d - a.base.toNat) (by omega), fun lower hlower => ?_⟩
  have hshrink := Machine.on_shrink (m := m) hlower (d - a.base.toNat)
  rw [truncate, ← hshrink, Activation.floor,
    show ctx.base + a.base.toNat + (d - a.base.toNat) = ctx.base + d by omega]

@[simp] theorem secluded_pushZeros (n : Nat) : Secluded (ω := ω) ctx a (pushZeros n) := by
  induction n with
  | zero => exact secluded_pure _
  | succ n ih => exact secluded_bind (secluded_push 0) fun _ => ih

/-! ## Variables -/

theorem secludedAt_read_bind {k : Context → Exec ω β} (hk : SecludedAt ctx a (k ctx) m) :
    SecludedAt ctx a (read >>= k) m :=
  secludedAt_of_eq (fun _ _ => rfl) hk

theorem secludedAt_getInst_bind {k : Instance → Exec ω β} (hk : SecludedAt ctx a (k m.inst) m) :
    SecludedAt ctx a (getInst >>= k) m :=
  secludedAt_of_eq (fun _ _ => rfl) hk

theorem frameSlot_of_none (h : m.inst.function.bind ctx.program.function? = none)
    (base index : UInt32) : frameSlot base index ctx m = .error (.badFrame ctx.base) m := by
  refine (bind_ok (x := read) rfl _).trans ((bind_ok (x := currentFunction) rfl _).trans ?_)
  rw [h]
  rfl

theorem frameSlot_of_some {f : Function} (h : m.inst.function.bind ctx.program.function? = some f)
    (base index : UInt32) : frameSlot base index ctx m =
      .ok (if index.toNat < f.frameSize then some (ctx.base + base.toNat + index.toNat)
        else none) m := by
  refine (bind_ok (x := read) rfl _).trans ((bind_ok (x := currentFunction) rfl _).trans ?_)
  rw [h]
  dsimp only
  split <;> rfl

/-- Going on with a slot of the current frame, if it has the variable. -/
theorem secludedAt_frameSlot_bind {base index : UInt32} {k : Option Nat → Exec ω β}
    (hm : a.Holds ctx m) (hbase : a.base.toNat ≤ base.toNat) (hnone : Secluded ctx a (k none))
    (hsome : ∀ j, Secluded ctx a (k (some (a.floor ctx + j)))) :
    SecludedAt ctx a (frameSlot base index >>= k) m := by
  have hslot : ctx.base + base.toNat + index.toNat =
      a.floor ctx + (base.toNat - a.base.toNat + index.toNat) := by
    rw [Activation.floor]
    omega
  cases hf : m.inst.function.bind ctx.program.function? with
  | none =>
    exact .inr (faultsAt_of_error fun lower _ =>
      ⟨_, bind_error (frameSlot_of_none (m := m.on lower) hf base index) k⟩)
  | some f =>
    refine secludedAt_of_eq
      (fun lower _ => bind_ok (frameSlot_of_some (m := m.on lower) hf base index) k) ?_
    rw [hslot]
    split
    · exact hsome _ m hm
    · exact hnone m hm

@[simp] theorem secluded_readVar (scope : Scope) (index : UInt32) :
    Secluded (ω := ω) ctx a (readVar scope index) := by
  cases scope with
  | script =>
    intro m hm
    obtain ⟨base, hframe, hbase⟩ := hm.frame
    refine secludedAt_getInst_bind ?_
    rw [hframe]
    exact secludedAt_frameSlot_bind hm hbase (secluded_pure _) fun j =>
      secluded_bind (secluded_valueAt j) fun _ => secluded_pure _
  | map => exact secluded_observe _ fun _ _ => rfl
  | world => exact secluded_observe _ fun _ _ => rfl
  | global => exact secluded_observe _ fun _ _ => rfl

@[simp] theorem secluded_writeVar (scope : Scope) (index : UInt32) (v : Int32) :
    Secluded (ω := ω) ctx a (writeVar scope index v) := by
  cases scope with
  | script =>
    intro m hm
    obtain ⟨base, hframe, hbase⟩ := hm.frame
    refine secludedAt_getInst_bind ?_
    rw [hframe]
    exact secludedAt_frameSlot_bind hm hbase (secluded_pure _) fun j =>
      secluded_bind (secluded_setValueAt j v) fun _ => secluded_pure _
  | map =>
    exact secluded_of_aside (fun _ => decide (index.toNat < mapVarCount))
      (fun m => { m with memory := m.memory.setVar index.toNat v }) (fun _ _ => rfl)
      fun _ => ⟨rfl, rfl, rfl⟩
  | world =>
    exact secluded_of_aside (fun _ => decide (index.toNat < worldCount))
      (fun m => { m with session := m.session.setWorldVar index.toNat v }) (fun _ _ => rfl)
      fun _ => ⟨rfl, rfl, rfl⟩
  | global =>
    exact secluded_of_aside (fun _ => decide (index.toNat < globalCount))
      (fun m => { m with session := m.session.setGlobalVar index.toNat v }) (fun _ _ => rfl)
      fun _ => ⟨rfl, rfl, rfl⟩

/-! ## Jumps and waits -/

@[simp] theorem secluded_branch (whenTrue : Bool) (target : UInt32) :
    Secluded (ω := ω) ctx a (branch whenTrue target) := by
  refine secluded_bind secluded_pop fun v => ?_
  split <;> simp

@[simp] theorem secluded_caseGoto (value : Int32) (target : UInt32) :
    Secluded (ω := ω) ctx a (caseGoto value target) := by
  refine secluded_bind secluded_peek fun v => ?_
  split <;> simp

@[simp] theorem secluded_caseGotoFrom (operands : Array Int32) :
    Secluded (ω := ω) ctx a (caseGotoFrom operands) := by
  refine secluded_bind secluded_peek fun v => ?_
  split <;> simp

@[simp] theorem secluded_text (index : Int32) : Secluded (ω := ω) ctx a (text index) := by
  refine secluded_bind secluded_read fun ctx' => ?_
  split <;> simp

@[simp] theorem secluded_pushTextLength : Secluded (ω := ω) ctx a pushTextLength := by
  refine secluded_bind secluded_read fun ctx' => secluded_bind secluded_pop fun index => ?_
  split <;> simp

/-! ## The host -/

variable [Host ω]

@[simp] theorem secluded_ask (c : Call) : Secluded (ω := ω) ctx a (ask c) :=
  secluded_of_aside (fun m => (Host.answer c m.world).1) (·.asked c) (fun _ _ => rfl)
    fun _ => ⟨rfl, rfl, rfl⟩

@[simp] theorem secluded_perform (e : Effect) : Secluded (ω := ω) ctx a (perform e) :=
  secluded_bind (secluded_ask _) fun _ => secluded_bind (secluded_ask _) fun _ => secluded_pure _

/-- Of an instruction that does not jump, every part leaves what is under the frame alone. -/
theorem secluded_parts (ctx : Context) (a : Activation) :
    Parts fun (α : Type) (x _ : Exec ω α) => Secluded ctx a x where
  pure := secluded_pure
  bind := secluded_bind
  inst h := secluded_bind secluded_getInst fun i => h i i.pc i.entry i.segment
  setStatus _ := secluded_setStatus _
  setResult _ := secluded_modifyInst fun _ => ⟨rfl, rfl⟩
  clearPrint := secluded_modifyInst fun _ => ⟨rfl, rfl⟩
  setHudMark := secluded_setHudMark
  append := secluded_append
  takePrint := secluded_takePrint
  raise := secluded_raise
  outOfRange _ _ _ := secluded_note _
  push := secluded_push
  pop := secluded_pop
  peek := secluded_peek
  depth := secluded_depth
  readVar := secluded_readVar
  writeVar := secluded_writeVar
  loadElement := secluded_loadElement
  storeElement := secluded_storeElement
  text := secluded_text
  pushTextLength := secluded_pushTextLength
  ask _ := secluded_ask _
  perform := secluded_perform

/-! ## Screen messages -/

omit [Host ω] in
/-- Values are read up to the record at most. -/
theorem valuesFrom_record {slot count k : Nat} {r : ReturnRecord} (hslot : slot ≤ k)
    (hk : k < slot + count) (hrecord : m.stack[k]? = some (.record r)) :
    ∃ f, valuesFrom slot count ctx m = .error f m := by
  induction count generalizing slot with
  | zero => omega
  | succ count ih =>
    rw [valuesFrom]
    rcases hvalue : m.stack[slot]? with _ | v | r'
    · exact ⟨.badFrame slot, bind_error (by rw [valueAt, hvalue]) _⟩
    · have hrun : valueAt slot ctx m = .ok v m := by rw [valueAt, hvalue]
      have hne : slot ≠ k := by
        rintro rfl
        rw [hrecord] at hvalue
        cases hvalue
      obtain ⟨f, hf⟩ := ih (by omega : slot + 1 ≤ k) (by omega)
      exact ⟨f, by rw [bind_ok hrun]; exact bind_error hf _⟩
    · exact ⟨.badFrame slot, bind_error (by rw [valueAt, hvalue]) _⟩

omit [Host ω] in
theorem secluded_valuesFrom (k count : Nat) :
    Secluded (ω := ω) ctx a (valuesFrom (a.floor ctx + k) count) := by
  induction count generalizing k with
  | zero => exact secluded_pure _
  | succ count ih =>
    exact secluded_bind (secluded_valueAt k) fun _ => secluded_bind (ih (k + 1)) fun _ =>
      secluded_pure _

/-- A mark at or under the record is of no use: the message would have the record for a number. -/
theorem secluded_hudMessage (bold : Bool) {depth : Nat} (hdepth : a.base.toNat + a.size < depth)
    (mark : Nat) : Secluded (ω := ω) ctx a (do
      if mark < 6 then
        throw .stackUnderflow
      let extra ← valuesFrom (ctx.base + mark) (depth - mark)
      truncate mark
      let v ← popMany 6
      let target ← printTarget bold
      let text ← takePrint
      act (.hudMessage target
        ⟨text, v.nth 0, v.nth 1, v.nth 2, v.nth 3, v.nth 4, v.nth 5, extra, bold⟩)) := by
  intro m hm
  dsimp only
  split
  · exact secludedAt_throw_bind _ _
  · by_cases hmark : mark ≤ a.base.toNat + a.size
    · refine .inr (faultsAt_of_error fun lower hlower => ?_)
      have hle : ctx.base + mark ≤ a.floor ctx + a.size := by
        rw [Activation.floor]
        omega
      have hlt : a.floor ctx + a.size < ctx.base + mark + (depth - mark) := by
        rw [Activation.floor]
        omega
      obtain ⟨f, hf⟩ : ∃ f, valuesFrom (ctx.base + mark) (depth - mark) ctx (m.on lower) =
          .error f (m.on lower) :=
        valuesFrom_record hle hlt ((Machine.on_getElem? hlower a.size).trans hm.record)
      exact ⟨f, bind_error hf _⟩
    · have hslot : ctx.base + mark = a.floor ctx + (mark - a.base.toNat) := by
        rw [Activation.floor]
        omega
      rw [hslot]
      refine secluded_bind (secluded_valuesFrom _ _) (fun extra => ?_) m hm
      refine secluded_bind (fun m hm => secludedAt_truncate hm (by omega)) fun _ => ?_
      refine secluded_bind ((secluded_parts ctx a).popMany 6) fun _ =>
        secluded_bind ((secluded_parts ctx a).printTarget bold) fun _ => ?_
      exact secluded_bind secluded_takePrint fun _ => (secluded_parts ctx a).act _

@[simp] theorem secluded_endHudMessage (bold : Bool) :
    Secluded (ω := ω) ctx a (endHudMessage bold) := by
  intro m hm
  have hdepth : a.base.toNat + a.size < a.base.toNat + m.stack.size := by
    have hlt := hm.size_lt
    omega
  refine secludedAt_read_bind (secludedAt_depth_bind (secludedAt_getInst_bind ?_))
  exact secludedAt_bind (secluded_setHudMark none m hm) fun _ =>
    secluded_hudMessage bold hdepth _

end Exec

/-- Whether the opcode can leave the frame of the function or enter one. -/
def Opcode.shiftsFrame : Opcode → Bool
  | .restart | .call _ | .returnVoid | .returnVal => true
  | _ => false

namespace Exec

variable {ω : Type} [Host ω] {ctx : Context} {a : Activation} {m : Machine ω}

/-- Every other opcode leaves what is under the frame alone. -/
theorem secluded_executeWith {op : Opcode} (hop : op.shiftsFrame = false)
    (operands : Array Int32) : Secluded (ω := ω) ctx a (executeWith op operands) := by
  cases hjumps : op.jumps with
  | false => exact (secluded_parts ctx a).executeWith secluded_endHudMessage hjumps operands
  | true =>
    cases op with
    | goto => exact secluded_jump _
    | branch whenTrue => exact secluded_branch whenTrue _
    | caseGoto => exact secluded_caseGoto _ _
    | caseGotoSorted => exact secluded_caseGotoFrom operands
    | restart | call _ | returnVoid | returnVal => cases hop
    | _ => cases hjumps

end Exec

end LevelScript
