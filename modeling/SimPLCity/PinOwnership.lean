import SimPLCity.PinRegistry
import Mathlib.Tactic.ByContra

/-! Pins, the interrupt registry and the enabled lines stay consistent. -/

namespace SimPLCity.PinOwnership
open PinRegistry

/-- The number under which an input with an edge is registered. -/
def edgeNumber : Object → Option Nat
  | .input i =>
    if i.configuration.edge = .none then none else some i.configuration.pin.number.toNat
  | .output _ => none

/-- The line is the one of the pin. -/
def LineOk : Object → Prop
  | .input i => i.interrupt = interruptFor i.configuration.pin.number.toNat
  | .output _ => True

structure Inv (s : State) : Prop where
  valid : ∀ id o, s.objects id = some o → PinRegistry.valid o.pin = true
  line : ∀ id o, s.objects id = some o → LineOk o
  unique : ∀ id id' o o', s.objects id = some o → s.objects id' = some o' → o.pin = o'.pin →
    id = id'
  claimed_iff : ∀ n, s.claimed n = true ↔ ∃ id o, s.objects id = some o ∧ pinIndex o.pin = n
  fresh : ∀ id, s.fresh ≤ id → s.objects id = none
  registry_iff : ∀ n id, s.interruptRegistry n = some id ↔
    ∃ o, s.objects id = some o ∧ edgeNumber o = some n
  enabled_iff : ∀ interrupt, s.enabled interrupt = true ↔
    ∃ id o n, s.objects id = some o ∧ edgeNumber o = some n ∧ interruptFor n = interrupt

theorem inv_initial : Inv {} where
  valid _ _ := nofun
  line _ _ := nofun
  unique _ _ _ _ := nofun
  claimed_iff _ := by
    refine ⟨Bool.noConfusion, ?_⟩
    rintro ⟨_, _, h, -⟩
    cases h
  fresh _ _ := rfl
  registry_iff _ _ := by
    refine ⟨nofun, ?_⟩
    rintro ⟨_, h, -⟩
    cases h
  enabled_iff _ := by
    refine ⟨Bool.noConfusion, ?_⟩
    rintro ⟨_, _, _, h, -⟩
    cases h

theorem pinIndex_inj {pin pin' : Pin} (h : valid pin = true) (h' : valid pin' = true)
    (heq : pinIndex pin = pinIndex pin') : pin = pin' := by
  obtain ⟨port, number⟩ := pin
  obtain ⟨port', number'⟩ := pin'
  simp only [valid, Bool.and_eq_true, decide_eq_true_eq] at h h'
  simp only [pinIndex] at heq
  rw [Pin.mk.injEq, ← UInt8.toNat_inj, ← UInt8.toNat_inj]
  omega

theorem edgeNumber_lt {o : Object} {n : Nat} (hvalid : valid o.pin = true)
    (h : edgeNumber o = some n) : n < 16 := by
  cases o with
  | output configuration => cases h
  | input i =>
    simp only [valid, Object.pin, Bool.and_eq_true] at hvalid
    change (if i.configuration.edge = .none then none
      else some i.configuration.pin.number.toNat) = some n at h
    by_cases hedge : i.configuration.edge = .none
    · rw [if_pos hedge] at h
      cases h
    · rw [if_neg hedge] at h
      exact Option.some.inj h ▸ of_decide_eq_true hvalid.2

/-- What is registered for an object, in place of what was. -/
def entries (registry : Nat → Option ObjectId) (o : Object) (entry : Option ObjectId) :
    Nat → Option ObjectId :=
  match edgeNumber o with
  | some n => Function.update registry n entry
  | none => registry

def lines (enabled : Interrupt → Bool) (o : Object) (on : Bool) : Interrupt → Bool :=
  match edgeNumber o with
  | some n => Function.update enabled (interruptFor n) on
  | none => enabled

section
variable {s s' : State} {o : Object} {id : ObjectId}

/-- The state with a new object in it. -/
structure Added (s s' : State) (o : Object) : Prop where
  objects : s'.objects = Function.update s.objects s.fresh (some o)
  fresh : s'.fresh = s.fresh + 1
  claimed : s'.claimed = Function.update s.claimed (pinIndex o.pin) true
  registry : s'.interruptRegistry = entries s.interruptRegistry o (some s.fresh)
  enabled : s'.enabled = lines s.enabled o true

theorem Added.new (ha : Added s s' o) : s'.objects s.fresh = some o := by
  rw [ha.objects, Function.update_self]

theorem Added.old (ha : Added s s' o) (hid : id ≠ s.fresh) : s'.objects id = s.objects id := by
  rw [ha.objects, Function.update_of_ne hid]

theorem Inv.ne_fresh (h : Inv s) (ho : s.objects id = some o) : id ≠ s.fresh := by
  rintro rfl
  rw [h.fresh _ (Nat.le_refl _)] at ho
  cases ho

theorem Added.cases {o' : Object} (ha : Added s s' o) (ho' : s'.objects id = some o') :
    id = s.fresh ∧ o' = o ∨ id ≠ s.fresh ∧ s.objects id = some o' := by
  by_cases hid : id = s.fresh
  · rw [hid, ha.new] at ho'
    exact .inl ⟨hid, (Option.some.inj ho').symm⟩
  · rw [ha.old hid] at ho'
    exact .inr ⟨hid, ho'⟩

theorem Added.registry_iff (ha : Added s s' o) (h : Inv s)
    (hfree : ∀ n, edgeNumber o = some n → s.interruptRegistry n = none) (n : Nat) (id : ObjectId) :
    s'.interruptRegistry n = some id ↔ ∃ o', s'.objects id = some o' ∧ edgeNumber o' = some n := by
  rw [ha.registry]
  unfold entries
  have hsame : id ≠ s.fresh → ((∃ o', s'.objects id = some o' ∧ edgeNumber o' = some n) ↔
      s.interruptRegistry n = some id) := fun hid => by rw [ha.old hid, h.registry_iff]
  have hmine : s.interruptRegistry n ≠ some s.fresh := by
    intro hentry
    obtain ⟨o', ho', -⟩ := (h.registry_iff n s.fresh).mp hentry
    exact h.ne_fresh ho' rfl
  by_cases hid : id = s.fresh
  · subst hid
    have hself : (∃ o', s'.objects s.fresh = some o' ∧ edgeNumber o' = some n) ↔
        edgeNumber o = some n := by
      rw [ha.new]
      simp
    rw [hself]
    cases hedge : edgeNumber o with
    | none => exact ⟨fun hentry => absurd hentry hmine, nofun⟩
    | some m =>
      dsimp only
      by_cases hm : n = m
      · rw [hm, Function.update_self]
        exact ⟨fun _ => rfl, fun _ => rfl⟩
      · rw [Function.update_of_ne hm]
        exact ⟨fun hentry => absurd hentry hmine, fun hnm => absurd (Option.some.inj hnm).symm hm⟩
  · rw [hsame hid]
    cases hedge : edgeNumber o with
    | none => exact Iff.rfl
    | some m =>
      dsimp only
      by_cases hm : n = m
      · rw [hm, Function.update_self, hfree m hedge]
        exact ⟨fun heq => absurd (Option.some.inj heq).symm hid, nofun⟩
      · rw [Function.update_of_ne hm]

theorem Added.enabled_iff (ha : Added s s' o) (h : Inv s) (interrupt : Interrupt) :
    s'.enabled interrupt = true ↔ ∃ id o' n, s'.objects id = some o' ∧ edgeNumber o' = some n ∧
      interruptFor n = interrupt := by
  rw [ha.enabled]
  unfold lines
  have hlive : (∃ id o' n, s'.objects id = some o' ∧ edgeNumber o' = some n ∧
      interruptFor n = interrupt) ↔
      (∃ n, edgeNumber o = some n ∧ interruptFor n = interrupt) ∨
        s.enabled interrupt = true := by
    rw [h.enabled_iff]
    constructor
    · rintro ⟨id, o', n, ho', hedge, hn⟩
      rcases ha.cases ho' with ⟨-, rfl⟩ | ⟨-, ho'⟩
      · exact .inl ⟨n, hedge, hn⟩
      · exact .inr ⟨id, o', n, ho', hedge, hn⟩
    · rintro (⟨n, hedge, hn⟩ | ⟨id, o', n, ho', hedge, hn⟩)
      · exact ⟨s.fresh, o, n, ha.new, hedge, hn⟩
      · exact ⟨id, o', n, by rw [ha.old (h.ne_fresh ho')]; exact ho', hedge, hn⟩
  rw [hlive]
  cases hedge : edgeNumber o with
  | none => simp
  | some m =>
    dsimp only
    by_cases hm : interrupt = interruptFor m
    · rw [hm, Function.update_self]
      exact ⟨fun _ => .inl ⟨m, rfl, rfl⟩, fun _ => rfl⟩
    · rw [Function.update_of_ne hm]
      refine ⟨.inr, ?_⟩
      rintro (⟨n, hn, rfl⟩ | hon)
      · exact absurd (by rw [Option.some.inj hn]) hm
      · exact hon

theorem inv_add (h : Inv s) (ha : Added s s' o) (hvalid : valid o.pin = true) (hline : LineOk o)
    (hclaimed : s.claimed (pinIndex o.pin) = false)
    (hfree : ∀ n, edgeNumber o = some n → s.interruptRegistry n = none) : Inv s' := by
  -- the pin is free, so that no object has it
  have hpin : ∀ id o', s.objects id = some o' → o'.pin ≠ o.pin := by
    intro id o' ho' heq
    have hclaimed' := (h.claimed_iff (pinIndex o.pin)).mpr ⟨id, o', ho', by rw [heq]⟩
    rw [hclaimed] at hclaimed'
    cases hclaimed'
  refine ⟨?_, ?_, ?_, ?_, ?_, ha.registry_iff h hfree, ha.enabled_iff h⟩
  · intro id o' ho'
    rcases ha.cases ho' with ⟨-, rfl⟩ | ⟨-, ho'⟩
    · exact hvalid
    · exact h.valid id o' ho'
  · intro id o' ho'
    rcases ha.cases ho' with ⟨-, rfl⟩ | ⟨-, ho'⟩
    · exact hline
    · exact h.line id o' ho'
  · intro id₁ id₂ o₁ o₂ h₁ h₂ heq
    rcases ha.cases h₁ with ⟨rfl, rfl⟩ | ⟨-, h₁⟩
    · rcases ha.cases h₂ with ⟨rfl, -⟩ | ⟨-, h₂⟩
      · rfl
      · exact absurd heq.symm (hpin id₂ o₂ h₂)
    · rcases ha.cases h₂ with ⟨rfl, rfl⟩ | ⟨-, h₂⟩
      · exact absurd heq (hpin id₁ o₁ h₁)
      · exact h.unique id₁ id₂ o₁ o₂ h₁ h₂ heq
  · intro n
    rw [ha.claimed]
    by_cases hn : n = pinIndex o.pin
    · rw [hn, Function.update_self]
      exact ⟨fun _ => ⟨s.fresh, o, ha.new, rfl⟩, fun _ => rfl⟩
    · rw [Function.update_of_ne hn, h.claimed_iff]
      constructor
      · rintro ⟨id, o', ho', rfl⟩
        exact ⟨id, o', by rw [ha.old (h.ne_fresh ho')]; exact ho', rfl⟩
      · rintro ⟨id, o', ho', rfl⟩
        rcases ha.cases ho' with ⟨-, rfl⟩ | ⟨-, ho'⟩
        · exact absurd rfl hn
        · exact ⟨id, o', ho', rfl⟩
  · intro id hid
    rw [ha.fresh] at hid
    rw [ha.old (Nat.ne_of_gt hid)]
    exact h.fresh id (Nat.le_of_succ_le hid)

theorem inv_remove (h : Inv s) (ho : s.objects id = some o)
    (hobjects : s'.objects = Function.update s.objects id none) (hfresh : s'.fresh = s.fresh)
    (hclaimed : s'.claimed = Function.update s.claimed (pinIndex o.pin) false)
    (hregistry : s'.interruptRegistry = entries s.interruptRegistry o none)
    (henabled : ∀ interrupt, s'.enabled interrupt = true ↔ ∃ id' o' n, id' ≠ id ∧
      s.objects id' = some o' ∧ edgeNumber o' = some n ∧ interruptFor n = interrupt) : Inv s' := by
  have hgone : s'.objects id = none := by rw [hobjects, Function.update_self]
  have hold : ∀ id', id' ≠ id → s'.objects id' = s.objects id' := fun id' hid => by
    rw [hobjects, Function.update_of_ne hid]
  have hcases : ∀ id' o', s'.objects id' = some o' ↔ id' ≠ id ∧ s.objects id' = some o' := by
    intro id' o'
    by_cases hid : id' = id
    · rw [hid, hgone]
      exact ⟨nofun, fun hboth => absurd rfl hboth.1⟩
    · rw [hold id' hid]
      exact ⟨fun ho' => ⟨hid, ho'⟩, And.right⟩
  refine ⟨?_, ?_, ?_, ?_, ?_, ?_, ?_⟩
  · intro id' o' ho'
    exact h.valid id' o' ((hcases id' o').mp ho').2
  · intro id' o' ho'
    exact h.line id' o' ((hcases id' o').mp ho').2
  · intro id₁ id₂ o₁ o₂ h₁ h₂
    exact h.unique id₁ id₂ o₁ o₂ ((hcases id₁ o₁).mp h₁).2 ((hcases id₂ o₂).mp h₂).2
  · intro n
    rw [hclaimed]
    by_cases hn : n = pinIndex o.pin
    · rw [hn, Function.update_self]
      refine ⟨nofun, ?_⟩
      rintro ⟨id', o', ho', hindex⟩
      obtain ⟨hid, ho'⟩ := (hcases id' o').mp ho'
      have hpin := pinIndex_inj (h.valid id' o' ho') (h.valid id o ho) hindex
      exact absurd (h.unique id' id o' o ho' ho hpin) hid
    · rw [Function.update_of_ne hn, h.claimed_iff]
      constructor
      · rintro ⟨id', o', ho', rfl⟩
        have hid : id' ≠ id := by
          rintro rfl
          rw [ho] at ho'
          exact hn (by rw [Option.some.inj ho'])
        exact ⟨id', o', (hcases id' o').mpr ⟨hid, ho'⟩, rfl⟩
      · rintro ⟨id', o', ho', rfl⟩
        exact ⟨id', o', ((hcases id' o').mp ho').2, rfl⟩
  · intro id' hid
    rw [hfresh] at hid
    by_contra hsome
    obtain ⟨o', ho'⟩ := Option.ne_none_iff_exists'.mp hsome
    have hlive := ((hcases id' o').mp ho').2
    rw [h.fresh id' hid] at hlive
    cases hlive
  · intro n id'
    have hlive : (∃ o', s'.objects id' = some o' ∧ edgeNumber o' = some n) ↔
        id' ≠ id ∧ s.interruptRegistry n = some id' := by
      rw [h.registry_iff]
      constructor
      · rintro ⟨o', ho', hedge⟩
        obtain ⟨hid, ho'⟩ := (hcases id' o').mp ho'
        exact ⟨hid, o', ho', hedge⟩
      · rintro ⟨hid, o', ho', hedge⟩
        exact ⟨o', (hcases id' o').mpr ⟨hid, ho'⟩, hedge⟩
    rw [hlive, hregistry]
    unfold entries
    -- under the number of the object stands the object itself
    have hmine : s.interruptRegistry n = some id ↔ edgeNumber o = some n := by
      rw [h.registry_iff, ho]
      simp
    cases hedge : edgeNumber o with
    | none =>
      rw [hedge] at hmine
      refine ⟨fun hentry => ⟨?_, hentry⟩, And.right⟩
      rintro rfl
      exact absurd (hmine.mp hentry) nofun
    | some m =>
      dsimp only
      rw [hedge] at hmine
      by_cases hm : n = m
      · subst hm
        rw [Function.update_self, hmine.mpr rfl]
        exact ⟨nofun, fun hboth => absurd (Option.some.inj hboth.2).symm hboth.1⟩
      · rw [Function.update_of_ne hm]
        refine ⟨fun hentry => ⟨?_, hentry⟩, And.right⟩
        rintro rfl
        exact hm (Option.some.inj (hmine.mp hentry)).symm
  · intro interrupt
    rw [henabled]
    constructor
    · rintro ⟨id', o', n, hid, ho', hrest⟩
      exact ⟨id', o', n, (hcases id' o').mpr ⟨hid, ho'⟩, hrest⟩
    · rintro ⟨id', o', n, ho', hrest⟩
      obtain ⟨hid, ho'⟩ := (hcases id' o').mp ho'
      exact ⟨id', o', n, hid, ho', hrest⟩

theorem inv_assign {o' : Object} (h : Inv s) (ho : s.objects id = some o) (hpin : o'.pin = o.pin)
    (hedge : edgeNumber o' = edgeNumber o) (hline : LineOk o') : Inv (s.assign id o') := by
  have hcases : ∀ id₁ o₁, (s.assign id o').objects id₁ = some o₁ →
      ∃ o₂, s.objects id₁ = some o₂ ∧ o₁.pin = o₂.pin ∧ edgeNumber o₁ = edgeNumber o₂ := by
    intro id₁ o₁ h₁
    by_cases hid : id₁ = id
    · subst hid
      rw [show (s.assign id₁ o').objects id₁ = some o' from Function.update_self ..] at h₁
      cases h₁
      exact ⟨o, ho, hpin, hedge⟩
    · rw [show (s.assign id o').objects id₁ = s.objects id₁ from Function.update_of_ne hid ..] at h₁
      exact ⟨o₁, h₁, rfl, rfl⟩
  have hback : ∀ id₁ o₂, s.objects id₁ = some o₂ →
      ∃ o₁, (s.assign id o').objects id₁ = some o₁ ∧ o₁.pin = o₂.pin ∧
        edgeNumber o₁ = edgeNumber o₂ := by
    intro id₁ o₂ h₂
    by_cases hid : id₁ = id
    · subst hid
      rw [ho] at h₂
      cases h₂
      exact ⟨o', Function.update_self .., hpin, hedge⟩
    · exact ⟨o₂, by rw [← h₂]; exact Function.update_of_ne hid .., rfl, rfl⟩
  refine ⟨?_, ?_, ?_, ?_, ?_, ?_, ?_⟩
  · intro id₁ o₁ h₁
    obtain ⟨o₂, h₂, hsame, -⟩ := hcases id₁ o₁ h₁
    rw [hsame]
    exact h.valid id₁ o₂ h₂
  · intro id₁ o₁ h₁
    by_cases hid : id₁ = id
    · subst hid
      rw [show (s.assign id₁ o').objects id₁ = some o' from Function.update_self ..] at h₁
      cases h₁
      exact hline
    · rw [show (s.assign id o').objects id₁ = s.objects id₁ from Function.update_of_ne hid ..] at h₁
      exact h.line id₁ o₁ h₁
  · intro id₁ id₂ o₁ o₂ h₁ h₂ heq
    obtain ⟨o₃, h₃, hsame, -⟩ := hcases id₁ o₁ h₁
    obtain ⟨o₄, h₄, hsame', -⟩ := hcases id₂ o₂ h₂
    exact h.unique id₁ id₂ o₃ o₄ h₃ h₄ (by rw [← hsame, ← hsame', heq])
  · intro n
    rw [show (s.assign id o').claimed = s.claimed from rfl, h.claimed_iff]
    constructor
    · rintro ⟨id₁, o₂, h₂, rfl⟩
      obtain ⟨o₁, h₁, hsame, -⟩ := hback id₁ o₂ h₂
      exact ⟨id₁, o₁, h₁, by rw [hsame]⟩
    · rintro ⟨id₁, o₁, h₁, rfl⟩
      obtain ⟨o₂, h₂, hsame, -⟩ := hcases id₁ o₁ h₁
      exact ⟨id₁, o₂, h₂, by rw [hsame]⟩
  · intro id₁ hid₁
    have hnone := h.fresh id₁ hid₁
    have hid : id₁ ≠ id := by
      rintro rfl
      rw [ho] at hnone
      cases hnone
    rw [← hnone]
    exact Function.update_of_ne hid ..
  · intro n id₁
    rw [show (s.assign id o').interruptRegistry = s.interruptRegistry from rfl, h.registry_iff]
    constructor
    · rintro ⟨o₂, h₂, hnumber⟩
      obtain ⟨o₁, h₁, -, hsame⟩ := hback id₁ o₂ h₂
      exact ⟨o₁, h₁, hsame.trans hnumber⟩
    · rintro ⟨o₁, h₁, hnumber⟩
      obtain ⟨o₂, h₂, -, hsame⟩ := hcases id₁ o₁ h₁
      exact ⟨o₂, h₂, hsame.symm.trans hnumber⟩
  · intro interrupt
    rw [show (s.assign id o').enabled = s.enabled from rfl, h.enabled_iff]
    constructor
    · rintro ⟨id₁, o₂, n, h₂, hnumber, hn⟩
      obtain ⟨o₁, h₁, -, hsame⟩ := hback id₁ o₂ h₂
      exact ⟨id₁, o₁, n, h₁, hsame.trans hnumber, hn⟩
    · rintro ⟨id₁, o₁, n, h₁, hnumber, hn⟩
      obtain ⟨o₂, h₂, -, hsame⟩ := hcases id₁ o₁ h₁
      exact ⟨id₁, o₂, n, h₂, hsame.symm.trans hnumber, hn⟩

theorem edgeNumber_input {i : GpioInput} (h : i.configuration.edge ≠ .none) :
    edgeNumber (.input i) = some i.configuration.pin.number.toNat := if_neg h

theorem edgeNumber_plain {i : GpioInput} (h : i.configuration.edge = .none) :
    edgeNumber (.input i) = none := if_pos h

theorem inv_constructInput {c : InputConfiguration} (h : Inv s) (hvalid : valid c.pin = true)
    (hclaimed : s.claimed (pinIndex c.pin) = false)
    (havailable : (c.edge = .none || s.interruptLineAvailable c.pin) = true) :
    ∃ s', s.constructInput c = some s' ∧ Inv (s'.claim c.pin true) ∧
      s'.objects s.fresh = some (.input (State.newInput c)) := by
  unfold State.constructInput
  dsimp only
  by_cases hedge : c.edge = .none
  · rw [if_neg (not_not.mpr hedge)]
    refine ⟨_, rfl, ?_, Function.update_self ..⟩
    have hnone : edgeNumber (.input (State.newInput c)) = none := edgeNumber_plain hedge
    refine inv_add h (o := .input (State.newInput c)) ⟨rfl, rfl, rfl, ?_, ?_⟩ hvalid rfl hclaimed
      (by simp [hnone])
    · unfold entries
      rw [hnone]
      rfl
    · unfold lines
      rw [hnone]
      rfl
  · have hline : s.interruptLineAvailable c.pin = true := by simpa [hedge] using havailable
    rw [if_pos hedge, if_pos hline]
    refine ⟨_, rfl, ?_, Function.update_self ..⟩
    have hsome : edgeNumber (.input (State.newInput c)) = some c.pin.number.toNat :=
      edgeNumber_input hedge
    refine inv_add h (o := .input (State.newInput c)) ⟨rfl, rfl, rfl, ?_, ?_⟩ hvalid rfl hclaimed ?_
    · unfold entries
      rw [hsome]
      rfl
    · unfold lines
      rw [hsome]
      rfl
    · intro n hn
      rw [hsome] at hn
      cases hn
      unfold State.interruptLineAvailable at hline
      rw [Bool.and_eq_true] at hline
      exact Option.isNone_iff_eq_none.mp hline.2

theorem inv_constructOutput {c : OutputConfiguration} (h : Inv s) (hvalid : valid c.pin = true)
    (hclaimed : s.claimed (pinIndex c.pin) = false) :
    ∃ s', s.constructOutput c = some s' ∧ Inv (s'.claim c.pin true) ∧
      s'.objects s.fresh = some (.output c) :=
  ⟨_, rfl, inv_add h (o := .output c) ⟨rfl, rfl, rfl, rfl, rfl⟩ hvalid trivial hclaimed nofun,
    Function.update_self ..⟩

theorem groupStillUsed_iff (s : State) (interrupt : Interrupt) :
    s.groupStillUsed interrupt = true ↔ ∃ n < 16, ∃ id i, s.interruptRegistry n = some id ∧
      s.objects id = some (.input i) ∧ i.interrupt = interrupt := by
  unfold State.groupStillUsed
  rw [List.any_eq_true]
  constructor
  · rintro ⟨n, hn, hused⟩
    refine ⟨n, List.mem_range.mp hn, ?_⟩
    cases hentry : s.interruptRegistry n with
    | none => rw [hentry] at hused; cases hused
    | some id =>
      rw [hentry] at hused
      dsimp only at hused
      cases hobject : s.objects id with
      | none => rw [hobject] at hused; cases hused
      | some o =>
        rw [hobject] at hused
        cases o with
        | output c => cases hused
        | input i => exact ⟨id, i, rfl, hobject, beq_iff_eq.mp hused⟩
  · rintro ⟨n, hn, id, i, hentry, hobject, rfl⟩
    refine ⟨n, List.mem_range.mpr hn, ?_⟩
    rw [hentry]
    dsimp only
    rw [hobject]
    exact beq_self_eq_true _

theorem unregister_enabled {i : GpioInput} (h : Inv s) (ho : s.objects id = some (.input i))
    (hedge : i.configuration.edge ≠ .none) (interrupt : Interrupt) :
    (s.unregister i).enabled interrupt = true ↔ ∃ id' o' n, id' ≠ id ∧ s.objects id' = some o' ∧
      edgeNumber o' = some n ∧ interruptFor n = interrupt := by
  have hmine : s.interruptRegistry i.configuration.pin.number.toNat = some id :=
    (h.registry_iff _ _).mpr ⟨_, ho, edgeNumber_input hedge⟩
  have hline : i.interrupt = interruptFor i.configuration.pin.number.toNat := h.line id _ ho
  have hused : ∀ line, ((s.enable i.interrupt false).register
      i.configuration.pin.number.toNat none).groupStillUsed line = true ↔
      ∃ id' o' n, id' ≠ id ∧ s.objects id' = some o' ∧ edgeNumber o' = some n ∧
        interruptFor n = line := by
    intro line
    rw [groupStillUsed_iff]
    constructor
    · rintro ⟨n, -, id', i', hentry, hobject, rfl⟩
      have hn : n ≠ i.configuration.pin.number.toNat := by
        rintro rfl
        rw [show ((s.enable i.interrupt false).register i.configuration.pin.number.toNat
          none).interruptRegistry _ = none from Function.update_self ..] at hentry
        cases hentry
      rw [show ((s.enable i.interrupt false).register i.configuration.pin.number.toNat
        none).interruptRegistry n = s.interruptRegistry n from Function.update_of_ne hn ..] at hentry
      obtain ⟨o', ho', hnumber⟩ := (h.registry_iff n id').mp hentry
      have hsame : o' = .input i' := Option.some.inj (ho'.symm.trans hobject)
      subst hsame
      refine ⟨id', .input i', n, ?_, ho', hnumber, ?_⟩
      · rintro rfl
        have hi : i' = i := by
          have heq := Option.some.inj (hobject.symm.trans ho)
          exact Object.input.inj heq
        subst hi
        rw [edgeNumber_input hedge] at hnumber
        exact hn (Option.some.inj hnumber).symm
      · have hnumber' : n = i'.configuration.pin.number.toNat := by
          by_cases hplain : i'.configuration.edge = .none
          · rw [edgeNumber_plain hplain] at hnumber
            cases hnumber
          · rw [edgeNumber_input hplain] at hnumber
            exact (Option.some.inj hnumber).symm
        rw [hnumber']
        exact (h.line id' _ ho').symm
    · rintro ⟨id', o', n, hid, ho', hnumber, rfl⟩
      have hentry := (h.registry_iff n id').mpr ⟨o', ho', hnumber⟩
      have hn : n ≠ i.configuration.pin.number.toNat := by
        rintro rfl
        exact hid (Option.some.inj (hentry.symm.trans hmine))
      cases o' with
      | output c => cases hnumber
      | input i' =>
        refine ⟨n, edgeNumber_lt (h.valid id' _ ho') hnumber, id', i', ?_, ho', ?_⟩
        · rw [← hentry]
          exact Function.update_of_ne hn ..
        · have hplain : i'.configuration.edge ≠ .none := by
            intro hplain
            rw [edgeNumber_plain hplain] at hnumber
            cases hnumber
          rw [edgeNumber_input hplain] at hnumber
          rw [← Option.some.inj hnumber]
          exact h.line id' _ ho'
  unfold State.unregister
  dsimp only
  by_cases hsame : interrupt = i.interrupt
  · subst hsame
    rw [← hused]
    split
    · rename_i hstill
      exact ⟨fun _ => hstill, fun _ => Function.update_self ..⟩
    · rename_i hstill
      refine ⟨fun hon => ?_, fun hon => absurd hon hstill⟩
      rw [show ((s.enable i.interrupt false).register i.configuration.pin.number.toNat
        none).enabled i.interrupt = false from Function.update_self ..] at hon
      cases hon
  · have hother : (if ((s.enable i.interrupt false).register i.configuration.pin.number.toNat
          none).groupStillUsed i.interrupt = true then
        ((s.enable i.interrupt false).register i.configuration.pin.number.toNat none).enable
          i.interrupt true
        else (s.enable i.interrupt false).register i.configuration.pin.number.toNat none).enabled
          interrupt = s.enabled interrupt := by
      split
      · exact (Function.update_of_ne hsame ..).trans (Function.update_of_ne hsame ..)
      · exact Function.update_of_ne hsame ..
    rw [hother, h.enabled_iff]
    constructor
    · rintro ⟨id', o', n, ho', hnumber, hn⟩
      refine ⟨id', o', n, ?_, ho', hnumber, hn⟩
      rintro rfl
      have ho'' : o' = .input i := Option.some.inj (ho'.symm.trans ho)
      subst ho''
      rw [edgeNumber_input hedge] at hnumber
      rw [← Option.some.inj hnumber, ← hline] at hn
      exact hsame hn.symm
    · rintro ⟨id', o', n, -, ho', hnumber, hn⟩
      exact ⟨id', o', n, ho', hnumber, hn⟩

theorem enabled_others (h : Inv s) (ho : s.objects id = some o) (hnone : edgeNumber o = none)
    (interrupt : Interrupt) :
    s.enabled interrupt = true ↔ ∃ id' o' n, id' ≠ id ∧ s.objects id' = some o' ∧
      edgeNumber o' = some n ∧ interruptFor n = interrupt := by
  rw [h.enabled_iff]
  constructor
  · rintro ⟨id', o', n, ho', hnumber, hn⟩
    refine ⟨id', o', n, ?_, ho', hnumber, hn⟩
    rintro rfl
    rw [Option.some.inj (ho'.symm.trans ho), hnone] at hnumber
    cases hnumber
  · rintro ⟨id', o', n, -, ho', hnumber, hn⟩
    exact ⟨id', o', n, ho', hnumber, hn⟩

theorem unregister_same (s : State) (i : GpioInput) :
    (s.unregister i).objects = s.objects ∧ (s.unregister i).fresh = s.fresh ∧
      (s.unregister i).claimed = s.claimed ∧
      (s.unregister i).interruptRegistry =
        Function.update s.interruptRegistry i.configuration.pin.number.toNat none := by
  unfold State.unregister
  dsimp only
  split
  · exact ⟨rfl, rfl, rfl, rfl⟩
  · exact ⟨rfl, rfl, rfl, rfl⟩

theorem inv_release (h : Inv s) (ho : s.objects id = some o) : Inv (s.release id o) := by
  cases o with
  | output c =>
    exact inv_remove h ho rfl rfl rfl rfl (enabled_others h ho rfl)
  | input i =>
    unfold State.release State.destroy State.destroyInput
    dsimp only
    by_cases hedge : i.configuration.edge = .none
    · have hnone := edgeNumber_plain hedge
      rw [if_neg (not_not.mpr hedge)]
      refine inv_remove h ho rfl rfl rfl ?_ (enabled_others h ho hnone)
      unfold entries
      rw [hnone]
      rfl
    · obtain ⟨hobjects, hfresh, hclaimed, hregistry⟩ := unregister_same s i
      rw [if_pos hedge]
      refine inv_remove h ho ?_ hfresh ?_ ?_ (unregister_enabled h ho hedge)
      · exact congrArg (fun objects => Function.update objects id none) hobjects
      · exact congrArg (fun claimed => Function.update claimed (pinIndex i.configuration.pin) false)
          hclaimed
      · unfold entries
        rw [edgeNumber_input hedge]
        exact hregistry

theorem inv_setEdgeCallback {i : GpioInput} (h : Inv s) (ho : s.objects id = some (.input i))
    (callback : Option Callback) : Inv (s.setEdgeCallback id i callback) := by
  have hassign : Inv (s.assign id (.input { i with edgeCallback := callback })) :=
    inv_assign h ho rfl rfl (show LineOk (.input i) from h.line id _ ho)
  unfold State.setEdgeCallback
  dsimp only
  split
  · exact hassign
  · -- the line is what it was
    suffices hsame : (if s.enabled i.interrupt = true then
        ((s.enable i.interrupt false).assign id
          (.input { i with edgeCallback := callback })).enable i.interrupt true
        else (s.enable i.interrupt false).assign id
          (.input { i with edgeCallback := callback })) =
        s.assign id (.input { i with edgeCallback := callback }) by
      rw [hsame]
      exact hassign
    split
    · rename_i hon
      unfold State.enable State.assign
      dsimp only
      have hsame : Function.update s.enabled i.interrupt true = s.enabled :=
        Function.update_eq_self_iff.mpr hon.symm
      rw [Function.update_idem, hsame]
    · rename_i hoff
      unfold State.enable State.assign
      dsimp only
      have hsame : Function.update s.enabled i.interrupt false = s.enabled :=
        Function.update_eq_self_iff.mpr (Bool.eq_false_iff.mpr hoff).symm
      rw [hsame]

theorem release_claim (s : State) (id : ObjectId) (o : Object) (claimed : Bool) :
    (s.claim o.pin claimed).release id o = s.release id o := by
  have hdestroy : (s.claim o.pin claimed).destroy id o = (s.destroy id o).claim o.pin claimed := by
    cases o with
    | output c => rfl
    | input i =>
      unfold State.destroy State.destroyInput State.unregister
      dsimp only
      by_cases hedge : i.configuration.edge = .none
      · rw [if_neg (not_not.mpr hedge), if_neg (not_not.mpr hedge)]
        rfl
      · rw [if_pos hedge, if_pos hedge]
        have hsame : ∀ line, (((s.claim (Object.input i).pin claimed).enable i.interrupt false).register
            i.configuration.pin.number.toNat none).groupStillUsed line =
            ((s.enable i.interrupt false).register
              i.configuration.pin.number.toNat none).groupStillUsed line := fun _ => rfl
        rw [hsame]
        split
        · rfl
        · rfl
  unfold State.release
  rw [hdestroy]
  unfold State.claim
  dsimp only
  rw [Function.update_idem]

/-- A call of the factory ends, keeps the invariant, and changes nothing when it refuses. -/
theorem createPin_spec {available : Bool} {construct : State → Option State} (h : Inv s)
    (hconstruct : valid o.pin = true → s.claimed (pinIndex o.pin) = false → available = true →
      ∃ s', construct s = some s' ∧ Inv (s'.claim o.pin true) ∧ s'.objects s.fresh = some o)
    (allocation : Allocation) :
    ∃ s' outcome, s.createPin o.pin available o construct allocation = some (s', outcome) ∧
      Inv s' ∧ (outcome = .refused → s' = s) := by
  unfold State.createPin
  split
  · exact ⟨s, _, rfl, h, fun _ => rfl⟩
  · rename_i hvalid
    split
    · exact ⟨s, _, rfl, h, fun _ => rfl⟩
    · rename_i hclaimed
      split
      · exact ⟨s, _, rfl, h, fun _ => rfl⟩
      · rename_i havailable
        split
        · exact ⟨s, _, rfl, h, fun _ => rfl⟩
        · obtain ⟨s', hs', hinv, hobject⟩ := hconstruct (by simpa using hvalid)
            (by simpa using hclaimed) (by simpa using havailable)
          rw [hs', Option.map_some]
          split
          · refine ⟨_, _, rfl, ?_, nofun⟩
            rw [← release_claim s' s.fresh o true]
            exact inv_release hinv hobject
          · exact ⟨_, _, rfl, hinv, nofun⟩

theorem createInput_spec (h : Inv s) (c : InputConfiguration) (allocation : Allocation) :
    ∃ s' outcome, s.createInput c allocation = some (s', outcome) ∧ Inv s' ∧
      (outcome = .refused → s' = s) :=
  createPin_spec (o := .input (State.newInput c)) h
    (fun hvalid hclaimed havailable => inv_constructInput h hvalid hclaimed havailable) allocation

theorem createOutput_spec (h : Inv s) (c : OutputConfiguration) (allocation : Allocation) :
    ∃ s' outcome, s.createOutput c allocation = some (s', outcome) ∧ Inv s' ∧
      (outcome = .refused → s' = s) :=
  createPin_spec (o := .output c) h
    (fun hvalid hclaimed _ => inv_constructOutput h hvalid hclaimed) allocation

theorem inv_perform {operation : Operation} {outcome : Outcome} (h : Inv s)
    (hs : perform s operation = some (s', outcome)) :
    Inv s' ∧ (outcome = .refused → s' = s) := by
  cases operation with
  | createInput c allocation =>
    obtain ⟨s₁, outcome₁, hcreate, hinv, hrefused⟩ := createInput_spec h c allocation
    cases hcreate.symm.trans hs
    exact ⟨hinv, hrefused⟩
  | createOutput c allocation =>
    obtain ⟨s₁, outcome₁, hcreate, hinv, hrefused⟩ := createOutput_spec h c allocation
    cases hcreate.symm.trans hs
    exact ⟨hinv, hrefused⟩
  | setEdgeCallback id callback =>
    unfold perform at hs
    dsimp only at hs
    split at hs
    · rename_i i ho
      cases hs
      exact ⟨inv_setEdgeCallback h ho callback, nofun⟩
    · cases hs
  | release id =>
    unfold perform at hs
    dsimp only at hs
    split at hs
    · rename_i o ho
      cases hs
      exact ⟨inv_release h ho, nofun⟩
    · cases hs

end

/-- The object is an input with an edge, on a pin with this number. -/
def EdgeInput (s : State) (id : ObjectId) (n : Nat) : Prop :=
  ∃ i, s.objects id = some (.input i) ∧ i.configuration.edge ≠ .none ∧
    i.configuration.pin.number.toNat = n

structure Consistent (s : State) : Prop where
  pins : ∀ id id' o o', s.objects id = some o → s.objects id' = some o' → o.pin = o'.pin → id = id'
  edges : ∀ id id' n, EdgeInput s id n → EdgeInput s id' n → id = id'
  registry : ∀ n id, s.interruptRegistry n = some id ↔ EdgeInput s id n
  lines : ∀ interrupt, s.enabled interrupt = true ↔
    ∃ id n, EdgeInput s id n ∧ interruptFor n = interrupt

theorem edgeInput_iff {s : State} {id : ObjectId} {n : Nat} :
    EdgeInput s id n ↔ ∃ o, s.objects id = some o ∧ edgeNumber o = some n := by
  constructor
  · rintro ⟨i, ho, hedge, rfl⟩
    exact ⟨_, ho, edgeNumber_input hedge⟩
  · rintro ⟨o, ho, hnumber⟩
    cases o with
    | output c => cases hnumber
    | input i =>
      by_cases hedge : i.configuration.edge = .none
      · rw [edgeNumber_plain hedge] at hnumber
        cases hnumber
      · rw [edgeNumber_input hedge] at hnumber
        exact ⟨i, ho, hedge, Option.some.inj hnumber⟩

theorem Inv.consistent {s : State} (h : Inv s) : Consistent s where
  pins := h.unique
  edges id id' n hid hid' := by
    rw [edgeInput_iff, ← h.registry_iff] at hid hid'
    exact Option.some.inj (hid.symm.trans hid')
  registry n id := by rw [edgeInput_iff, h.registry_iff]
  lines interrupt := by
    rw [h.enabled_iff]
    constructor
    · rintro ⟨id, o, n, ho, hnumber, hn⟩
      exact ⟨id, n, edgeInput_iff.mpr ⟨o, ho, hnumber⟩, hn⟩
    · rintro ⟨id, n, hedge, hn⟩
      obtain ⟨o, ho, hnumber⟩ := edgeInput_iff.mp hedge
      exact ⟨id, o, n, ho, hnumber, hn⟩

theorem pins_consistent (s : State) (h : Runs.Reached step (fun _ _ => True) {} s) :
    Consistent s ∧
      (∀ operation s', perform s operation = some (s', .refused) → s' = s) ∧
      (∀ c allocation, (s.createInput c allocation).isSome) ∧
      ∀ c allocation, (s.createOutput c allocation).isSome := by
  have hinv : Inv s := h.invariant inv_initial fun s s' operation hinv _ hs => by
    obtain ⟨⟨s₁, outcome⟩, hperform, rfl⟩ := Option.map_eq_some_iff.mp hs
    exact (inv_perform hinv hperform).1
  refine ⟨hinv.consistent, fun operation s' hs => (inv_perform hinv hs).2 rfl, ?_, ?_⟩
  · intro c allocation
    obtain ⟨s', outcome, hcreate, -⟩ := createInput_spec hinv c allocation
    rw [hcreate]
    rfl
  · intro c allocation
    obtain ⟨s', outcome, hcreate, -⟩ := createOutput_spec hinv c allocation
    rw [hcreate]
    rfl

/-- Two inputs on one line, the first of which goes. -/
def sharedLine : List Operation :=
  [.createInput { pin := ⟨0, 5⟩, edge := .rising } .succeeds,
    .createInput { pin := ⟨1, 6⟩, edge := .falling } .succeeds,
    .release 0]

theorem pins_consistent_sharedLine :
    ∃ s, Runs.perform step {} sharedLine = some s ∧ s.enabled .exti9to5 = true ∧
      Consistent s ∧
      (∀ operation s', perform s operation = some (s', .refused) → s' = s) ∧
      (∀ c allocation, (s.createInput c allocation).isSome) ∧
      ∀ c allocation, (s.createOutput c allocation).isSome := by
  have hrun : (Runs.perform step {} sharedLine).map (fun s => s.enabled .exti9to5) = some true := by
    decide
  obtain ⟨s, hs, henabled⟩ := Option.map_eq_some_iff.mp hrun
  exact ⟨s, hs, henabled, pins_consistent s
    (Runs.reached_of_perform hs (Runs.performs_always (fun _ _ => trivial) _))⟩

end SimPLCity.PinOwnership
