import SimPLCity.LazyMutexes
import SimPLCity.Runs
import Mathlib.Data.List.Nodup
import Mathlib.Data.Fintype.Basic

/-! No two threads hold a mutex. All calls between two destructions are on the one ThreadX mutex
that was published, a thread waits only for another one that holds the mutex, and a refused call
leaves the mutex as it was. -/

namespace SimPLCity.MutualExclusion
open LazyCreation (NativeId Ensure Lazy View Outcome)
open LazyMutexes ThreadXObjects

variable {τ ν : Type*}

/-- What the thread has to do with the handle. -/
def view : Place → View
  | .user | .load | .returned _ => .outside
  | .ensure e => .ensuring e
  | .check n | .get n | .put n | .delete n | .clear n => .using n
  | .suspended n => .suspended n

/-- The ThreadX mutex that the thread goes on with. -/
def uses (p : Place) : Option NativeId := (view p).uses

def locks : Operation → Bool
  | .unlock | .destroy => false
  | _ => true

/-- What the place has to do with the operation and with what the thread holds. -/
def Fitting (recursive : Bool) (operation : Operation) (held : Nat) : Place → Prop
  | .user | .load => True
  | .put _ => operation = .unlock
  | .delete _ | .clear _ => operation = .destroy
  | .get _ => locks operation = true ∧ (recursive = false → held = 0)
  | .returned .ok => locks operation = true → 0 < held
  | .returned .edeadlk => recursive = false ∧ 0 < held
  | .returned .eperm => held = 0
  | .returned _ => True
  | _ => locks operation = true

section
variable [DecidableEq τ]

section
variable (k : MutexKind τ ν)

structure Fits (s : State τ ν) (t : τ) : Prop where
  handle : LazyCreation.Fits k.toKind s.toLazy t (view (s.place t))
  fitting : Fitting s.recursive (s.operation t) (s.held t) (s.place t)
  waiting : ∀ n, s.place t = .suspended n → s.held t = 0
  unused : s.implementation = none → s.held t = 0
  held : ∀ n, s.implementation = some n → s.held t = k.share (s.natives n) t
  single : s.recursive = false → s.held t ≤ 1

/-- The ThreadX mutex is owned while a thread is suspended on it. -/
structure Kept (m : ν) : Prop where
  nodup : (k.suspended m).Nodup
  owned : ∀ t, k.owner m = some t → 0 < k.ownershipCount m
  free : k.owner m = none → k.suspended m = []

structure Sound (s : State τ ν) : Prop where
  fits : ∀ t, Fits k s t
  kept : ∀ n, s.implementation = some n → Kept k (s.natives n)
  destroys : ∀ t, s.destroys t = true → ∀ u, s.held u = 0 ∧ (u = t ∨ (s.place u).isUser = true)

/-- `gets` is about `tx_mutex_get`, which comes after the test of the owner. -/
structure Excludes (s : State τ ν) : Prop where
  one : ∀ t u, 0 < s.held t → 0 < s.held u → t = u
  single : s.recursive = false → ∀ t, s.held t ≤ 1
  published : ∀ t n, uses (s.place t) = some n → s.implementation = some n
  waits : ∀ t n, s.place t = .suspended n → ∃ u, u ≠ t ∧ 0 < s.held u
  locked : ∀ t, s.place t = .returned .ok → locks (s.operation t) = true → 0 < s.held t
  deadlock : ∀ t, s.place t = .returned .edeadlk → s.recursive = false ∧ 0 < s.held t
  refused : ∀ t, s.place t = .returned .eperm → s.held t = 0
  gets : ∀ t n expired, s.place t = .get n → (∀ u, u ≠ t → s.held u = 0) →
    ∃ s', lockMutex k s t expired = some s' ∧ s'.place t = .returned .ok ∧ s'.held t = s.held t + 1

end

section
variable {k : MutexKind τ ν} {s s' : State τ ν} {t u w : τ} {n : NativeId} {p q : Place} {m : ν}

theorem Kept.share_pos (h : Kept k m) : 0 < k.share m t ↔ k.owner m = some t := by
  unfold MutexKind.share
  split
  · rename_i howner
    exact iff_of_true (h.owned t howner) howner
  · rename_i hother
    exact iff_of_false (Nat.lt_irrefl 0) hother

theorem kept_made (k : MutexKind τ ν) : Kept k k.made where
  nodup := by
    rw [k.empty]
    exact List.nodup_nil
  owned := fun t ht => absurd (k.owner_made.symm.trans ht) nofun
  free := fun _ => k.empty

theorem Fits.found (h : Fits k s t) (hp : s.place t = p) (huses : uses p = some n) :
    s.implementation = some n :=
  h.handle.found n (hp ▸ huses)

theorem Fits.on_native (h : Fits k s t) (hp : view (s.place t) = .using n) :
    s.implementation = some n ∧ t ∉ k.suspended (s.natives n) := by
  have hn := h.handle.found n (by rw [hp]; rfl)
  refine ⟨hn, h.handle.not_queued (fun i => ?_) hn⟩
  rw [hp]
  exact View.noConfusion

theorem view_suspended (h : view p = .suspended n) : p = .suspended n := by
  cases p <;> first | exact congrArg Place.suspended (View.suspended.inj h) | cases h

theorem Fits.queued_iff (h : Fits k s t) (hn : s.implementation = some n) :
    t ∈ k.suspended (s.natives n) ↔ s.place t = .suspended n :=
  (h.handle.queued n hn).trans ⟨view_suspended, fun hp => by rw [hp]; rfl⟩

theorem Sound.excludes (h : Sound k s) : Excludes k s := by
  have hheld : ∀ t, 0 < s.held t → ∃ n, s.implementation = some n ∧ k.owner (s.natives n) = some t := by
    intro t ht
    cases hn : s.implementation with
    | none =>
      rw [(h.fits t).unused hn] at ht
      exact absurd ht (Nat.lt_irrefl 0)
    | some n =>
      rw [(h.fits t).held n hn, (h.kept n hn).share_pos] at ht
      exact ⟨n, rfl, ht⟩
  refine ⟨fun t u ht hu => ?_, fun hr t => (h.fits t).single hr, fun t => (h.fits t).handle.found,
    fun t n hp => ?_, fun t hp => ?_, fun t hp => ?_, fun t hp => ?_, fun t n expired hp hothers => ?_⟩
  · obtain ⟨n, hn, howner⟩ := hheld t ht
    obtain ⟨n', hn', howner'⟩ := hheld u hu
    rw [hn] at hn'
    cases hn'
    rw [howner] at howner'
    exact Option.some.inj howner'
  · have hn := (h.fits t).found hp rfl
    have hmem := ((h.fits t).queued_iff hn).mpr hp
    cases howner : k.owner (s.natives n) with
    | none =>
      rw [(h.kept n hn).free howner] at hmem
      cases hmem
    | some u =>
      have hu : 0 < s.held u := by
        rw [(h.fits u).held n hn, (h.kept n hn).share_pos]
        exact howner
      refine ⟨u, ?_, hu⟩
      rintro rfl
      rw [(h.fits u).waiting n hp] at hu
      exact absurd hu (Nat.lt_irrefl 0)
  · have hfitting := (h.fits t).fitting
    rw [hp] at hfitting
    exact hfitting
  · have hfitting := (h.fits t).fitting
    rw [hp] at hfitting
    exact hfitting
  · have hfitting := (h.fits t).fitting
    rw [hp] at hfitting
    exact hfitting
  · have hn := (h.fits t).found hp rfl
    have hfree : k.get (s.natives n) t ≠ none := by
      intro hget
      obtain ⟨u, howner, hut⟩ := k.get_none hget
      have hpos : 0 < s.held u := by
        rw [(h.fits u).held n hn, (h.kept n hn).share_pos]
        exact howner
      rw [hothers u hut] at hpos
      exact absurd hpos (Nat.lt_irrefl 0)
    obtain ⟨m, hm⟩ := Option.ne_none_iff_exists'.mp hfree
    refine ⟨((s.set n m).hold t (s.held t + 1)).go t (.returned .ok), ?_, ?_, ?_⟩
    · simp only [lockMutex, hp, hm]
    · simp [State.go]
    · simp [State.go, State.hold]

theorem Fits.leave (h : Fits k s t)
    (hhandle : LazyCreation.Fits k.toKind s'.toLazy t (view (s.place t)))
    (hplace : s'.place t = s.place t) (hoperation : s'.operation t = s.operation t)
    (hheld : s'.held t = s.held t) (hrecursive : s'.recursive = s.recursive)
    (hunused : s'.implementation = none → s.held t = 0)
    (hshare : ∀ n, s'.implementation = some n → s.held t = k.share (s'.natives n) t) : Fits k s' t where
  handle := by
    rw [hplace]
    exact hhandle
  fitting := by
    rw [hplace, hrecursive, hoperation, hheld]
    exact h.fitting
  waiting := by
    rw [hplace, hheld]
    exact h.waiting
  unused := by
    rw [hheld]
    exact hunused
  held := by
    rw [hheld]
    exact hshare
  single := by
    rw [hrecursive, hheld]
    exact h.single

theorem Fits.move (hq : s'.place t = q) (hhandle : LazyCreation.Fits k.toKind s'.toLazy t (view q))
    (hfitting : Fitting s'.recursive (s'.operation t) (s'.held t) q)
    (hwaiting : ∀ n, q = .suspended n → s'.held t = 0) (hunused : s'.implementation = none → s'.held t = 0)
    (hheld : ∀ n, s'.implementation = some n → s'.held t = k.share (s'.natives n) t)
    (hsingle : s'.recursive = false → s'.held t ≤ 1) : Fits k s' t where
  handle := hq ▸ hhandle
  fitting := hq ▸ hfitting
  waiting := hq ▸ hwaiting
  unused := hunused
  held := hheld
  single := hsingle

theorem view_user (h : p.isUser = true) : view p = .outside := by
  cases p <;> first | rfl | cases h

theorem go_self (s : State τ ν) : (s.go u p).place u = p := Function.update_self ..

theorem go_other (s : State τ ν) (p : Place) (ht : t ≠ u) : (s.go u p).place t = s.place t :=
  Function.update_of_ne ht ..

theorem Sound.alone (h : Sound k s) (hu : (s.place u).isUser = false) (ht : s.destroys t = true) :
    t = u := by
  have hquiet := (h.destroys t ht u).2
  rw [hu] at hquiet
  exact (hquiet.resolve_right nofun).symm

theorem Sound.quiet (h : Sound k s) (hu : (s.place u).isUser = false)
    (hplace : ∀ t, t ≠ u → s'.place t = s.place t ∨ (s'.place t).isUser = true)
    (hoperation : s'.operation = s.operation)
    (hheld : s.operation u = .destroy → s'.held = s.held) (t : τ) (ht : s'.destroys t = true) (v : τ) :
    s'.held v = 0 ∧ (v = t ∨ (s'.place v).isUser = true) := by
  have hmoved : t ≠ u → s.destroys t = true := by
    intro htu
    simp only [State.destroys, hoperation, Bool.and_eq_true, decide_eq_true_eq, Bool.not_eq_true'] at ht ⊢
    rcases hplace t htu with hsame | huser
    · exact ⟨ht.1, hsame ▸ ht.2⟩
    · rw [huser] at ht
      exact absurd ht.2 nofun
  have htu : t = u := by
    by_contra hne
    exact hne (h.alone hu (hmoved hne))
  subst htu
  have hdestroy : s.operation t = .destroy := by
    simp only [State.destroys, hoperation, Bool.and_eq_true, decide_eq_true_eq] at ht
    exact ht.1
  have hbefore := h.destroys t (by simp [State.destroys, hdestroy, hu]) v
  rw [hheld hdestroy]
  refine ⟨hbefore.1, ?_⟩
  by_cases hv : v = t
  · exact Or.inl hv
  · rcases hplace v hv with hsame | huser
    · rw [hsame]
      exact hbefore.2
    · exact Or.inr huser

theorem Sound.pass (h : Sound k s) (hp : s.place u = p) (huser : p.isUser = false)
    (hout : (view p).inside = false) (hqueue : ∀ n, view p ≠ .suspended n)
    (hq : (view q).inside = false) (hfound : ∀ n, uses q = some n → s.implementation = some n)
    (hsuspended : ∀ n, view q ≠ .suspended n)
    (hfitting : Fitting s.recursive (s.operation u) (s.held u) q) : Sound k (s.go u q) := by
  subst hp
  have hu := h.fits u
  refine ⟨fun t => ?_, h.kept, h.quiet huser (fun t ht => Or.inl (go_other _ _ ht)) rfl fun _ => rfl⟩
  by_cases htu : t = u
  · subst htu
    exact .move (go_self _) (hu.handle.pass hout hqueue hq hfound hsuspended) hfitting
      (fun n hn => absurd (congrArg view hn) (hsuspended n)) hu.unused hu.held hu.single
  · exact (h.fits t).leave (h.fits t).handle (go_other _ _ htu) rfl rfl rfl (h.fits t).unused
      (h.fits t).held

theorem sound_call (h : Sound k s) {operation : Operation} (hu : (s.place u).isUser = true)
    (hproper : Proper s (.call u operation)) :
    Sound k ({ s with operation := Function.update s.operation u operation }.go u .load) := by
  obtain ⟨hnone, hdestroy⟩ := hproper
  have hfits := h.fits u
  have hhandle := hfits.handle
  rw [view_user hu] at hhandle
  refine ⟨fun t => ?_, h.kept, fun t ht v => ?_⟩
  · by_cases htu : t = u
    · subst htu
      exact .move (go_self _) hhandle trivial nofun hfits.unused hfits.held hfits.single
    · exact (h.fits t).leave (h.fits t).handle (go_other _ _ htu) (Function.update_of_ne htu ..) rfl rfl
        (h.fits t).unused (h.fits t).held
  · by_cases htu : t = u
    · subst htu
      simp only [State.destroys, State.go, Function.update_self, Bool.and_eq_true,
        decide_eq_true_eq] at ht
      refine ⟨(hdestroy ht.1 v).1, ?_⟩
      by_cases hv : v = t
      · exact Or.inl hv
      · rw [go_other _ _ hv]
        exact (hdestroy ht.1 v).2
    · have hbefore := hnone t
      simp only [State.destroys, State.go, Function.update_of_ne htu] at ht hbefore
      rw [hbefore] at ht
      cases ht

theorem sound_load (h : Sound k s) (hs : load s u = some s') : Sound k s' := by
  unfold load at hs
  have hpass : ∀ {q}, s.place u = .load → (view q).inside = false →
      (∀ n, uses q = some n → s.implementation = some n) → (∀ n, view q ≠ .suspended n) →
      Fitting s.recursive (s.operation u) (s.held u) q → Sound k (s.go u q) := fun hp =>
    h.pass hp rfl rfl nofun
  split at hs
  · rename_i n hp hn hoperation
    cases hs
    exact hpass hp rfl (fun m hm => by cases hm; exact hn) nofun hoperation
  · rename_i hp hn hoperation
    cases hs
    exact hpass hp rfl nofun nofun ((h.fits u).unused hn)
  · rename_i n hp hn hoperation
    cases hs
    exact hpass hp rfl (fun m hm => by cases hm; exact hn) nofun hoperation
  · rename_i hp hn hoperation
    cases hs
    exact hpass hp rfl nofun nofun (fun hl => by rw [hoperation] at hl; cases hl)
  · rename_i n hp hn hunlock hdestroy
    cases hs
    refine hpass hp rfl (fun m hm => by cases hm; exact hn) nofun ?_
    cases hop : s.operation u <;> simp_all [Fitting, locks]
  · rename_i hp hn hunlock hdestroy
    cases hs
    refine hpass hp rfl nofun nofun ?_
    cases hop : s.operation u <;> simp_all [Fitting, locks]
  · cases hs

theorem sound_ensured (h : Sound k s) {e : Ensure} (hp : s.place u = .ensure e) {succeeds : Bool}
    {x : Lazy τ ν} {o : Outcome}
    (hs : LazyCreation.ensure k.toKind s.toLazy u succeeds e = some (x, o)) (hq : view q = o.view)
    (hfitting : Fitting s.recursive (s.operation u) (s.held u) q) :
    Sound k ({ s with toLazy := x }.go u q) := by
  have hu := h.fits u
  have hhandle := hu.handle
  rw [hp] at hhandle
  have heffect := LazyCreation.ensure_effect hhandle hs
  have hunused : ∀ t, x.implementation = none → s.held t = 0 := fun t hnone =>
    (h.fits t).unused (heffect.before hnone)
  have hheld : ∀ t n, x.implementation = some n → s.held t = k.share (x.natives n) t := fun t _ =>
    heffect.keeps (P := fun m => s.held t = k.share m t) (h.fits t).held fun hnone =>
      ((h.fits t).unused hnone).trans (k.share_free k.owner_made).symm
  have hkept : ∀ n, x.implementation = some n → Kept k (x.natives n) := fun _ =>
    heffect.keeps h.kept fun _ => kept_made k
  refine ⟨fun t => ?_, hkept, h.quiet (by rw [hp]; rfl) (fun t ht => Or.inl (go_other _ _ ht)) rfl fun _ => rfl⟩
  by_cases htu : t = u
  · subst htu
    refine .move (go_self _) (hq ▸ hhandle.ensure_self hs) hfitting (fun n hn => ?_) (hunused t) (hheld t)
      hu.single
    rw [hn] at hq
    exact absurd hq.symm (o.view_ne_suspended n)
  · exact (h.fits t).leave ((h.fits t).handle.ensure_other hhandle htu hs) (go_other _ _ htu) rfl rfl rfl
      (hunused t) (hheld t)

theorem sound_ensure (h : Sound k s) {succeeds : Bool} (hs : ensureMutex k s u succeeds = some s') :
    Sound k s' := by
  have hfitting := (h.fits u).fitting
  unfold ensureMutex at hs
  split at hs
  · rename_i e hp
    obtain ⟨⟨x, o⟩, hnext, rfl⟩ := Option.map_eq_some_iff.mp hs
    rw [hp] at hfitting
    cases o with
    | goes e => exact sound_ensured h hp hnext rfl hfitting
    | returns found =>
      cases found with
      | none => exact sound_ensured h hp hnext rfl trivial
      | some n => exact sound_ensured h hp hnext rfl hfitting
  · cases hs

theorem Sound.act (h : Sound k s) (hn : s.implementation = some n)
    (hact : s'.toLazy = s.toLazy.act n m) (hkept : Kept k m)
    (hfits : ∀ t, Fits k s' t) (hp : (s.place u).isUser = false)
    (hplace : ∀ t, t ≠ u → s'.place t = s.place t ∨ (s'.place t).isUser = true)
    (hoperation : s'.operation = s.operation)
    (hheld : s.operation u = .destroy → s'.held = s.held) : Sound k s' := by
  refine ⟨hfits, fun i hi => ?_, h.quiet hp hplace hoperation hheld⟩
  rw [hact] at hi ⊢
  obtain rfl := Option.some.inj (hn.symm.trans hi)
  rwa [LazyCreation.act_self]

theorem Fits.leave_act (h : Fits k s t) (hn : s.implementation = some n)
    (hact : s'.toLazy = s.toLazy.act n m) (hplace : s'.place t = s.place t)
    (hoperation : s'.operation = s.operation) (hheld : s'.held t = s.held t)
    (hrecursive : s'.recursive = s.recursive)
    (hqueue : t ∈ k.suspended m ↔ t ∈ k.suspended (s.natives n))
    (hshare : k.share m t = k.share (s.natives n) t) : Fits k s' t := by
  refine h.leave ?_ hplace (by rw [hoperation]) hheld hrecursive (fun hnone => ?_) fun i hi => ?_
  · rw [hact]
    exact h.handle.act_other hn hqueue
  · rw [hact] at hnone
    exact absurd (hn.symm.trans hnone) nofun
  · rw [hact] at hi ⊢
    obtain rfl := Option.some.inj (hn.symm.trans hi)
    rw [LazyCreation.act_self, hshare, h.held n hn]

theorem Fits.move_act (h : Fits k s t) (hn : s.implementation = some n) (hact : s'.toLazy = s.toLazy.act n m)
    (hq : s'.place t = q) (hp : (view (s.place t)).inside = false) (hout : (view q).inside = false)
    (hfound : ∀ i, uses q = some i → i = n) (hqueue : t ∈ k.suspended m ↔ view q = .suspended n)
    (hfitting : Fitting s'.recursive (s'.operation t) (s'.held t) q)
    (hwaiting : ∀ n, q = .suspended n → s'.held t = 0) (hheld : s'.held t = k.share m t)
    (hsingle : s'.recursive = false → s'.held t ≤ 1) : Fits k s' t := by
  refine .move hq ?_ hfitting hwaiting (fun hnone => ?_) (fun i hi => ?_) hsingle
  · rw [hact]
    exact h.handle.act_self hn hp hout hfound hqueue
  · rw [hact] at hnone
    exact absurd (hn.symm.trans hnone) nofun
  · rw [hact] at hi ⊢
    obtain rfl := Option.some.inj (hn.symm.trans hi)
    rw [LazyCreation.act_self, hheld]

theorem Fits.returns_act {a : Answer} (h : Fits k s t) (hn : s.implementation = some n)
    (hact : s'.toLazy = s.toLazy.act n m) (hq : s'.place t = .returned a)
    (hp : (view (s.place t)).inside = false) (hqueue : t ∉ k.suspended m)
    (hfitting : Fitting s'.recursive (s'.operation t) (s'.held t) (.returned a))
    (hheld : s'.held t = k.share m t) (hsingle : s'.recursive = false → s'.held t ≤ 1) : Fits k s' t :=
  h.move_act hn hact hq hp rfl nofun (iff_of_false hqueue nofun) hfitting nofun hheld hsingle

theorem sound_get (h : Sound k s) (hp : s.place u = .get n) {m' : ν}
    (hget : k.get (s.natives n) u = some m') :
    Sound k (((s.set n m').hold u (s.held u + 1)).go u (.returned .ok)) := by
  have hu := h.fits u
  obtain ⟨hn, hout⟩ := hu.on_native (by rw [hp]; rfl)
  have hfitting := hu.fitting
  rw [hp] at hfitting
  obtain ⟨hlocks, htested⟩ := hfitting
  obtain ⟨howner, hcount, hqueue, hothers⟩ := k.get_some hget
  have hshare : k.share m' u = s.held u + 1 := by
    rw [hu.held n hn, k.share_owner howner, hcount]
  have hzero : ∀ t, t ≠ u → k.share m' t = 0 := fun t ht => k.share_other howner (Ne.symm ht)
  have hkept : Kept k m' := by
    refine ⟨?_, fun _ _ => ?_, fun hfree => ?_⟩
    · rw [hqueue]
      exact (h.kept n hn).nodup
    · rw [hcount]
      exact Nat.succ_pos _
    · rw [howner] at hfree
      cases hfree
  refine h.act (u := u) hn rfl hkept (fun t => ?_) (by rw [hp]; rfl)
    (fun t ht => Or.inl (go_other _ _ ht)) rfl fun hd => by rw [hd] at hlocks; cases hlocks
  by_cases htu : t = u
  · subst htu
    have hheld : (((s.set n m').hold t (s.held t + 1)).go t (.returned .ok)).held t = s.held t + 1 :=
      Function.update_self ..
    refine hu.returns_act hn rfl (go_self _) (by rw [hp]; rfl) ?_ ?_ ?_ fun hsingle => ?_
    · rw [hqueue]
      exact hout
    · rw [hheld]
      exact fun _ => Nat.succ_pos _
    · rw [hheld, hshare]
    · rw [hheld, htested hsingle]
  · refine (h.fits t).leave_act hn rfl (go_other _ _ htu) rfl (Function.update_of_ne htu ..) rfl ?_ ?_
    · rw [hqueue]
    · rw [hzero t htu, hothers t htu]

theorem sound_suspend (h : Sound k s) (hp : s.place u = .get n) (hget : k.get (s.natives n) u = none) :
    Sound k ((s.set n (k.suspend (s.natives n) u)).go u (.suspended n)) := by
  have hu := h.fits u
  obtain ⟨hn, hout⟩ := hu.on_native (by rw [hp]; rfl)
  have hold := h.kept n hn
  obtain ⟨v, howner, hvu⟩ := k.get_none hget
  have hfitting := hu.fitting
  rw [hp] at hfitting
  have hzero : s.held u = 0 := by
    rw [hu.held n hn, k.share_other howner hvu]
  have hkept : Kept k (k.suspend (s.natives n) u) := by
    refine ⟨?_, fun t ht => ?_, fun hfree => ?_⟩
    · rw [k.suspended_suspend]
      refine List.nodup_append.mpr ⟨hold.nodup, List.nodup_singleton u, fun a ha b hb => ?_⟩
      rintro rfl
      rw [List.mem_singleton.mp hb] at ha
      exact hout ha
    · rw [k.ownershipCount_suspend]
      exact hold.owned t ((k.owner_suspend ..).symm.trans ht)
    · rw [k.owner_suspend, howner] at hfree
      cases hfree
  refine h.act (u := u) hn rfl hkept (fun t => ?_) (by rw [hp]; rfl)
    (fun t ht => Or.inl (go_other _ _ ht)) rfl fun _ => rfl
  by_cases htu : t = u
  · subst htu
    refine hu.move_act hn rfl (go_self _) (by rw [hp]; rfl) rfl (fun i hi => ?_) (iff_of_true ?_ rfl)
      hfitting.1 (fun _ _ => hzero) ((hu.held n hn).trans k.share_suspend.symm) hu.single
    · exact (Option.some.inj hi).symm
    · rw [k.suspended_suspend]
      exact List.mem_append_right _ List.mem_cons_self
  · exact (h.fits t).leave_act hn rfl (go_other _ _ htu) rfl rfl rfl
      (by simp [k.suspended_suspend, htu]) k.share_suspend

theorem sound_lock (h : Sound k s) {expired : Bool} (hs : lockMutex k s u expired = some s') : Sound k s' := by
  have hu := h.fits u
  have hfitting := hu.fitting
  unfold lockMutex at hs
  split at hs <;> rename_i hp <;> try rw [hp] at hfitting
  · have hn := hu.found hp rfl
    split at hs
    · rename_i howner
      simp only [Bool.and_eq_true, Bool.not_eq_true', decide_eq_true_eq] at howner
      cases hs
      refine h.pass hp rfl rfl nofun rfl nofun nofun ?_
      split
      · trivial
      · refine ⟨howner.1, ?_⟩
        rw [hu.held _ hn, (h.kept _ hn).share_pos]
        exact howner.2
    · rename_i howner
      cases hs
      refine h.pass hp rfl rfl nofun rfl (fun m hm => by cases hm; exact hn) nofun ⟨hfitting, fun hsingle => ?_⟩
      simp only [hsingle, Bool.not_false, Bool.true_and, decide_eq_true_eq] at howner
      rw [hu.held _ hn]
      exact if_neg howner
  · split at hs
    · rename_i m hget
      cases hs
      exact sound_get h hp hget
    · rename_i hget
      have hanswer : ∀ a, a ≠ .ok → a ≠ .edeadlk → a ≠ .eperm → Sound k (s.go u (.returned a)) := by
        intro a hok hdeadlock hperm
        refine h.pass hp rfl rfl nofun rfl nofun nofun ?_
        cases a <;> trivial
      split at hs
      · cases hs
        exact hanswer .ebusy nofun nofun nofun
      · split at hs
        · cases hs
          exact hanswer .etimedout nofun nofun nofun
        · cases hs
          exact sound_suspend h hp hget
  · cases hs

theorem sound_ends (h : Sound k s) {aborted : Bool} (hs : waitEnds k s u aborted = some s') : Sound k s' := by
  have hu := h.fits u
  have hfitting := hu.fitting
  unfold waitEnds at hs
  split at hs
  · rename_i n hp
    split at hs
    · cases hs
      rw [hp] at hfitting
      have hn := hu.found hp rfl
      have hold := h.kept n hn
      have hzero := hu.waiting n hp
      have hkept : Kept k (k.ends (s.natives n) u) := by
        refine ⟨?_, fun t ht => ?_, fun hfree => ?_⟩
        · rw [k.suspended_ends]
          exact hold.nodup.erase u
        · rw [k.ownershipCount_ends]
          exact hold.owned t ((k.owner_ends ..).symm.trans ht)
        · rw [k.suspended_ends, hold.free ((k.owner_ends ..).symm.trans hfree), List.erase_nil]
      refine h.act (u := u) hn rfl hkept (fun t => ?_) (by rw [hp]; rfl)
        (fun t ht => Or.inl (go_other _ _ ht)) rfl fun _ => rfl
      by_cases htu : t = u
      · subst htu
        refine hu.move_act hn rfl (go_self _) (by rw [hp]; rfl) ?_ (fun i hi => ?_)
          (iff_of_false (fun hmem => ?_) ?_) ?_ (fun _ _ => hzero) ((hu.held n hn).trans k.share_ends.symm)
          hu.single
        · split <;> rfl
        · split at hi <;> cases hi
          rfl
        · rw [k.suspended_ends] at hmem
          exact absurd rfl (hold.nodup.mem_erase_iff.mp hmem).1
        · split <;> exact nofun
        · split
          · trivial
          · exact ⟨hfitting, fun _ => hzero⟩
      · exact (h.fits t).leave_act hn rfl (go_other _ _ htu) rfl rfl rfl
          (by rw [k.suspended_ends]; exact List.mem_erase_of_ne htu) k.share_ends
    · cases hs
  · cases hs

theorem put_share (h : Kept k m) (howner : k.owner m = some t) :
    k.share (k.put m) t = k.share m t - 1 ∧ (∀ u, u ≠ t → k.share (k.put m) u = k.share m u) ∧
      (∀ u, k.owner (k.put m) = some u → 0 < k.ownershipCount (k.put m)) ∧
      (k.owner (k.put m) = none → k.share m t = 1) := by
  have hshare := k.share_owner howner
  have hpos := h.owned t howner
  have hother : ∀ u, u ≠ t → k.share m u = 0 := fun u hu => k.share_other howner (Ne.symm hu)
  by_cases hagain : 1 < k.ownershipCount m
  · obtain ⟨howner', hcount⟩ := k.put_again m hagain
    rw [howner] at howner'
    refine ⟨?_, fun u hu => ?_, fun u _ => ?_, fun hfree => ?_⟩
    · rw [k.share_owner howner', hcount, hshare]
    · rw [hother u hu, k.share_other howner' (Ne.symm hu)]
    · omega
    · rw [howner'] at hfree
      cases hfree
  · have hfree := k.put_last m (Nat.le_of_not_lt hagain)
    refine ⟨?_, fun u hu => ?_, fun u hu => ?_, fun _ => ?_⟩
    · rw [k.share_free hfree]
      omega
    · rw [hother u hu, k.share_free hfree]
    · rw [hfree] at hu
      cases hu
    · omega

theorem sound_put (h : Sound k s) (hp : s.place u = .put n) (howner : k.owner (s.natives n) = some u)
    (hleft : (k.owner (k.put (s.natives n))).isSome = true ∨ k.suspended (k.put (s.natives n)) = []) :
    Sound k (((s.set n (k.put (s.natives n))).hold u (s.held u - 1)).go u (.returned .ok)) := by
  have hu := h.fits u
  obtain ⟨hn, hout⟩ := hu.on_native (by rw [hp]; rfl)
  have hfitting := hu.fitting
  rw [hp] at hfitting
  have hold := h.kept n hn
  obtain ⟨hshare, hothers, howned, -⟩ := put_share hold howner
  have hsame := k.suspended_put (s.natives n)
  have hkept : Kept k (k.put (s.natives n)) := by
    refine ⟨by rw [hsame]; exact hold.nodup, howned, fun hfree => ?_⟩
    rw [hfree] at hleft
    exact hleft.resolve_left nofun
  refine h.act (u := u) hn rfl hkept (fun t => ?_) (by rw [hp]; rfl)
    (fun t ht => Or.inl (go_other _ _ ht)) rfl fun hd => by rw [hfitting] at hd; cases hd
  by_cases htu : t = u
  · subst htu
    have hheld : (((s.set n (k.put (s.natives n))).hold t (s.held t - 1)).go t (.returned .ok)).held t =
        s.held t - 1 := Function.update_self ..
    refine hu.returns_act hn rfl (go_self _) (by rw [hp]; rfl) ?_ (fun hlocks => ?_) ?_ fun hsingle => ?_
    · rw [hsame]
      exact hout
    · have hlocks : locks (s.operation t) = true := hlocks
      rw [hfitting] at hlocks
      cases hlocks
    · rw [hheld, hshare, hu.held n hn]
    · rw [hheld]
      exact Nat.le_trans (Nat.sub_le _ _) (hu.single hsingle)
  · refine (h.fits t).leave_act hn rfl (go_other _ _ htu) rfl (Function.update_of_ne htu ..) rfl ?_
      (hothers t htu)
    rw [hsame]

theorem sound_hand (h : Sound k s) (hp : s.place u = .put n) (howner : k.owner (s.natives n) = some u)
    (hfree : k.owner (k.put (s.natives n)) = none) (hw : w ∈ k.suspended (k.put (s.natives n)))
    (hs' : s' = { s with
      toLazy := s.toLazy.act n (k.hand (k.put (s.natives n)) w)
      place := Function.update (Function.update s.place u (.returned .ok)) w (.returned .ok)
      held := Function.update (Function.update s.held u (s.held u - 1)) w (s.held w + 1) }) : Sound k s' := by
  have hu := h.fits u
  obtain ⟨hn, hout⟩ := hu.on_native (by rw [hp]; rfl)
  have hfitting := hu.fitting
  rw [hp] at hfitting
  have hold := h.kept n hn
  obtain ⟨-, -, -, hone⟩ := put_share hold howner
  have hsame := k.suspended_put (s.natives n)
  rw [hsame] at hw
  have hplace := ((h.fits w).queued_iff hn).mp hw
  have hwu : w ≠ u := by
    rintro rfl
    rw [hp] at hplace
    cases hplace
  have hshare : ∀ t, k.share (k.hand (k.put (s.natives n)) w) t = if t = w then 1 else 0 := by
    intro t
    rw [MutexKind.share, k.owner_hand, k.ownershipCount_hand]
    simp only [Option.some.injEq, eq_comm]
  have hsuspended : k.suspended (k.hand (k.put (s.natives n)) w) = (k.suspended (s.natives n)).erase w := by
    rw [k.suspended_hand, hsame]
  have hkept : Kept k (k.hand (k.put (s.natives n)) w) := by
    refine ⟨?_, fun _ _ => ?_, fun hnone => ?_⟩
    · rw [hsuspended]
      exact hold.nodup.erase w
    · rw [k.ownershipCount_hand]
      exact Nat.one_pos
    · rw [k.owner_hand] at hnone
      cases hnone
  have hzero : ∀ t, t ≠ u → k.share (s.natives n) t = 0 := fun t ht =>
    k.share_other howner (Ne.symm ht)
  subst hs'
  refine h.act (u := u) hn rfl hkept (fun t => ?_) (by rw [hp]; rfl) (fun t ht => ?_) rfl
    fun hd => by rw [hfitting] at hd; cases hd
  · by_cases htw : t = w
    · subst htw
      refine (h.fits t).returns_act (a := .ok) hn rfl (Function.update_self ..) (by rw [hplace]; rfl)
        (fun hmem => ?_) ?_ ?_ fun _ => ?_
      · rw [hsuspended] at hmem
        exact absurd rfl (hold.nodup.mem_erase_iff.mp hmem).1
      · simp only [Function.update_self]
        exact fun _ => Nat.succ_pos _
      · simp only [Function.update_self]
        rw [hshare, if_pos rfl, (h.fits t).waiting n hplace]
      · simp only [Function.update_self]
        rw [(h.fits t).waiting n hplace]
    · by_cases htu : t = u
      · subst htu
        have hlast : s.held t - 1 = 0 := by
          rw [hu.held n hn, hone hfree]
        refine hu.returns_act (a := .ok) hn rfl ?_ (by rw [hp]; rfl) (fun hmem => ?_) (fun hlocks => ?_) ?_
          fun _ => ?_
        · simp [htw]
        · rw [hsuspended] at hmem
          exact hout (List.mem_of_mem_erase hmem)
        · have hlocks : locks (s.operation t) = true := hlocks
          rw [hfitting] at hlocks
          cases hlocks
        · simp only [Function.update_of_ne htw, Function.update_self, hlast]
          rw [hshare, if_neg htw]
        · simp only [Function.update_of_ne htw, Function.update_self, hlast]
          exact Nat.zero_le 1
      · refine (h.fits t).leave_act hn rfl ?_ rfl ?_ rfl ?_ ?_
        · simp [htw, htu]
        · simp [htw, htu]
        · rw [hsuspended]
          exact List.mem_erase_of_ne htw
        · rw [hshare, if_neg htw, hzero t htu]
  · by_cases htw : t = w
    · subst htw
      exact Or.inr (by simp [Place.isUser])
    · exact Or.inl (by simp [htw, ht])

theorem sound_unlock (h : Sound k s) {next : Option τ} (hs : unlockMutex k s u next = some s') : Sound k s' := by
  have hu := h.fits u
  simp only [unlockMutex] at hs
  split at hs
  · rename_i n hp
    obtain ⟨hn, hout⟩ := hu.on_native (by rw [hp]; rfl)
    split at hs
    · rename_i howner
      split at hs
      · split at hs
        · rename_i hleft
          cases hs
          rw [Bool.or_eq_true, decide_eq_true_eq] at hleft
          exact sound_put h hp howner hleft
        · cases hs
      · rename_i w
        split at hs
        · rename_i hnext
          cases hs
          simp only [Bool.and_eq_true, decide_eq_true_eq, List.contains_iff_mem] at hnext
          refine sound_hand h hp howner hnext.1 hnext.2 ?_
          have hwu : w ≠ u := by
            rintro rfl
            have hmem := hnext.2
            rw [k.suspended_put] at hmem
            exact hout hmem
          simp [State.set, State.hold, State.go, LazyCreation.Lazy.act, hwu]
        · cases hs
    · rename_i hother
      cases hs
      refine h.pass hp rfl rfl nofun rfl nofun nofun ?_
      change s.held u = 0
      rw [hu.held n hn]
      exact if_neg hother
  · cases hs

theorem sound_destroy (h : Sound k s) {failure : Option Answer} (hs : destroyMutex s u failure = some s') :
    Sound k s' := by
  have hu := h.fits u
  have hfitting := hu.fitting
  unfold destroyMutex at hs
  split at hs <;> try rename_i hp; rw [hp] at hfitting
  · have hn := hu.found hp rfl
    cases hs
    exact h.pass hp rfl rfl nofun rfl (fun m hm => by cases hm; exact hn) nofun hfitting
  · split at hs
    · rename_i hfailure
      cases hs
      refine h.pass hp rfl rfl nofun rfl nofun nofun ?_
      simp only [Bool.or_eq_true, decide_eq_true_eq] at hfailure
      rcases hfailure with rfl | rfl <;> trivial
    · cases hs
  · cases hs
    have hoperation : s.operation u = .destroy := hfitting
    have hquiet := h.destroys u (by simp [State.destroys, hoperation, hp, Place.isUser])
    refine ⟨fun t => ?_, nofun, h.quiet (by rw [hp]; rfl) (fun t ht => Or.inl (go_other _ _ ht)) rfl
      fun _ => rfl⟩
    by_cases htu : t = u
    · subst htu
      have hhandle := hu.handle
      rw [hp] at hhandle
      refine .move (q := .returned .ok) (go_self _) ?_ (fun hlocks => ?_) nofun (fun _ => (hquiet t).1) nofun
        hu.single
      · exact (hhandle.pass (w := .outside) rfl nofun rfl nofun nofun).clear rfl
      have hlocks : locks (s.operation t) = true := hlocks
      rw [hfitting] at hlocks
      cases hlocks
    · have ht := h.fits t
      have huser := (hquiet t).2.resolve_left htu
      refine ht.leave (ht.handle.clear ?_) (go_other _ _ htu) rfl rfl rfl (fun _ => (hquiet t).1) nofun
      rw [view_user huser]
      rfl
  · cases hs

theorem sound_initial (recursive : Bool) : Sound k (initial k recursive) where
  fits := fun _ => ⟨⟨iff_of_false nofun nofun, nofun, nofun, nofun, nofun⟩, trivial, nofun, fun _ => rfl,
    nofun, fun _ => Nat.zero_le 1⟩
  kept := nofun
  destroys := fun _ ht => nomatch ht

theorem sound_step (h : Sound k s) {a : Action τ} (hproper : Proper s a) (hs : step k s a = some s') :
    Sound k s' := by
  cases a with
  | call t operation =>
    simp only [step] at hs
    split at hs
    · rename_i huser
      cases hs
      exact sound_call h huser hproper
    · cases hs
  | load t => exact sound_load h hs
  | ensure t succeeds => exact sound_ensure h hs
  | lock t expired => exact sound_lock h hs
  | ends t aborted => exact sound_ends h hs
  | unlock t next => exact sound_unlock h hs
  | destroy t failure => exact sound_destroy h hs

end

theorem mutex_excludes (k : MutexKind τ ν) {recursive : Bool} {s : State τ ν}
    (h : Runs.Reached (step k) Proper (initial k recursive) s) : Excludes k s :=
  (h.invariant (sound_initial recursive) fun _ _ _ hg hc hs => sound_step hg hc hs).excludes

instance [Fintype τ] (s : State τ ν) : (a : Action τ) → Decidable (Proper s a)
  | .call t operation => inferInstanceAs (Decidable ((∀ u, s.destroys u = false) ∧
      (operation = .destroy → ∀ u, s.held u = 0 ∧ (u = t ∨ (s.place u).isUser = true))))
  | .load _ | .ensure .. | .lock .. | .ends .. | .unlock .. | .destroy .. => isTrue trivial

/-- One thread waits for the other one and gets the mutex from it. The mutex is destroyed, and
created again by the next lock. -/
def lockedTwice : List (Action (Fin 2)) :=
  [.call 0 .lock, .load 0, .ensure 0 true, .ensure 0 true, .ensure 0 true, .ensure 0 true,
    .ensure 0 true, .ensure 0 true, .lock 0 false, .call 1 .timedLock, .lock 0 false, .load 1,
    .lock 1 false, .lock 1 false, .call 0 .unlock, .load 0, .unlock 0 (some 1), .call 1 .unlock,
    .load 1, .unlock 1 none, .call 0 .destroy, .load 0, .destroy 0 none, .destroy 0 none,
    .call 1 .lock, .load 1, .ensure 1 true, .ensure 1 true, .ensure 1 true, .ensure 1 true,
    .ensure 1 true, .ensure 1 true, .lock 1 false, .lock 1 false]

theorem mutex_excludes_lockedTwice :
    ∃ s, Runs.perform (step (mutexes _)) (initial (mutexes _) false) lockedTwice = some s ∧
      s.created = 2 ∧ s.held 1 = 1 ∧ Excludes (mutexes _) s := by
  have hsome : (Runs.perform (step (mutexes _)) (initial (mutexes _) false) lockedTwice).map
      (fun s => (s.created, s.held 1)) = some (2, 1) := by decide +kernel
  obtain ⟨s, hs, hend⟩ := Option.map_eq_some_iff.mp hsome
  have hproper : Runs.Performs (step (mutexes _)) Proper (initial (mutexes _) false) lockedTwice := by
    decide +kernel
  simp only [Prod.mk.injEq] at hend
  exact ⟨s, hs, hend.1, hend.2, mutex_excludes _ (Runs.reached_of_perform hs hproper)⟩

end

end SimPLCity.MutualExclusion
