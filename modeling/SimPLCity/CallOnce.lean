import SimPLCity.OnceHandles
import SimPLCity.Runs
import Mathlib.Data.List.Chain
import Mathlib.Data.List.Nodup

/-! `once` runs one function to its end. While the state of a handle is 1, exactly one thread has
the handle in its hands: it is about to call the function, in it, or about to set the state. -/

namespace SimPLCity.CallOnce
open OneTime OnceHandles

variable {τ η ε : Type*}

/-- The thread owns the initialization mutex. -/
def holds : Place η ε → Bool
  | .test _ | .putDone _ | .putStart _ | .putWait _ | .setDone _ | .putReturn _ | .setThrow _ _
  | .putThrow _ _ => true
  | _ => false

/-- The handle that is in the hands of the thread outside of its function, and its phase. -/
def pending : Place η ε → Option (η × Phase τ)
  | .putStart h => some (h, .idle)
  | .lockDone h | .setDone h => some (h, .done)
  | .lockThrow h _ | .setThrow h _ => some (h, .idle)
  | _ => none

/-- `once` is about to return 0. -/
def returning : Place η ε → Option η
  | .putDone h | .putReturn h => some h
  | _ => none

/-- The exception that `once` is about to let through. -/
def raising : Place η ε → Option (η × ε)
  | .lockThrow h e | .setThrow h e | .putThrow h e | .rethrow h e => some (h, e)
  | _ => none

def toTask : OnceEvent τ η ε → Option (Event τ η)
  | .start t h => some (.start t h)
  | .complete t h => some (.complete t h)
  | .threw t h _ => some (.abort t h)
  | .returned t h => some (.pass t h)
  | .raised _ _ _ => none

def tasks (es : List (OnceEvent τ η ε)) : List (Event τ η) := es.filterMap toTask

inductive Claims (s : State τ η ε) (t : τ) (h : η) : Phase τ → Prop
  | running (hf : h ∈ s.functions t) : Claims s t h (.running t)
  | pending {ph : Phase τ} (hp : pending (s.place t) = some (h, ph)) : Claims s t h ph

structure Sound [DecidableEq τ] [DecidableEq η] (s : State τ η ε) : Prop where
  mutex : ∀ t, s.mutex = some t ↔ holds (s.place t) = true
  nodup : ∀ t, (s.functions t).Nodup
  claimed : ∀ t h ph, Claims s t h ph → s.state h = 1 ∧ follow h (tasks s.trace) = some ph
  apart : ∀ t u h (ph ph' : Phase τ), pending (s.place t) = some (h, ph) →
    pending (s.place u) = some (h, ph') → t = u
  unclaimed : ∀ h, (∃ t ph, Claims s t h ph) ∨
    s.state h = 0 ∧ follow h (tasks s.trace) = some .idle ∨
    s.state h = 2 ∧ follow h (tasks s.trace) = some .done
  passing : ∀ t h, returning (s.place t) = some h → s.state h = 2

section
variable {s s' : State τ η ε} {t u : τ} {p q : Place η ε} {h k : η} {ph ph' : Phase τ}
  {e : OnceEvent τ η ε} {es : List (OnceEvent τ η ε)}

theorem tasks_snoc {a : Event τ η} (ha : toTask e = some a) : tasks (es ++ [e]) = tasks es ++ [a] := by
  simp [tasks, List.filterMap_append, ha]

theorem tasks_raised {x : ε} : tasks (es ++ [.raised t h x]) = tasks es := by
  simp [tasks, List.filterMap_append, toTask]

theorem pending_phase (hp : pending p = some (h, ph)) : ph = .idle ∨ ph = .done := by
  cases p <;> simp_all [pending]

theorem Claims.congr (hc : Claims s t h ph) (hplace : s'.place t = s.place t)
    (hfunctions : s'.functions t = s.functions t) : Claims s' t h ph := by
  cases hc with
  | running hf => exact .running (hfunctions ▸ hf)
  | pending hp => exact .pending (by rw [hplace, hp])

theorem go_other [DecidableEq τ] (s : State τ η ε) (p : Place η ε) (ht : t ≠ u) :
    (s.go u p).place t = s.place t :=
  Function.update_of_ne ht ..

theorem go_self [DecidableEq τ] (s : State τ η ε) (p : Place η ε) : (s.go u p).place u = p :=
  Function.update_self ..

theorem mutex_keep (hm : ∀ t, s.mutex = some t ↔ holds (s.place t) = true)
    (hmutex : s'.mutex = s.mutex) (hplace : ∀ t, t ≠ u → s'.place t = s.place t)
    (hholds : holds (s'.place u) = holds (s.place u)) (t : τ) :
    s'.mutex = some t ↔ holds (s'.place t) = true := by
  rw [hmutex, hm]
  by_cases htu : t = u
  · rw [htu, hholds]
  · rw [hplace t htu]

theorem mutex_take (hm : ∀ t, s.mutex = some t ↔ holds (s.place t) = true)
    (hfree : s.mutex = none) (hmutex : s'.mutex = some u)
    (hplace : ∀ t, t ≠ u → s'.place t = s.place t) (hholds : holds (s'.place u) = true) (t : τ) :
    s'.mutex = some t ↔ holds (s'.place t) = true := by
  rw [hmutex]
  by_cases htu : t = u
  · rw [htu]
    exact iff_of_true rfl hholds
  · rw [hplace t htu, ← hm, hfree]
    simp [Ne.symm htu]

theorem mutex_give (hm : ∀ t, s.mutex = some t ↔ holds (s.place t) = true)
    (hown : holds (s.place u) = true) (hmutex : s'.mutex = none)
    (hplace : ∀ t, t ≠ u → s'.place t = s.place t) (hholds : holds (s'.place u) = false) (t : τ) :
    s'.mutex = some t ↔ holds (s'.place t) = true := by
  rw [hmutex]
  by_cases htu : t = u
  · rw [htu, hholds]
    simp
  · rw [hplace t htu, ← hm, (hm u).mpr hown]
    simp [Ne.symm htu]

variable [DecidableEq τ] [DecidableEq η]

theorem Sound.sole (hs : Sound s) (hu : Claims s u h ph) (ht : Claims s t h ph') : t = u := by
  obtain rfl : ph = ph' :=
    Option.some.inj ((hs.claimed u h ph hu).2.symm.trans (hs.claimed t h ph' ht).2)
  cases hu with
  | running _ =>
    cases ht with
    | running _ => rfl
    | pending hp => rcases pending_phase hp with hph | hph <;> cases hph
  | pending hp =>
    cases ht with
    | running _ => rcases pending_phase hp with hph | hph <;> cases hph
    | pending hp' => exact hs.apart t u h _ _ hp' hp

theorem Sound.walk (hs : Sound s) (hmutex : ∀ t, s'.mutex = some t ↔ holds (s'.place t) = true)
    (hplace : ∀ t, t ≠ u → s'.place t = s.place t) (hfunctions : s'.functions = s.functions)
    (hstate : s'.state = s.state)
    (hpending : (pending (s'.place u) : Option (η × Phase τ)) = pending (s.place u))
    (hpassing : ∀ h, returning (s'.place u) = some h → s.state h = 2)
    (htrace : ∀ h ph, follow h (tasks s.trace) = some ph → follow h (tasks s'.trace) = some ph) :
    Sound s' := by
  have hsame : ∀ t, (pending (s'.place t) : Option (η × Phase τ)) = pending (s.place t) := by
    intro t
    by_cases htu : t = u
    · rw [htu, hpending]
    · rw [hplace t htu]
  have hclaims : ∀ t h ph, Claims s' t h ph ↔ Claims s t h ph := by
    intro t h ph
    constructor <;> intro hc <;> cases hc with
    | running hf => exact .running (by simpa [hfunctions] using hf)
    | pending hp => exact .pending (by simpa [hsame] using hp)
  refine ⟨hmutex, by simpa [hfunctions] using hs.nodup, fun t h ph hc => ?_, fun t u' h ph ph' => ?_,
    fun h => ?_, fun t h hp => ?_⟩
  · obtain ⟨hone, hph⟩ := hs.claimed t h ph ((hclaims t h ph).mp hc)
    exact ⟨hstate ▸ hone, htrace h ph hph⟩
  · rw [hsame, hsame]
    exact hs.apart t u' h ph ph'
  · rw [hstate]
    rcases hs.unclaimed h with ⟨t, ph, hc⟩ | ⟨hz, hph⟩ | ⟨hz, hph⟩
    · exact Or.inl ⟨t, ph, (hclaims t h ph).mpr hc⟩
    · exact Or.inr (Or.inl ⟨hz, htrace h _ hph⟩)
    · exact Or.inr (Or.inr ⟨hz, htrace h _ hph⟩)
  · rw [hstate]
    by_cases htu : t = u
    · subst htu
      exact hpassing h hp
    · rw [hplace t htu] at hp
      exact hs.passing t h hp

theorem Sound.move (hs : Sound s) (hmutex : ∀ t, s'.mutex = some t ↔ holds (s'.place t) = true)
    (hplace : ∀ t, t ≠ u → s'.place t = s.place t)
    (hfunctions : ∀ t, t ≠ u → s'.functions t = s.functions t) (hnodup : (s'.functions u).Nodup)
    (hstate : ∀ h, h ≠ k → s'.state h = s.state h)
    (htrace : ∀ h, h ≠ k → follow h (tasks s'.trace) = follow h (tasks s.trace))
    (hclaims : ∀ h, h ≠ k → ∀ ph, Claims s' u h ph ↔ Claims s u h ph)
    (hsole : ∀ t, t ≠ u → ∀ ph, ¬ Claims s t k ph) (hnot : s.state k ≠ 2)
    (hclaimed : ∀ ph, Claims s' u k ph → s'.state k = 1 ∧ follow k (tasks s'.trace) = some ph)
    (hunclaimed : (∃ ph, Claims s' u k ph) ∨
      s'.state k = 0 ∧ follow k (tasks s'.trace) = some .idle ∨
      s'.state k = 2 ∧ follow k (tasks s'.trace) = some .done)
    (hpassing : ∀ h, returning (s'.place u) = some h → s'.state h = 2) : Sound s' := by
  have hother : ∀ t, t ≠ u → ∀ h ph, Claims s' t h ph ↔ Claims s t h ph := fun t htu h ph =>
    ⟨fun hc => hc.congr (hplace t htu).symm (hfunctions t htu).symm,
      fun hc => hc.congr (hplace t htu) (hfunctions t htu)⟩
  have hfree : ∀ t, t ≠ u → ∀ ph, ¬ Claims s' t k ph := fun t htu ph hc =>
    hsole t htu ph ((hother t htu k ph).mp hc)
  have hany : ∀ t h ph, h ≠ k → (Claims s' t h ph ↔ Claims s t h ph) := by
    intro t h ph hh
    by_cases htu : t = u
    · subst htu
      exact hclaims h hh ph
    · exact hother t htu h ph
  refine ⟨hmutex, fun t => ?_, fun t h ph hc => ?_, fun t v h ph ph' hp hp' => ?_, fun h => ?_,
    fun t h hp => ?_⟩
  · by_cases htu : t = u
    · exact htu ▸ hnodup
    · rw [hfunctions t htu]
      exact hs.nodup t
  · by_cases hh : h = k
    · subst hh
      by_cases htu : t = u
      · subst htu
        exact hclaimed ph hc
      · exact absurd hc (hfree t htu ph)
    · rw [hstate h hh, htrace h hh]
      exact hs.claimed t h ph ((hany t h ph hh).mp hc)
  · by_cases hh : h = k
    · subst hh
      by_contra htv
      rcases ne_or_eq t u with htu | rfl
      · exact hfree t htu ph (.pending hp)
      · exact hfree v (Ne.symm htv) ph' (.pending hp')
    · exact hs.sole ((hany v h ph' hh).mp (.pending hp')) ((hany t h ph hh).mp (.pending hp))
  · by_cases hh : h = k
    · subst hh
      exact hunclaimed.imp_left fun ⟨ph, hc⟩ => ⟨u, ph, hc⟩
    · rw [hstate h hh, htrace h hh]
      exact (hs.unclaimed h).imp_left fun ⟨t, ph, hc⟩ => ⟨t, ph, (hany t h ph hh).mpr hc⟩
  · by_cases htu : t = u
    · subst htu
      exact hpassing h hp
    · rw [hplace t htu] at hp
      have htwo := hs.passing t h hp
      have hh : h ≠ k := by
        rintro rfl
        exact hnot htwo
      rw [hstate h hh, htwo]

theorem Sound.done (hs : Sound s) (htwo : s.state h = 2) : follow h (tasks s.trace) = some .done := by
  rcases hs.unclaimed h with ⟨t, ph, hc⟩ | ⟨hz, -⟩ | ⟨-, hph⟩
  · rw [(hs.claimed t h ph hc).1] at htwo
    cases htwo
  · rw [hz] at htwo
    cases htwo
  · exact hph

theorem take_step (hs : Sound s) (hget : rawMutexGet s u = some s') (hholds : holds q = true)
    (hpending : (pending q : Option (η × Phase τ)) = pending (s.place u))
    (hreturning : returning q = none) : Sound (s'.go u q) := by
  unfold rawMutexGet at hget
  split at hget
  · rename_i hfree
    cases hget
    refine hs.walk (u := u) (mutex_take hs.mutex hfree rfl (fun _ => go_other _ _) ?_)
      (fun _ => go_other _ _) rfl rfl ?_ ?_ (fun _ _ => id) <;> rw [go_self]
    · exact hholds
    · exact hpending
    · simp [hreturning]
  · cases hget

theorem keep_step (hs : Sound s) (hholds : holds q = holds (s.place u))
    (hpending : (pending q : Option (η × Phase τ)) = pending (s.place u))
    (hreturning : ∀ h, returning q = some h → s.state h = 2) : Sound (s.go u q) := by
  refine hs.walk (u := u) (mutex_keep hs.mutex rfl (fun _ => go_other _ _) ?_)
    (fun _ => go_other _ _) rfl rfl ?_ ?_ (fun _ _ => id) <;> rw [go_self]
  · exact hholds
  · exact hpending
  · exact hreturning

theorem give_step (hs : Sound s) {trace : List (OnceEvent τ η ε)} (hown : holds (s.place u) = true)
    (hholds : holds q = false) (hpending : (pending q : Option (η × Phase τ)) = pending (s.place u))
    (hreturning : returning q = none)
    (htrace : ∀ h ph, follow h (tasks s.trace) = some ph → follow h (tasks trace) = some ph) :
    Sound { (rawMutexPut s).go u q with trace := trace } := by
  refine hs.walk (u := u) (mutex_give hs.mutex hown rfl (fun _ => go_other _ _) ?_)
    (fun _ => go_other _ _) rfl rfl ?_ ?_ htrace
  · simpa [State.go] using hholds
  · simpa [State.go] using hpending
  · simp [State.go, hreturning]

theorem returned_step (hs : Sound s) (hown : holds (s.place u) = true)
    (hpending : (pending (s.place u) : Option (η × Phase τ)) = none)
    (hreturning : returning (s.place u) = some h) :
    Sound (((rawMutexPut s).record (.returned u h)).go u .user) := by
  have htrace : tasks ((rawMutexPut s).record (.returned u h)).trace =
      tasks s.trace ++ [.pass u h] := tasks_snoc rfl
  refine give_step hs hown rfl (by rw [hpending]; rfl) rfl ?_
  rw [htrace]
  exact follow_pass (hs.done (hs.passing u h hreturning))

theorem set_step (hs : Sound s) {value : Nat} (hp : pending (s.place u) = some (h, ph))
    (hq : (pending q : Option (η × Phase τ)) = none) (hholds : holds q = holds (s.place u))
    (hvalue : value = 0 ∧ ph = .idle ∨ value = 2 ∧ ph = .done)
    (hreturning : ∀ k, returning q = some k → k = h ∧ value = 2) :
    Sound ((s.setState h value).go u q) := by
  have hclaim : Claims s u h ph := .pending hp
  obtain ⟨hone, hph⟩ := hs.claimed u h ph hclaim
  have hnone : ∀ ph, ¬ Claims ((s.setState h value).go u q) u h ph := by
    intro ph' hc
    cases hc with
    | running hf =>
      have hph' := (hs.claimed u h _ (.running hf)).2
      rw [hph, Option.some.injEq] at hph'
      rcases pending_phase hp with hphase | hphase <;> rw [hph'] at hphase <;> cases hphase
    | pending hc =>
      rw [go_self, hq] at hc
      cases hc
  refine hs.move (u := u) (k := h) (mutex_keep hs.mutex rfl (fun _ => go_other _ _) ?_)
    (fun _ => go_other _ _) (fun _ _ => rfl) (hs.nodup u) (fun k hk => Function.update_of_ne hk ..)
    (fun _ _ => rfl) (fun k hk ph' => ?_) (fun t ht ph' hc => ht (hs.sole hclaim hc)) (by simp [hone])
    (fun ph' hc => absurd hc (hnone ph')) (Or.inr ?_) (fun k hk => ?_)
  · rw [go_self]
    exact hholds
  · constructor <;> intro hc <;> cases hc with
    | running hf => exact .running hf
    | pending hc => ?_
    · rw [go_self, hq] at hc
      cases hc
    · rw [hp, Option.some.injEq, Prod.mk.injEq] at hc
      exact absurd hc.1.symm hk
  · have hset : ((s.setState h value).go u q).state h = value := Function.update_self ..
    rw [hset]
    rcases hvalue with ⟨rfl, rfl⟩ | ⟨rfl, rfl⟩
    · exact Or.inl ⟨rfl, hph⟩
    · exact Or.inr ⟨rfl, hph⟩
  · rw [go_self] at hk
    obtain ⟨rfl, hv⟩ := hreturning k hk
    exact (Function.update_self ..).trans hv

theorem begin_step (hs : Sound s) (hp : s.place u = .test h) (hz : s.state h = 0) :
    Sound ((s.setState h 1).go u (.putStart h)) := by
  have hfree : ∀ t ph, ¬ Claims s t h ph := by
    intro t ph hc
    rw [(hs.claimed t h ph hc).1] at hz
    cases hz
  have hidle : follow h (tasks s.trace) = some .idle := by
    rcases hs.unclaimed h with ⟨t, ph, hc⟩ | ⟨-, hph⟩ | ⟨htwo, -⟩
    · exact absurd hc (hfree t ph)
    · exact hph
    · rw [hz] at htwo
      cases htwo
  refine hs.move (u := u) (k := h) (mutex_keep hs.mutex rfl (fun _ => go_other _ _) ?_)
    (fun _ => go_other _ _) (fun _ _ => rfl) (hs.nodup u) (fun k hk => Function.update_of_ne hk ..)
    (fun _ _ => rfl) (fun k hk ph => ?_) (fun t _ ph => hfree t ph) (by simp [hz])
    (fun ph hc => ⟨Function.update_self .., ?_⟩) (Or.inl ⟨.idle, .pending ?_⟩) (fun k hk => ?_)
  · rw [go_self, hp]
    rfl
  · constructor <;> intro hc <;> cases hc with
    | running hf => exact .running hf
    | pending hc => ?_
    · rw [go_self] at hc
      cases hc
      exact absurd rfl hk
    · rw [hp] at hc
      cases hc
  · cases hc with
    | running hf => exact absurd (.running hf) (hfree u _)
    | pending hc =>
      rw [go_self] at hc
      cases hc
      exact hidle
  · rw [go_self]
    rfl
  · rw [go_self] at hk
    cases hk

theorem hand_step (hs : Sound s) {fs : List η} {trace : List (OnceEvent τ η ε)} {ph' : Phase τ}
    {m : Option τ}
    (hmutex : ∀ t, m = some t ↔ holds (Function.update s.place u q t) = true)
    (hclaim : Claims s u h ph) (hnodup : fs.Nodup)
    (hfs : ∀ k, k ≠ h → (k ∈ fs ↔ k ∈ s.functions u))
    (hpending : ∀ k, k ≠ h → ∀ ph : Phase τ,
      pending q = some (k, ph) ↔ pending (s.place u) = some (k, ph))
    (hreturning : returning q = none)
    (htrace : ∀ k, k ≠ h → follow k (tasks trace) = follow k (tasks s.trace))
    (hfollow : follow h (tasks trace) = some ph')
    (hnew : h ∈ fs ∧ ph' = .running u ∧ (∀ ph : Phase τ, pending q ≠ some (h, ph)) ∨
      h ∉ fs ∧ pending q = some (h, ph')) :
    Sound { (s.setFunctions u fs).go u q with mutex := m, trace := trace } := by
  have hone := (hs.claimed u h ph hclaim).1
  refine hs.move (u := u) (k := h) hmutex (fun _ => go_other _ _)
    (fun t ht => Function.update_of_ne ht ..) ?_ (fun _ _ => rfl) htrace (fun k hk ph => ?_)
    (fun t ht ph hc => ht (hs.sole hclaim hc)) (by simp [hone]) (fun ph hc => ⟨hone, ?_⟩)
    (Or.inl ⟨ph', ?_⟩) (fun k hk => ?_)
  · simpa [State.go, State.setFunctions] using hnodup
  · constructor <;> intro hc <;> cases hc with
    | running hf =>
      refine .running ?_
      simpa [State.go, State.setFunctions, hfs k hk] using hf
    | pending hp =>
      refine .pending ?_
      simpa [State.go, State.setFunctions, hpending k hk] using hp
  · rw [hfollow]
    cases hc with
    | running hf =>
      have hf : h ∈ fs := by simpa [State.go, State.setFunctions] using hf
      rcases hnew with ⟨-, rfl, -⟩ | ⟨hout, -⟩
      · rfl
      · exact absurd hf hout
    | pending hp =>
      have hp : pending q = some (h, ph) := by simpa [State.go, State.setFunctions] using hp
      rcases hnew with ⟨-, -, hnone⟩ | ⟨-, hq⟩
      · exact absurd hp (hnone ph)
      · rw [hq, Option.some.injEq, Prod.mk.injEq] at hp
        rw [hp.2]
  · rcases hnew with ⟨hin, rfl, -⟩ | ⟨-, hq⟩
    · exact .running (by simpa [State.go, State.setFunctions] using hin)
    · exact .pending (by simpa [State.go, State.setFunctions] using hq)
  · have hk : returning q = some k := by simpa [State.go, State.setFunctions] using hk
    rw [hreturning] at hk
    cases hk

theorem start_step (hs : Sound s) (hp : s.place u = .putStart h) :
    Sound ((((rawMutexPut s).setFunctions u (h :: s.functions u)).record (.start u h)).go u .user) := by
  have hpending : pending (s.place u) = some (h, (Phase.idle : Phase τ)) := by rw [hp]; rfl
  have hidle := (hs.claimed u h _ (.pending hpending)).2
  have htasks : tasks (s.trace ++ [.start u h]) = tasks s.trace ++ [.start u h] := tasks_snoc rfl
  have hout : h ∉ s.functions u := by
    intro hf
    rw [(hs.claimed u h _ (.running hf)).2] at hidle
    cases hidle
  have hmutex := mutex_give hs.mutex (by rw [hp]; rfl)
    (rfl : ((rawMutexPut s).go u .user).mutex = none) (fun _ => go_other _ _) (by rw [go_self]; rfl)
  refine hand_step hs hmutex (.pending hpending) (List.nodup_cons.mpr ⟨hout, hs.nodup u⟩)
    (fun k hk => by simp [hk]) (fun k hk ph => ?_) rfl (fun k hk => ?_) ?_
    (Or.inl ⟨List.mem_cons_self .., rfl, fun ph hph => by cases hph⟩)
  · rw [hpending, Option.some.injEq, Prod.mk.injEq]
    exact iff_of_false (fun hc => by cases hc) fun hc => hk hc.1.symm
  · exact (congrArg (follow k) htasks).trans (follow_other (Ne.symm hk))
  · exact (congrArg (follow h) htasks).trans (follow_next hidle rfl rfl)

theorem end_step (hs : Sound s) {event : η → OnceEvent τ η ε} {next : η → Place η ε}
    {a : η → Event τ η} (hend : endFunction s u event next = some s')
    (hevent : ∀ h, toTask (event h) = some (a h)) (hkey : ∀ h, (a h).key = h)
    (hnext : ∀ h, pending (next h) = some (h, ph) ∧ holds (next h) = false ∧
      returning (next h) = none)
    (hadvance : ∀ h, advance (.running u) (a h) = some ph) : Sound s' := by
  unfold endFunction at hend
  split at hend
  · rename_i h fs hp hfs
    cases hend
    have hmem : h ∈ s.functions u := by simp [hfs]
    have hrunning := (hs.claimed u h _ (.running hmem)).2
    have hnodup := hs.nodup u
    rw [hfs, List.nodup_cons] at hnodup
    have htasks : tasks (s.trace ++ [event h]) = tasks s.trace ++ [a h] := tasks_snoc (hevent h)
    have hmutex := mutex_keep hs.mutex (rfl : (s.go u (next h)).mutex = s.mutex)
      (fun _ => go_other _ _) (by rw [go_self, hp, (hnext h).2.1]; rfl)
    refine hand_step hs hmutex (.running hmem) hnodup.2 (fun k hk => by simp [hfs, hk]) (fun k hk ph' => ?_) (hnext h).2.2
      (fun k hk => ?_) ?_ (Or.inr ⟨hnodup.1, (hnext h).1⟩)
    · rw [(hnext h).1, hp, Option.some.injEq, Prod.mk.injEq]
      exact iff_of_false (fun hc => hk hc.1.symm) fun hc => by cases hc
    · exact (congrArg (follow k) htasks).trans (follow_other (by rw [hkey]; exact Ne.symm hk))
    · exact (congrArg (follow h) htasks).trans (follow_next hrunning (hkey h) (hadvance h))
  · cases hend

theorem once_step (hs : Sound s) (hstep : once s u = some s') : Sound s' := by
  unfold once at hstep
  split at hstep
  · rename_i h hp
    obtain ⟨s₁, hget, rfl⟩ := Option.map_eq_some_iff.mp hstep
    exact take_step hs hget rfl (by rw [hp]; rfl) rfl
  · rename_i h hp
    cases hstep
    split
    · rename_i htwo
      refine keep_step hs (by rw [hp]; rfl) (by rw [hp]; rfl) fun k hk => ?_
      cases hk
      exact htwo
    · split
      · rename_i hz
        exact begin_step hs hp hz
      · exact keep_step hs (by rw [hp]; rfl) (by rw [hp]; rfl) fun k hk => by cases hk
  · rename_i h hp
    cases hstep
    exact returned_step hs (by rw [hp]; rfl) (by rw [hp]; rfl) (by rw [hp]; rfl)
  · rename_i h hp
    cases hstep
    exact start_step hs hp
  · rename_i h hp
    cases hstep
    exact give_step hs (by rw [hp]; rfl) rfl (by rw [hp]; rfl) rfl fun _ _ => id
  · rename_i h hp
    cases hstep
    exact keep_step hs (by rw [hp]; rfl) (by rw [hp]; rfl) fun k hk => by cases hk
  · rename_i h hp
    obtain ⟨s₁, hget, rfl⟩ := Option.map_eq_some_iff.mp hstep
    exact take_step hs hget rfl (by rw [hp]; rfl) rfl
  · rename_i h hp
    cases hstep
    have hpending : pending (s.place u) = some (h, (Phase.done : Phase τ)) := by rw [hp]; rfl
    refine set_step hs hpending rfl (by rw [hp]; rfl) (Or.inr ⟨rfl, rfl⟩) fun k hk => ?_
    cases hk
    exact ⟨rfl, rfl⟩
  · rename_i h hp
    cases hstep
    exact returned_step hs (by rw [hp]; rfl) (by rw [hp]; rfl) (by rw [hp]; rfl)
  · rename_i h e hp
    obtain ⟨s₁, hget, rfl⟩ := Option.map_eq_some_iff.mp hstep
    exact take_step hs hget rfl (by rw [hp]; rfl) rfl
  · rename_i h e hp
    cases hstep
    have hpending : pending (s.place u) = some (h, (Phase.idle : Phase τ)) := by rw [hp]; rfl
    exact set_step hs hpending rfl (by rw [hp]; rfl) (Or.inl ⟨rfl, rfl⟩) fun k hk => by cases hk
  · rename_i h e hp
    cases hstep
    exact give_step hs (by rw [hp]; rfl) rfl (by rw [hp]; rfl) rfl fun _ _ => id
  · rename_i h e hp
    cases hstep
    refine hs.walk (u := u) (mutex_keep hs.mutex rfl (fun _ => go_other _ _) ?_)
      (fun _ => go_other _ _) rfl rfl ?_ (fun k hk => ?_) fun k ph hph => ?_
    · rw [go_self, hp]
      rfl
    · rw [go_self, hp]
      rfl
    · rw [go_self] at hk
      cases hk
    · exact (congrArg (follow k) tasks_raised).trans hph
  · cases hstep

theorem sound_step {a : Action τ η ε} (hs : Sound s) (hstep : step s a = some s') : Sound s' := by
  cases a with
  | call t h =>
    simp only [step] at hstep
    split at hstep
    · rename_i hp
      cases hstep
      exact keep_step hs (by rw [hp]; rfl) (by rw [hp]; rfl) fun k hk => by cases hk
    · cases hstep
  | once t => exact once_step hs hstep
  | finish t =>
    exact end_step hs (a := fun h => .complete t h) hstep (fun _ => rfl) (fun _ => rfl)
      (fun _ => ⟨rfl, rfl, rfl⟩) (fun _ => if_pos rfl)
  | throw t e =>
    exact end_step hs (a := fun h => .abort t h) hstep (fun _ => rfl) (fun _ => rfl)
      (fun _ => ⟨rfl, rfl, rfl⟩) (fun _ => if_pos rfl)

theorem sound_initial : Sound ({} : State τ η ε) := by
  refine ⟨fun t => by simp [holds], fun t => List.nodup_nil, fun t h ph hc => ?_,
    fun t u h ph ph' hp => by simp [pending] at hp, fun h => Or.inr (Or.inl ⟨rfl, rfl⟩),
    fun t h hp => by simp [returning] at hp⟩
  cases hc with
  | running hf => cases hf
  | pending hp => cases hp

end

section
variable [DecidableEq τ] {s s' : State τ η ε} {u : τ} {e : OnceEvent τ η ε}

def thread : OnceEvent τ η ε → τ
  | .start t _ | .complete t _ | .threw t _ _ | .returned t _ | .raised t _ _ => t

/-- The events of one thread. -/
def own (t : τ) (es : List (OnceEvent τ η ε)) : List (OnceEvent τ η ε) :=
  es.filter fun e => thread e = t

/-- After its function has thrown, the next thing that a thread does is to leave `once` with that
exception, and nothing else makes it leave with one. -/
def Matched (a b : OnceEvent τ η ε) : Prop := ∀ t h e, a = .threw t h e ↔ b = .raised t h e

structure Caught (s : State τ η ε) : Prop where
  chain : ∀ t, (own t s.trace).IsChain Matched
  first : ∀ t, ∀ b ∈ (own t s.trace).head?, ∀ h e, b ≠ .raised t h e
  last : ∀ t h e, (own t s.trace).getLast? = some (.threw t h e) ↔
    raising (s.place t) = some (h, e)

theorem Caught.quiet (hc : Caught s) (htrace : s'.trace = s.trace)
    (hplace : ∀ t, t ≠ u → s'.place t = s.place t)
    (hraising : raising (s'.place u) = raising (s.place u)) : Caught s' := by
  refine ⟨fun t => htrace ▸ hc.chain t, fun t => htrace ▸ hc.first t, fun t h e => ?_⟩
  rw [htrace, hc.last]
  by_cases htu : t = u
  · rw [htu, hraising]
  · rw [hplace t htu]

theorem Caught.record (hc : Caught s) (htrace : s'.trace = s.trace ++ [e])
    (hplace : ∀ t, t ≠ u → s'.place t = s.place t) (hthread : thread e = u)
    (hraised : ∀ h x, raising (s.place u) = some (h, x) ↔ e = .raised u h x)
    (hthrew : ∀ h x, e = .threw u h x ↔ raising (s'.place u) = some (h, x)) : Caught s' := by
  have hself : own u s'.trace = own u s.trace ++ [e] := by
    simp [own, htrace, List.filter_append, hthread]
  have hother : ∀ t, t ≠ u → own t s'.trace = own t s.trace := fun t htu => by
    simp [own, htrace, List.filter_append, hthread, Ne.symm htu]
  refine ⟨fun t => ?_, fun t => ?_, fun t h x => ?_⟩
  · by_cases htu : t = u
    · subst htu
      rw [hself]
      refine (hc.chain t).append (.singleton e) fun a ha b hb t' h x => ?_
      obtain rfl : e = b := by simpa using hb
      have hat : thread a = t := by simpa using (List.mem_filter.mp (List.mem_of_getLast? ha)).2
      constructor
      · rintro rfl
        obtain rfl : t' = t := hat
        exact (hraised h x).mp ((hc.last t' h x).mp ha)
      · rintro rfl
        obtain rfl : t' = t := hthread
        have hlast := (hc.last t' h x).mpr ((hraised h x).mpr rfl)
        exact Option.some.inj (ha.symm.trans hlast)
    · rw [hother t htu]
      exact hc.chain t
  · by_cases htu : t = u
    · subst htu
      rw [hself]
      intro b hb h x hbx
      subst hbx
      cases hnil : own t s.trace with
      | nil =>
        rw [hnil] at hb
        have hraising := (hraised h x).mpr (by simpa using hb)
        have hlast := (hc.last t h x).mpr hraising
        rw [hnil] at hlast
        cases hlast
      | cons a es =>
        rw [hnil] at hb
        refine hc.first t _ ?_ h x rfl
        rw [hnil]
        exact hb
    · rw [hother t htu]
      exact hc.first t
  · by_cases htu : t = u
    · subst htu
      rw [hself, List.getLast?_concat, Option.some.injEq]
      exact hthrew h x
    · rw [hother t htu, hplace t htu]
      exact hc.last t h x

theorem end_caught (hc : Caught s) {event : η → OnceEvent τ η ε} {next : η → Place η ε}
    (hend : endFunction s u event next = some s') (hthread : ∀ h, thread (event h) = u)
    (hraised : ∀ h k x, event h ≠ .raised u k x)
    (hthrew : ∀ h k x, event h = .threw u k x ↔ raising (next h) = some (k, x)) : Caught s' := by
  unfold endFunction at hend
  split at hend
  · rename_i h fs hp hfs
    cases hend
    refine hc.record rfl (fun _ => go_other _ _) (hthread h) (fun k x => ?_) fun k x => ?_
    · rw [hp]
      exact iff_of_false (by simp [raising]) (hraised h k x)
    · rw [go_self]
      exact hthrew h k x
  · cases hend

theorem caught_initial : Caught ({} : State τ η ε) where
  chain := fun t => .nil
  first := fun t b hb => by cases hb
  last := fun t h e => by simp [own, raising]

variable [DecidableEq η]

theorem once_caught (hc : Caught s) (hstep : once s u = some s') : Caught s' := by
  unfold once at hstep
  split at hstep
  case h_1 h hp | h_7 h hp | h_10 h x hp =>
    obtain ⟨s₁, hget, rfl⟩ := Option.map_eq_some_iff.mp hstep
    unfold rawMutexGet at hget
    split at hget
    · cases hget
      refine hc.quiet rfl (fun _ => go_other _ _) ?_
      rw [go_self, hp]
      rfl
    · cases hget
  case h_3 h hp | h_4 h hp | h_9 h hp =>
    cases hstep
    refine hc.record rfl (fun _ => go_other _ _) rfl (fun k x => ?_) fun k x => ?_
    · rw [hp]
      simp [raising]
    · rw [go_self]
      simp [raising]
  case h_13 h x hp =>
    cases hstep
    refine hc.record rfl (fun _ => go_other _ _) rfl (fun k y => ?_) fun k y => ?_
    · rw [hp]
      simp [raising]
    · rw [go_self]
      simp [raising]
  case h_2 h hp =>
    cases hstep
    split
    · exact hc.quiet rfl (fun _ => go_other _ _) (by rw [go_self, hp]; rfl)
    · split
      · exact hc.quiet rfl (fun _ => go_other _ _) (by rw [go_self, hp]; rfl)
      · exact hc.quiet rfl (fun _ => go_other _ _) (by rw [go_self, hp]; rfl)
  case h_14 => cases hstep
  all_goals
    rename_i hp
    cases hstep
    exact hc.quiet rfl (fun _ => go_other _ _) (by rw [go_self, hp]; rfl)

theorem caught_step {a : Action τ η ε} (hc : Caught s) (hstep : step s a = some s') : Caught s' := by
  cases a with
  | call t h =>
    simp only [step] at hstep
    split at hstep
    · rename_i hp
      cases hstep
      exact hc.quiet rfl (fun _ => go_other _ _) (by rw [go_self, hp]; rfl)
    · cases hstep
  | once t => exact once_caught hc hstep
  | finish t =>
    exact end_caught hc hstep (fun _ => rfl) (fun h k x hx => by cases hx)
      (fun h k x => by simp [raising])
  | throw t e =>
    exact end_caught hc hstep (fun _ => rfl) (fun h k x hx => by cases hx)
      (fun h k x => by simp [raising])

end

section
variable [DecidableEq τ] [DecidableEq η] {s : State τ η ε}

theorem Sound.running (hs : Sound s) (t : τ) (h : η) :
    h ∈ s.functions t ↔ follow h (tasks s.trace) = some (.running t) := by
  constructor
  · exact fun hf => (hs.claimed t h _ (.running hf)).2
  · intro hfollow
    rcases hs.unclaimed h with ⟨u, ph, hc⟩ | ⟨-, hph⟩ | ⟨-, hph⟩
    · have hph := (hs.claimed u h ph hc).2
      rw [hfollow, Option.some.injEq] at hph
      cases hc with
      | running hf =>
        cases hph
        exact hf
      | pending hp => rcases pending_phase hp with hidle | hdone <;> simp_all
    · rw [hfollow] at hph
      cases hph
    · rw [hfollow] at hph
      cases hph

/-- The trace is one in which no two functions of a handle run at a time and none after one has
completed; a handle that nobody runs and that is not done is in state 0, or in the hands of a
thread that is about to call the function or to set the state back; and exceptions go to the
caller whose function threw them. -/
structure CalledOnce (s : State τ η ε) : Prop where
  trace : Proper (tasks s.trace)
  running : ∀ t h, h ∈ s.functions t ↔ follow h (tasks s.trace) = some (.running t)
  exclusive : ∀ t u h, h ∈ s.functions t → h ∈ s.functions u → t = u
  once : ∀ t, (s.functions t).Nodup
  ready : ∀ h, follow h (tasks s.trace) = some .idle →
    s.state h = 0 ∨ ∃ t, pending (s.place t) = some (h, (Phase.idle : Phase τ))
  owned : ∀ t, holds (s.place t) = true → s.mutex = some t
  exceptions : ∀ t, (own t s.trace).IsChain Matched
  caught : ∀ t, ∀ b ∈ (own t s.trace).head?, ∀ h e, b ≠ .raised t h e

theorem Sound.calledOnce (hs : Sound s) (hc : Caught s) : CalledOnce s where
  trace := by
    refine proper_of_follow fun h => ?_
    rcases hs.unclaimed h with ⟨t, ph, hc⟩ | ⟨-, hph⟩ | ⟨-, hph⟩
    · exact ⟨ph, (hs.claimed t h ph hc).2⟩
    · exact ⟨_, hph⟩
    · exact ⟨_, hph⟩
  running := hs.running
  exclusive := fun t u h ht hu => hs.sole (.running hu) (.running ht)
  once := hs.nodup
  ready := fun h hidle => by
    rcases hs.unclaimed h with ⟨t, ph, hclaim⟩ | ⟨hz, -⟩ | ⟨-, hph⟩
    · have hph := (hs.claimed t h ph hclaim).2
      rw [hidle, Option.some.injEq] at hph
      cases hclaim with
      | running _ => cases hph
      | pending hp => exact Or.inr ⟨t, hph ▸ hp⟩
    · exact Or.inl hz
    · rw [hidle] at hph
      cases hph
  owned := fun t => (hs.mutex t).mpr
  exceptions := hc.chain
  caught := hc.first

end

theorem called_once [DecidableEq τ] [DecidableEq η] {s : State τ η ε}
    (h : Runs.Reached step (fun _ _ => True) {} s) : CalledOnce s :=
  (h.invariant sound_initial fun _ _ _ hs _ hstep => sound_step hs hstep).calledOnce
    (h.invariant caught_initial fun _ _ _ hc _ hstep => caught_step hc hstep)

/-- The function of thread 0 on handle 0 calls `once` on handle 1, whose function throws; it lets
the exception 7 through. Thread 1 has waited and calls its own function. -/
def nestedCalls : List (OnceHandles.Action Nat Nat Nat) :=
  [.call 0 0, .once 0, .once 0, .once 0, .call 1 0, .once 1, .once 1, .once 1, .call 0 1, .once 0,
    .once 0, .once 0, .throw 0 7, .once 0, .once 0, .once 0, .once 0, .throw 0 7, .once 0, .once 0,
    .once 0, .once 0, .once 1, .once 1, .once 1, .once 1, .finish 1, .once 1, .once 1, .once 1]

theorem called_once_nested : ∃ s : State Nat Nat Nat,
    Runs.Reached step (fun _ _ => True) {} s ∧ CalledOnce s ∧
      s.trace = [.start 0 0, .start 0 1, .threw 0 1 7, .raised 0 1 7, .threw 0 0 7, .raised 0 0 7,
        .start 1 0, .complete 1 0, .returned 1 0] := by
  have hsome : (Runs.perform step {} nestedCalls).isSome = true := by decide +kernel
  obtain ⟨s, hs⟩ := Option.isSome_iff_exists.mp hsome
  have hreached := Runs.reached_of_perform hs (Runs.performs_always (fun _ _ => trivial) _)
  have htrace : (Runs.perform step {} nestedCalls).map (fun s => s.trace) =
      some [.start 0 0, .start 0 1, .threw 0 1 7, .raised 0 1 7, .threw 0 0 7, .raised 0 0 7,
        .start 1 0, .complete 1 0, .returned 1 0] := by decide +kernel
  rw [hs, Option.map_some, Option.some.injEq] at htrace
  exact ⟨s, hreached, called_once hreached, htrace⟩

end SimPLCity.CallOnce
