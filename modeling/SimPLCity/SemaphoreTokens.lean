import SimPLCity.LazySemaphores
import SimPLCity.Runs
import Mathlib.Data.List.Nodup

/-! No token of a semaphore is lost or made up. The semaphore is published once, by the thread that
owns the initialization mutex, and from then on its count is the initial count, plus the posts that
succeeded, less the waits that did. -/

namespace SimPLCity.SemaphoreTokens
open LazyCreation (NativeId Ensure Lazy View Outcome)
open LazySemaphores ThreadXObjects

variable {τ ν : Type*}

/-- What the thread has to do with the handle. -/
def view : Place → View
  | .user | .load | .returned _ => .outside
  | .ensure e => .ensuring e
  | .call n => .using n
  | .suspended n => .suspended n

def succeeded (post : Bool) (r : Result τ) : Bool :=
  (r.operation = .post) = post && r.answer = .ok

theorem succeeded_wait {operation : Operation} (h : operation ≠ .post) (t : τ) :
    succeeded false ⟨t, operation, .ok⟩ = true ∧ succeeded true ⟨t, operation, .ok⟩ = false := by
  simp [succeeded, h]

/-- The waits that returned 0. -/
def waits (results : List (Result τ)) : Nat := results.countP (succeeded false)

/-- The posts that returned 0. -/
def posts (results : List (Result τ)) : Nat := results.countP (succeeded true)

theorem waits_snoc (rs : List (Result τ)) (r : Result τ) : waits (rs ++ [r]) = waits rs + (succeeded false r).toNat := by
  cases h : succeeded false r <;> simp [waits, h]

theorem posts_snoc (rs : List (Result τ)) (r : Result τ) : posts (rs ++ [r]) = posts rs + (succeeded true r).toNat := by
  cases h : succeeded true r <;> simp [posts, h]

section
variable [DecidableEq τ]

section
variable (k : SemaphoreKind τ ν)

structure Fits (c : Nat) (s : State τ ν) (t : τ) : Prop where
  handle : LazyCreation.Fits (k.toKind c) s.toLazy t (view (s.place t))
  waiting : ∀ n, s.place t = .suspended n → s.operation t ≠ .post
  decided : ∀ answer, s.place t = .returned answer →
    (s.results.filter fun r => r.thread = t).getLast? = some ⟨t, s.operation t, answer⟩

structure Sound (c : Nat) (s : State τ ν) : Prop where
  fits : ∀ t, Fits k c s t
  initialCount : s.initialCount = c
  published : s.published = s.implementation.toList
  nodup : ∀ n, s.implementation = some n → (k.suspended (s.natives n)).Nodup
  unused : s.implementation = none → waits s.results = 0 ∧ posts s.results = 0
  tokens : ∀ n, s.implementation = some n →
    k.count (s.natives n) + waits s.results = c + posts s.results
  acted : ∀ n ∈ s.acted, s.implementation = some n

/-- One semaphore is published at most, and all ThreadX calls are on it; its count is the initial
count and the posts that succeeded less the waits that did, so that what returned an error has
left no trace in it; and a call returns what was decided. -/
structure Conserved (c : Nat) (s : State τ ν) : Prop where
  published : s.published.length ≤ 1 ∧ ∀ n ∈ s.published, s.implementation = some n
  acted : ∀ n ∈ s.acted, s.implementation = some n
  tokens : ∀ n, s.implementation = some n →
    k.count (s.natives n) + waits s.results = c + posts s.results
  unused : s.implementation = none → waits s.results = 0 ∧ posts s.results = 0
  bounded : waits s.results ≤ c + posts s.results
  suspended : ∀ n, s.implementation = some n → (k.suspended (s.natives n)).Nodup ∧
    ∀ t, t ∈ k.suspended (s.natives n) ↔ s.place t = .suspended n
  decided : ∀ t answer, s.place t = .returned answer →
    (s.results.filter fun r => r.thread = t).getLast? = some ⟨t, s.operation t, answer⟩

end

section
variable {k : SemaphoreKind τ ν} {c : Nat} {s s' : State τ ν} {t u w : τ} {n : NativeId} {p q : Place}
  {r : Result τ} {rs : List (Result τ)} {a : Answer} {e : Ensure} {m : ν}

theorem results_other (ht : r.thread ≠ t) :
    ((rs ++ [r]).filter fun r => r.thread = t) = rs.filter fun r => r.thread = t := by
  simp [List.filter_append, ht]

theorem results_own (ht : r.thread = t) :
    ((rs ++ [r]).filter fun r => r.thread = t).getLast? = some r := by
  simp [List.filter_append, ht]

theorem Fits.found (h : Fits k c s t) (hp : s.place t = p) (huses : (view p).uses = some n) :
    s.implementation = some n :=
  h.handle.found n (hp ▸ huses)

theorem Fits.not_queued (h : Fits k c s t) (hp : s.place t = p) (hv : ∀ n, view p ≠ .suspended n)
    (hn : s.implementation = some n) : t ∉ k.suspended (s.natives n) :=
  h.handle.not_queued (hp ▸ hv) hn

theorem view_suspended (h : view p = .suspended n) : p = .suspended n := by
  cases p <;> first | exact congrArg Place.suspended (View.suspended.inj h) | cases h

theorem view_user (h : p.isUser = true) : view p = .outside := by
  cases p <;> first | rfl | cases h

theorem Fits.queued_iff (h : Fits k c s t) (hn : s.implementation = some n) :
    t ∈ k.suspended (s.natives n) ↔ s.place t = .suspended n :=
  (h.handle.queued n hn).trans ⟨view_suspended, fun hp => by rw [hp]; rfl⟩

theorem Fits.leave (h : Fits k c s t)
    (hhandle : LazyCreation.Fits (k.toKind c) s'.toLazy t (view (s.place t)))
    (hplace : s'.place t = s.place t) (hoperation : s'.operation t = s.operation t)
    (hresults : (s'.results.filter fun r => r.thread = t) = s.results.filter fun r => r.thread = t) :
    Fits k c s' t where
  handle := by
    rw [hplace]
    exact hhandle
  waiting := by
    rw [hplace, hoperation]
    exact h.waiting
  decided := by
    rw [hplace, hoperation, hresults]
    exact h.decided

theorem Fits.move (hq : s'.place t = q) (hhandle : LazyCreation.Fits (k.toKind c) s'.toLazy t (view q))
    (hwaiting : ∀ n, q = .suspended n → s'.operation t ≠ .post)
    (hdecided : ∀ answer, q = .returned answer →
      (s'.results.filter fun r => r.thread = t).getLast? = some ⟨t, s'.operation t, answer⟩) :
    Fits k c s' t where
  handle := hq ▸ hhandle
  waiting := hq ▸ hwaiting
  decided := hq ▸ hdecided

theorem go_self (s : State τ ν) : (s.go u p).place u = p := Function.update_self ..

theorem go_other (s : State τ ν) (p : Place) (ht : t ≠ u) : (s.go u p).place t = s.place t :=
  Function.update_of_ne ht ..

theorem Sound.pass (h : Sound k c s) (hp : s.place u = p) (hout : (view p).inside = false)
    (hqueue : ∀ n, view p ≠ .suspended n) (hq : (view q).inside = false)
    (hfound : ∀ n, (view q).uses = some n → s.implementation = some n)
    (hsuspended : ∀ n, view q ≠ .suspended n) (hreturned : ∀ answer, q ≠ .returned answer) :
    Sound k c (s.go u q) := by
  subst hp
  refine ⟨fun t => ?_, h.initialCount, h.published, h.nodup, h.unused, h.tokens, h.acted⟩
  by_cases htu : t = u
  · subst htu
    exact .move (go_self _) ((h.fits t).handle.pass hout hqueue hq hfound hsuspended)
      (fun n hn => absurd (congrArg view hn) (hsuspended n)) fun a ha => absurd ha (hreturned a)
  · exact (h.fits t).leave (h.fits t).handle (go_other _ _ htu) rfl rfl

theorem published_ensure (h : Sound k c s) {succeeds : Bool} {x : Lazy τ ν} {o : Outcome}
    (hp : s.place u = .ensure e)
    (hs : LazyCreation.ensure (k.toKind c) s.toLazy u succeeds e = some (x, o)) :
    s.published ++ publishes e = x.implementation.toList := by
  have hhandle := (h.fits u).handle
  rw [hp] at hhandle
  rw [h.published]
  cases e with
  | enter =>
    simp only [LazyCreation.ensure] at hs
    split at hs <;> cases hs
    exact List.append_nil _
  | reload =>
    simp only [LazyCreation.ensure] at hs
    split at hs <;> cases hs <;> exact List.append_nil _
  | create =>
    simp only [LazyCreation.ensure] at hs
    split at hs <;> cases hs <;> exact List.append_nil _
  | store n =>
    cases hs
    rw [hhandle.fresh rfl]
    rfl
  | _ =>
    cases hs
    exact List.append_nil _

theorem Sound.ensured (h : Sound k c s) {succeeds : Bool} {x : Lazy τ ν} {o : Outcome}
    (hp : s.place u = .ensure e)
    (hs : LazyCreation.ensure (k.toKind c) s.toLazy u succeeds e = some (x, o))
    (hx : s'.toLazy = x) (hcount : s'.initialCount = s.initialCount)
    (hpublished : s'.published = s.published ++ publishes e) (hacted : s'.acted = s.acted)
    (hwaits : waits s'.results = waits s.results) (hposts : posts s'.results = posts s.results)
    (hfits : ∀ t, Fits k c s' t) : Sound k c s' := by
  have hhandle := (h.fits u).handle
  rw [hp] at hhandle
  have heffect := LazyCreation.ensure_effect hhandle hs
  subst hx
  refine ⟨hfits, hcount.trans h.initialCount, ?_, fun n => ?_, fun hnone => ?_, fun n => ?_, fun n hn => ?_⟩
  · rw [hpublished]
    exact published_ensure h hp hs
  · exact heffect.keeps (P := fun m => (k.suspended m).Nodup) h.nodup fun _ => by
      rw [SemaphoreKind.toKind, k.suspended_make]
      exact List.nodup_nil
  · rw [hwaits, hposts]
    exact h.unused (heffect.before hnone)
  · rw [hwaits, hposts]
    refine heffect.keeps (P := fun m => k.count m + waits s.results = c + posts s.results) h.tokens fun hnone => ?_
    obtain ⟨hnowaits, hnoposts⟩ := h.unused hnone
    rw [hnowaits, hnoposts, SemaphoreKind.toKind, k.count_make]
  · rw [hacted] at hn
    exact heffect.after (h.acted n hn)

theorem Sound.acts (h : Sound k c s) (hn : s.implementation = some n) (hact : s'.toLazy = s.toLazy.act n m)
    (hcount : s'.initialCount = s.initialCount) (hpublished : s'.published = s.published)
    (hacted : s'.acted = s.acted ++ [n]) (hnodup : (k.suspended m).Nodup)
    (htokens : k.count m + waits s'.results = c + posts s'.results) (hfits : ∀ t, Fits k c s' t) :
    Sound k c s' := by
  have himplementation : s'.implementation = some n := by
    rw [hact]
    exact hn
  have hnative : ∀ i, s'.implementation = some i → s'.natives i = m := by
    intro i hi
    obtain rfl := Option.some.inj (himplementation.symm.trans hi)
    rw [hact, LazyCreation.act_self]
  refine ⟨hfits, hcount.trans h.initialCount, ?_, fun i hi => ?_, fun hnone => ?_, fun i hi => ?_,
    fun i hi => ?_⟩
  · rw [hpublished, himplementation, h.published, hn]
  · rw [hnative i hi]
    exact hnodup
  · exact absurd (himplementation.symm.trans hnone) nofun
  · rw [hnative i hi]
    exact htokens
  · rw [himplementation]
    rw [hacted, List.mem_append, List.mem_singleton] at hi
    rcases hi with hi | rfl
    · rw [← hn]
      exact h.acted i hi
    · rfl

theorem Fits.leave_act (h : Fits k c s t) (hn : s.implementation = some n)
    (hact : s'.toLazy = s.toLazy.act n m) (hplace : s'.place t = s.place t)
    (hoperation : s'.operation t = s.operation t) (hqueue : t ∈ k.suspended m ↔ t ∈ k.suspended (s.natives n))
    (hresults : (s'.results.filter fun r => r.thread = t) = s.results.filter fun r => r.thread = t) :
    Fits k c s' t := by
  refine h.leave ?_ hplace hoperation hresults
  rw [hact]
  exact h.handle.act_other hn hqueue

theorem Fits.answered (h : Fits k c s t) (hn : s.implementation = some n)
    (hact : s'.toLazy = s.toLazy.act n m) (hq : s'.place t = .returned a)
    (hp : (view (s.place t)).inside = false) (hqueue : t ∉ k.suspended m)
    (hresult : (s'.results.filter fun r => r.thread = t).getLast? = some ⟨t, s'.operation t, a⟩) :
    Fits k c s' t := by
  refine .move hq ?_ nofun fun b hb => ?_
  · rw [hact]
    exact h.handle.act_self hn hp rfl nofun (iff_of_false hqueue nofun)
  · cases hb
    exact hresult

theorem answer_step (h : Sound k c s) (hn : s.implementation = some n)
    (hp : (view (s.place u)).inside = false) (hnodup : (k.suspended m).Nodup) (hu : u ∉ k.suspended m)
    (hqueue : ∀ t, t ≠ u → (t ∈ k.suspended m ↔ t ∈ k.suspended (s.natives n)))
    (htokens : k.count m + (succeeded false ⟨u, s.operation u, a⟩).toNat =
      k.count (s.natives n) + (succeeded true ⟨u, s.operation u, a⟩).toNat) :
    Sound k c ((s.act n m).answer u a) := by
  refine h.acts hn rfl rfl rfl rfl hnodup ?_ fun t => ?_
  · have hbefore := h.tokens n hn
    simp only [State.answer, State.act, State.go, waits_snoc, posts_snoc]
    omega
  · by_cases htu : t = u
    · subst htu
      exact (h.fits t).answered hn rfl (go_self _) hp hu (results_own rfl)
    · exact (h.fits t).leave_act hn rfl (go_other _ _ htu) rfl (hqueue t htu)
        (results_other (Ne.symm htu))

theorem suspend_step (h : Sound k c s) (hp : s.place u = .call n) (hoperation : s.operation u ≠ .post) :
    Sound k c ((s.act n (k.suspend (s.natives n) u)).go u (.suspended n)) := by
  have hn := (h.fits u).found hp rfl
  have hout := (h.fits u).not_queued hp nofun hn
  have hsuspended := k.suspended_suspend (s.natives n) u
  refine h.acts hn rfl rfl rfl rfl ?_ ?_ fun t => ?_
  · rw [hsuspended]
    exact List.nodup_append.mpr ⟨h.nodup n hn, List.nodup_singleton u, fun a ha b hb => by
      rintro rfl
      rw [List.mem_singleton.mp hb] at ha
      exact hout ha⟩
  · rw [k.count_suspend]
    exact h.tokens n hn
  · by_cases htu : t = u
    · subst htu
      refine .move (go_self _) ?_ (fun _ _ => hoperation) nofun
      refine (h.fits t).handle.act_self hn (by rw [hp]; rfl) rfl (fun i hi => ?_) (iff_of_true ?_ rfl)
      · exact (Option.some.inj hi).symm
      · change t ∈ k.suspended (k.suspend (s.natives n) t)
        rw [hsuspended]
        exact List.mem_append_right _ List.mem_cons_self
    · exact (h.fits t).leave_act hn rfl (go_other _ _ htu) rfl (by simp [hsuspended, htu]) rfl

theorem get_step (h : Sound k c s) (hp : s.place u = .call n) (hoperation : s.operation u ≠ .post)
    {refusal : Option Answer} (hrefusal : refusal ≠ some .ok) : Sound k c (semaphoreGet k s u n refusal) := by
  have hn := (h.fits u).found hp rfl
  have hout := (h.fits u).not_queued hp nofun hn
  have hplaceu : (view (s.place u)).inside = false := by rw [hp]; rfl
  unfold semaphoreGet
  split
  · rename_i native hget
    obtain ⟨hcount, hsuspended⟩ := k.get_some hget
    refine answer_step h hn hplaceu ?_ ?_ (fun _ _ => by rw [hsuspended]) ?_
    · rw [hsuspended]
      exact h.nodup n hn
    · rw [hsuspended]
      exact hout
    · rw [(succeeded_wait hoperation u).1, (succeeded_wait hoperation u).2]
      simp only [Bool.toNat_true, Bool.toNat_false]
      omega
  · rename_i answer hget
    have hanswer : answer ≠ .ok := fun ha => hrefusal (ha ▸ rfl)
    refine answer_step h hn hplaceu (h.nodup n hn) hout (fun _ _ => Iff.rfl) ?_
    simp [succeeded, hanswer]
  · exact suspend_step h hp hoperation

/-- A put hands its token to the first suspended thread, whose wait thereby succeeds. -/
theorem put_step (h : Sound k c s) (hp : s.place u = .call n) (hoperation : s.operation u = .post) :
    Sound k c (semaphorePut k s u n) := by
  have hn := (h.fits u).found hp rfl
  have hout := (h.fits u).not_queued hp nofun hn
  have hplaceu : (view (s.place u)).inside = false := by rw [hp]; rfl
  have hnodup := h.nodup n hn
  unfold semaphorePut
  cases hqueue : k.suspended (s.natives n) with
  | nil =>
    obtain ⟨native, hput, hcount, hsuspended⟩ := k.put_token _ hqueue
    rw [hput]
    refine answer_step h hn hplaceu ?_ ?_ (fun _ _ => by rw [hsuspended, hqueue]) ?_
    · rw [hsuspended]
      exact List.nodup_nil
    · rw [hsuspended]
      exact List.not_mem_nil
    · simp [succeeded, hoperation, hcount]
  | cons w ws =>
    obtain ⟨native, hput, hcount, hsuspended⟩ := k.put_first _ w ws hqueue
    rw [hput]
    rw [hqueue, List.nodup_cons] at hnodup
    rw [hqueue, List.mem_cons, not_or] at hout
    rw [← hsuspended] at hnodup hout
    have hplace : s.place w = .suspended n :=
      ((h.fits w).queued_iff hn).mp (by rw [hqueue]; exact List.mem_cons_self ..)
    have hwait := (h.fits w).waiting n hplace
    have hwu : w ≠ u := Ne.symm hout.1
    refine h.acts hn rfl rfl rfl rfl hnodup.2 ?_ fun t => ?_
    · have hbefore := h.tokens n hn
      simp only [State.answer, State.act, State.go, waits_snoc, posts_snoc]
      simp [succeeded, hoperation, hwait]
      omega
    · by_cases htu : t = u
      · subst htu
        exact (h.fits t).answered hn rfl (go_self _) hplaceu hout.2 (results_own rfl)
      · by_cases htw : t = w
        · subst htw
          refine (h.fits t).answered (a := .ok) hn rfl ?_ (by rw [hplace]; rfl) hnodup.1 ?_
          · exact (go_other _ _ htu).trans (go_self _)
          · exact (congrArg List.getLast? (results_other (Ne.symm htu))).trans (results_own rfl)
        · refine (h.fits t).leave_act hn rfl ((go_other _ _ htu).trans (go_other _ _ htw)) rfl ?_
            ((results_other (Ne.symm htu)).trans (results_other (Ne.symm htw)))
          rw [hqueue, hsuspended, List.mem_cons]
          simp [htw]

theorem native_step (h : Sound k c s) {expired fails : Bool}
    (hs : callNative k s u expired fails = some s') : Sound k c s' := by
  unfold callNative at hs
  split at hs
  · rename_i n hp
    have hn := (h.fits u).found hp rfl
    split at hs
    · rename_i hoperation
      cases hs
      exact get_step h hp (by simp [hoperation]) (by simp)
    · rename_i hoperation
      cases hs
      exact get_step h hp (by simp [hoperation]) (by simp)
    · rename_i hoperation
      cases hs
      exact get_step h hp (by simp [hoperation]) (by cases expired <;> simp)
    · rename_i hoperation
      split at hs
      · cases hs
        exact answer_step h hn (by rw [hp]; rfl) (h.nodup n hn) ((h.fits u).not_queued hp nofun hn)
          (fun _ _ => Iff.rfl) (by simp [succeeded])
      · cases hs
        exact put_step h hp hoperation
  · cases hs

theorem not_mem_ends (hnodup : (k.suspended (s.natives n)).Nodup) :
    u ∉ k.suspended (k.ends (s.natives n) u) := by
  rw [k.suspended_ends, hnodup.mem_erase_iff]
  simp

theorem mem_ends (htu : t ≠ u) :
    t ∈ k.suspended (k.ends (s.natives n) u) ↔ t ∈ k.suspended (s.natives n) := by
  rw [k.suspended_ends]
  exact List.mem_erase_of_ne htu

theorem nodup_ends (hnodup : (k.suspended (s.natives n)).Nodup) :
    (k.suspended (k.ends (s.natives n) u)).Nodup := by
  rw [k.suspended_ends]
  exact hnodup.erase u

theorem timeout_step (h : Sound k c s) (hs : timeout k s u = some s') : Sound k c s' := by
  unfold timeout at hs
  split at hs
  · rename_i n hp hoperation
    cases hs
    have hn := (h.fits u).found hp rfl
    have hnodup := h.nodup n hn
    have htokens := h.tokens n hn
    rw [← k.count_ends (s.natives n) u] at htokens
    refine h.acts hn rfl rfl rfl rfl (nodup_ends hnodup) htokens fun t => ?_
    by_cases htu : t = u
    · subst htu
      refine .move (go_self _) ?_ nofun nofun
      refine (h.fits t).handle.act_self hn (by rw [hp]; rfl) rfl (fun i hi => ?_) (iff_of_false ?_ nofun)
      · exact (Option.some.inj hi).symm
      · exact not_mem_ends hnodup
    · exact (h.fits t).leave_act hn rfl (go_other _ _ htu) rfl (mem_ends htu) rfl
  · cases hs

theorem abort_step (h : Sound k c s) (hs : waitAborted k s u = some s') : Sound k c s' := by
  unfold waitAborted at hs
  split at hs
  · rename_i n hp
    cases hs
    have hn := (h.fits u).found hp rfl
    have hnodup := h.nodup n hn
    exact answer_step h hn (by rw [hp]; rfl) (nodup_ends hnodup) (not_mem_ends hnodup)
      (fun t ht => mem_ends ht) (by simp [succeeded, k.count_ends])
  · cases hs

theorem ensured_goes (h : Sound k c s) {succeeds : Bool} {x : Lazy τ ν} {o : Outcome}
    (hp : s.place u = .ensure e)
    (hs : LazyCreation.ensure (k.toKind c) s.toLazy u succeeds e = some (x, o)) (hq : view q = o.view)
    (hreturned : ∀ answer, q ≠ .returned answer) :
    Sound k c ({ s with toLazy := x, published := s.published ++ publishes e }.go u q) := by
  have hhandle := (h.fits u).handle
  rw [hp] at hhandle
  refine h.ensured hp hs rfl rfl rfl rfl rfl rfl fun t => ?_
  by_cases htu : t = u
  · subst htu
    refine .move (go_self _) (hq ▸ hhandle.ensure_self hs) (fun n hn => ?_) fun a ha => absurd ha (hreturned a)
    rw [hn] at hq
    exact absurd hq.symm (o.view_ne_suspended n)
  · exact (h.fits t).leave ((h.fits t).handle.ensure_other hhandle htu hs) (go_other _ _ htu) rfl rfl

theorem ensured_enomem (h : Sound k c s) {succeeds : Bool} {x : Lazy τ ν}
    (hp : s.place u = .ensure e)
    (hs : LazyCreation.ensure (k.toKind c) s.toLazy u succeeds e = some (x, .returns none)) :
    Sound k c ({ s with toLazy := x, published := s.published ++ publishes e }.answer u .enomem) := by
  have hhandle := (h.fits u).handle
  rw [hp] at hhandle
  refine h.ensured hp hs rfl rfl rfl rfl ?_ ?_ fun t => ?_
  · simp [State.answer, waits_snoc, succeeded]
  · simp [State.answer, posts_snoc, succeeded]
  · by_cases htu : t = u
    · subst htu
      refine .move (q := .returned .enomem) (go_self _) (hhandle.ensure_self hs) nofun fun a ha => ?_
      cases ha
      exact results_own rfl
    · exact (h.fits t).leave ((h.fits t).handle.ensure_other hhandle htu hs) (go_other _ _ htu) rfl
        (results_other (Ne.symm htu))

theorem ensure_step (h : Sound k c s) {succeeds : Bool} (hs : ensureSemaphore k s u succeeds = some s') :
    Sound k c s' := by
  unfold ensureSemaphore at hs
  split at hs
  · rename_i hp
    split at hs <;> rename_i himplementation <;> cases hs
    · refine h.pass hp rfl nofun rfl (fun n hn => ?_) nofun nofun
      cases hn
      exact himplementation
    · exact h.pass hp rfl nofun rfl nofun nofun nofun
  · rename_i e hp
    obtain ⟨⟨x, o⟩, hnext, rfl⟩ := Option.map_eq_some_iff.mp hs
    rw [h.initialCount] at hnext
    cases o with
    | goes e => exact ensured_goes h hp hnext rfl nofun
    | returns found =>
      cases found with
      | none => exact ensured_enomem h hp hnext
      | some n => exact ensured_goes h hp hnext rfl nofun
  · cases hs

theorem call_step (h : Sound k c s) {operation : Operation} (hp : (s.place u).isUser = true) :
    Sound k c ({ s with operation := Function.update s.operation u operation }.go u .load) := by
  refine ⟨fun t => ?_, h.initialCount, h.published, h.nodup, h.unused, h.tokens, h.acted⟩
  by_cases htu : t = u
  · subst htu
    have hhandle := (h.fits t).handle
    rw [view_user hp] at hhandle
    exact .move (go_self _) hhandle nofun nofun
  · exact (h.fits t).leave (h.fits t).handle (go_other _ _ htu) (Function.update_of_ne htu ..) rfl

theorem sound_step {a : Action τ} (h : Sound k c s) (hs : step k s a = some s') : Sound k c s' := by
  cases a with
  | call t operation =>
    simp only [step] at hs
    split at hs
    · rename_i hp
      cases hs
      exact call_step h hp
    · cases hs
  | ensure t succeeds => exact ensure_step h hs
  | native t expired fails => exact native_step h hs
  | timeout t => exact timeout_step h hs
  | abort t => exact abort_step h hs

theorem sound_initial (c : Nat) : Sound k c (initial k c) where
  fits := fun _ => ⟨⟨iff_of_false nofun nofun, nofun, nofun, nofun, nofun⟩, nofun, nofun⟩
  initialCount := rfl
  published := rfl
  nodup := fun n hn => by cases hn
  unused := fun _ => ⟨rfl, rfl⟩
  tokens := fun n hn => by cases hn
  acted := fun n hn => by cases hn

theorem Sound.conserved (h : Sound k c s) : Conserved k c s where
  published := by
    rw [h.published]
    cases s.implementation <;> simp
  acted := h.acted
  tokens := h.tokens
  unused := h.unused
  bounded := by
    cases hn : s.implementation with
    | none => simp [h.unused hn]
    | some n =>
      have := h.tokens n hn
      omega
  suspended := fun n hn => ⟨h.nodup n hn, fun t => (h.fits t).queued_iff hn⟩
  decided := fun t => (h.fits t).decided

end

theorem tokens_conserved (k : SemaphoreKind τ ν) {c : Nat} {s : State τ ν}
    (h : Runs.Reached (step k) (fun _ _ => True) (initial k c) s) : Conserved k c s :=
  (h.invariant (sound_initial c) fun _ _ _ hs _ hstep => sound_step hs hstep).conserved

/-- Threads 0 and 1 use the semaphore first at the same time; the creation of thread 0 fails, that
of thread 1 succeeds. Thread 1 waits with a deadline and gets the token of thread 0's next call. -/
def racingFirstUse : List (Action Nat) :=
  [.call 0 .post, .call 1 .timedWait, .ensure 0 true, .ensure 1 true, .ensure 0 true, .ensure 0 true,
    .ensure 0 false, .ensure 0 true, .ensure 1 true, .ensure 1 true, .ensure 1 true, .ensure 1 true,
    .ensure 1 true, .ensure 1 true, .native 1 false false, .timeout 1, .native 1 false false,
    .call 0 .post, .ensure 0 true, .native 0 false false]

theorem tokens_conserved_firstUse : ∃ s,
    Runs.Reached (step (semaphores Nat)) (fun _ _ => True) (initial (semaphores Nat) 0) s ∧
      Conserved (semaphores Nat) 0 s ∧
      s.results = [⟨0, .post, .enomem⟩, ⟨1, .timedWait, .ok⟩, ⟨0, .post, .ok⟩] := by
  have hsome : (Runs.perform (step (semaphores Nat)) (initial (semaphores Nat) 0) racingFirstUse).isSome =
      true := by decide +kernel
  obtain ⟨s, hs⟩ := Option.isSome_iff_exists.mp hsome
  have hreached := Runs.reached_of_perform hs (Runs.performs_always (fun _ _ => trivial) _)
  have hresults : (Runs.perform (step (semaphores Nat)) (initial (semaphores Nat) 0) racingFirstUse).map
      (fun s => s.results) = some [⟨0, .post, .enomem⟩, ⟨1, .timedWait, .ok⟩, ⟨0, .post, .ok⟩] := by
    decide +kernel
  rw [hs, Option.map_some, Option.some.injEq] at hresults
  exact ⟨s, hreached, tokens_conserved _ hreached, hresults⟩

end

end SimPLCity.SemaphoreTokens
