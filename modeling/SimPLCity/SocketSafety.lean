import SimPLCity.LockOrder
import SimPLCity.RawSocket
import Mathlib.Data.List.Nodup
import Mathlib.Order.Fin.Basic
import Mathlib.Data.Fintype.EquivFin

/-! The calls use the socket of the running period while it is open, each socket is closed once, and
no calls wait for each other's mutexes. -/

namespace SimPLCity.SocketSafety
open RawSocket LockOrder

/-- What the thread holds, the last one taken first. -/
def held : Call → List Mutex
  | .idle | .startLock | .stopTransmit | .exchangeLock _ => []
  | .startCheck | .startIndex | .startSocket | .startSetup .. | .startClose _ => [.lifecycle]
  | .stopReceive => [.transmit]
  | .stopLifecycle => [.receive, .transmit]
  | .stopCheck | .stopClose _ => [.lifecycle, .receive, .transmit]
  | .exchangeLifecycle direction => [direction.mutex]
  | .exchangeCheck direction | .exchangeUnlock direction _ => [.lifecycle, direction.mutex]
  | .exchangePoll direction _ | .exchangeFrame direction _ => [direction.mutex]
  | .leaving held _ => held

/-- The mutex that the thread waits for. -/
def awaited : Call → Option Mutex
  | .startLock | .stopLifecycle | .exchangeLifecycle _ => some .lifecycle
  | .stopTransmit => some .transmit
  | .stopReceive => some .receive
  | .exchangeLock direction => some direction.mutex
  | _ => none

def rank : Mutex → Fin 3
  | .transmit => 0
  | .receive => 1
  | .lifecycle => 2

theorem rank_lt {call : Call} {mutex mutex' : Mutex} (hheld : mutex ∈ held call)
    (hawaited : awaited call = some mutex') : rank mutex < rank mutex' := by
  cases call with
  | stopReceive =>
    cases hawaited
    cases List.mem_singleton.mp hheld
    decide
  | stopLifecycle =>
    cases hawaited
    rcases List.mem_pair.mp hheld with rfl | rfl <;> decide
  | exchangeLifecycle direction =>
    cases hawaited
    cases List.mem_singleton.mp hheld
    cases direction <;> decide
  | startLock | stopTransmit | exchangeLock _ => cases hheld
  | _ => cases hawaited

/-- What a thread relies on in a call. -/
def CallOk (s : System) (t : ThreadId) : Call → Prop
  | .idle => True
  | .startIndex | .startSocket => s.mine t = none ∧ s.socket = none
  | .startSetup fd _ | .startClose fd =>
    s.socket = none ∧ ∃ n, s.mine t = some n ∧ s.files fd = some (.socket n)
  | .stopClose fd => s.mine t = none ∧ s.socket = none ∧ ∃ n, s.files fd = some (.socket n)
  | .exchangeUnlock direction taken | .exchangePoll direction taken
  | .exchangeFrame direction taken =>
    s.mine t = none ∧ s.socket = some taken.socket ∧ taken = s.take direction taken.socket
  | .leaving held outcome =>
    held.Nodup ∧ (outcome = .error → ∀ n, s.mine t = some n → some (.socket n) ∈ s.closed)
  | .startLock | .startCheck | .stopTransmit | .stopReceive | .stopLifecycle | .stopCheck
  | .exchangeLock _ | .exchangeLifecycle _ | .exchangeCheck _ => s.mine t = none

/-- The sockets of `start` in the descriptor table, and those that were closed. -/
structure Books (s : System) : Prop where
  running : ∀ fd, s.socket = some fd → ∃ n, s.files fd = some (.socket n) ∧ s.period = some n
  numbered : ∀ fd n, s.files fd = some (.socket n) → n < s.opened ∧ some (.socket n) ∉ s.closed
  unique : ∀ fd fd' n, s.files fd = some (.socket n) → s.files fd' = some (.socket n) → fd = fd'
  ours : ∀ file ∈ s.closed, ∃ n < s.opened, file = some (.socket n)
  once : s.closed.Nodup

structure Inv (s : System) : Prop where
  owned : Owned s.owner fun t => held (s.call t)
  calls : ∀ t, CallOk s t (s.call t)
  books : Books s

section
variable {s s' : System} {t : ThreadId} {call : Call}

theorem inv_initial (others : Fd → Bool) : Inv (initial others) where
  owned := fun _ _ => ⟨nofun, fun h => by cases h⟩
  calls := fun _ => trivial
  books :=
    { running := nofun
      numbered := fun fd n h => by simp [initial] at h
      unique := fun fd fd' n h => by simp [initial] at h
      ours := nofun
      once := .nil }

theorem held_update (s : System) (t : ThreadId) (call : Call) :
    (fun u => held (Function.update s.call t call u)) =
      Function.update (fun u => held (s.call u)) t (held call) := by
  funext u
  by_cases hu : u = t <;> simp [hu]

theorem owned_same (h : Inv s) (hheld : held call = held (s.call t)) :
    Owned s.owner fun u => held (Function.update s.call t call u) := by
  rw [held_update, hheld, Function.update_eq_self]
  exact h.owned

theorem calls_update (hothers : ∀ u, u ≠ t → CallOk s' u (s.call u)) (hok : CallOk s' t call)
    (hcall : s'.call = Function.update s.call t call) (u : ThreadId) : CallOk s' u (s'.call u) := by
  rw [hcall]
  by_cases hu : u = t
  · rw [hu, Function.update_self]
    exact hok
  · rw [Function.update_of_ne hu]
    exact hothers u hu

theorem callOk_congr {u : ThreadId} (h : CallOk s u call) (hmine : s'.mine u = s.mine u)
    (hsocket : s'.socket = s.socket) (hclosed : s'.closed = s.closed)
    (hfiles : ∀ fd n, s'.files fd = some (.socket n) ↔ s.files fd = some (.socket n))
    (htake : ∀ direction fd, s'.take direction fd = s.take direction fd) : CallOk s' u call := by
  cases call with
  | idle => trivial
  | _ => simpa only [CallOk, hmine, hsocket, hclosed, hfiles, htake] using h

theorem callOk_goto {u : ThreadId} {call' : Call} (h : CallOk s u call') :
    CallOk (s.goto t call) u call' :=
  callOk_congr h rfl rfl rfl (fun _ _ => Iff.rfl) fun _ _ => rfl

theorem callOk_owner {u : ThreadId} {owner : Mutex → Option ThreadId} (h : CallOk s u call) :
    CallOk { s with owner } u call :=
  callOk_congr h rfl rfl rfl (fun _ _ => Iff.rfl) fun _ _ => rfl

theorem inv_goto (h : Inv s) (hheld : held call = held (s.call t)) (hok : CallOk s t call) :
    Inv (s.goto t call) where
  owned := owned_same h hheld
  calls := calls_update (fun u _ => callOk_goto (h.calls u)) (callOk_goto hok) rfl
  books := ⟨h.books.running, h.books.numbered, h.books.unique, h.books.ours, h.books.once⟩

theorem inv_acquire (h : Inv s) {mutex : Mutex} (hs : s.acquire t mutex call = some s')
    (hheld : held call = mutex :: held (s.call t)) (hok : CallOk s t call) : Inv s' := by
  simp only [System.acquire, Option.ite_none_right_eq_some, Option.some.injEq] at hs
  obtain ⟨hfree, rfl⟩ := hs
  refine ⟨?_, calls_update (fun u _ => callOk_owner (callOk_goto (h.calls u)))
    (callOk_owner (callOk_goto hok)) rfl,
    ⟨h.books.running, h.books.numbered, h.books.unique, h.books.ours, h.books.once⟩⟩
  dsimp only [System.goto]
  rw [held_update, hheld]
  exact h.owned.acquire hfree

theorem inv_release (h : Inv s) {mutex : Mutex} (hheld : held (s.call t) = mutex :: held call)
    (hmutex : mutex ∉ held call) (hok : CallOk s t call) : Inv (s.release t mutex call) := by
  refine ⟨?_, calls_update (fun u _ => callOk_owner (callOk_goto (h.calls u)))
    (callOk_owner (callOk_goto hok)) rfl,
    ⟨h.books.running, h.books.numbered, h.books.unique, h.books.ours, h.books.once⟩⟩
  dsimp only [System.release, System.goto]
  rw [held_update]
  exact h.owned.release hheld hmutex

/-- What the owner of the lifecycle mutex changes is nothing that another thread relies on, as long
as no exchange has the socket. -/
theorem callOk_other {u : ThreadId} (hlifecycle : Mutex.lifecycle ∉ held call)
    (hsocket : s.socket = none ∨ ∀ direction : Direction, direction.mutex ∉ held call)
    (hmine : s'.mine u = s.mine u) (hclosed : ∀ file ∈ s.closed, file ∈ s'.closed)
    (h : CallOk s u call) : CallOk s' u call := by
  have hexchange : ∀ (direction : Direction) (taken : Taken), s.socket = some taken.socket →
      held call = [direction.mutex] → CallOk s' u call := by
    intro direction taken htaken hheld
    rcases hsocket with hnone | hnot
    · rw [hnone] at htaken
      cases htaken
    · exact absurd (hheld ▸ List.mem_singleton_self _) (hnot direction)
  cases call with
  | idle => trivial
  | leaving held outcome =>
    refine ⟨h.1, fun houtcome n hn => hclosed _ (h.2 houtcome n ?_)⟩
    rw [← hmine, hn]
  | exchangePoll direction taken => exact hexchange direction taken h.2.1 rfl
  | exchangeFrame direction taken => exact hexchange direction taken h.2.1 rfl
  | startLock | stopTransmit | stopReceive | stopLifecycle | exchangeLock _ | exchangeLifecycle _ =>
    exact hmine.trans h
  | _ => simp [held] at hlifecycle

theorem inv_lifecycle (h : Inv s) {rest : List Mutex} (hbefore : held (s.call t) = .lifecycle :: rest)
    (hafter : held call = .lifecycle :: rest) (hcall : s'.call = s.call) (howner : s'.owner = s.owner)
    (hsocket : s.socket = none ∨ ∀ direction : Direction, direction.mutex ∈ held (s.call t))
    (hmine : ∀ u, u ≠ t → s'.mine u = s.mine u) (hclosed : ∀ file ∈ s.closed, file ∈ s'.closed)
    (hok : CallOk s' t call) (hbooks : Books s') : Inv (s'.goto t call) := by
  have hnot : ∀ u, u ≠ t → ∀ mutex, mutex ∈ held (s.call t) → mutex ∉ held (s.call u) :=
    fun u hu mutex ht hu' => hu (h.owned.exclusive hu' ht)
  have hgoto : (s'.goto t call).call = Function.update s.call t call := by rw [System.goto, hcall]
  refine ⟨?_, calls_update (fun u hu => callOk_goto ?_) (callOk_goto hok) hgoto,
    ⟨hbooks.running, hbooks.numbered, hbooks.unique, hbooks.ours, hbooks.once⟩⟩
  · dsimp only [System.goto]
    rw [hcall, howner]
    exact owned_same h (hafter.trans hbefore.symm)
  · exact callOk_other (hnot u hu _ (hbefore ▸ List.mem_cons_self))
      (hsocket.imp_right fun hall direction => hnot u hu _ (hall direction)) (hmine u hu) hclosed
      (h.calls u)

theorem books_openSocket (h : Books s) {fd : Fd} (hsocket : s.socket = none) :
    Books (s.openSocket t fd) where
  running := fun fd' h' => by
    rw [show (s.openSocket t fd).socket = none from hsocket] at h'
    cases h'
  numbered := fun fd' n hn => by
    simp only [System.openSocket] at hn ⊢
    by_cases hfd : fd' = fd
    · simp only [hfd, Function.update_self, Option.some.injEq, File.socket.injEq] at hn
      refine ⟨by omega, fun hclosed => ?_⟩
      obtain ⟨m, hm, heq⟩ := h.ours _ hclosed
      cases heq
      omega
    · rw [Function.update_of_ne hfd] at hn
      exact ⟨Nat.lt_succ_of_lt (h.numbered fd' n hn).1, (h.numbered fd' n hn).2⟩
  unique := fun fd₁ fd₂ n h₁ h₂ => by
    have hnew : ∀ fd', s.files fd' = some (.socket s.opened) → False := fun fd' h' =>
      Nat.lt_irrefl _ (h.numbered fd' _ h').1
    simp only [System.openSocket] at h₁ h₂
    by_cases hfd₁ : fd₁ = fd
    · by_cases hfd₂ : fd₂ = fd
      · rw [hfd₁, hfd₂]
      · simp only [hfd₁, Function.update_self, Option.some.injEq, File.socket.injEq] at h₁
        rw [Function.update_of_ne hfd₂, ← h₁] at h₂
        exact (hnew fd₂ h₂).elim
    · rw [Function.update_of_ne hfd₁] at h₁
      by_cases hfd₂ : fd₂ = fd
      · simp only [hfd₂, Function.update_self, Option.some.injEq, File.socket.injEq] at h₂
        exact (hnew fd₁ (h₂ ▸ h₁)).elim
      · rw [Function.update_of_ne hfd₂] at h₂
        exact h.unique fd₁ fd₂ n h₁ h₂
  ours := fun file hfile => by
    obtain ⟨n, hn, rfl⟩ := h.ours file hfile
    exact ⟨n, Nat.lt_succ_of_lt hn, rfl⟩
  once := h.once

theorem books_close (h : Books s) {fd : Fd} {n : Nat} (hsocket : s.socket = none)
    (hfd : s.files fd = some (.socket n)) : Books (s.close fd) where
  running := fun fd' h' => by
    rw [show (s.close fd).socket = none from hsocket] at h'
    cases h'
  numbered := fun fd' m hm => by
    simp only [System.close] at hm ⊢
    by_cases hne : fd' = fd
    · simp [hne] at hm
    · rw [Function.update_of_ne hne] at hm
      refine ⟨(h.numbered fd' m hm).1, fun hclosed => ?_⟩
      rcases List.mem_cons.mp hclosed with heq | hclosed
      · exact hne (h.unique fd' fd m hm heq.symm)
      · exact (h.numbered fd' m hm).2 hclosed
  unique := fun fd₁ fd₂ m h₁ h₂ => by
    simp only [System.close] at h₁ h₂
    by_cases hfd₁ : fd₁ = fd
    · simp [hfd₁] at h₁
    · by_cases hfd₂ : fd₂ = fd
      · simp [hfd₂] at h₂
      · rw [Function.update_of_ne hfd₁] at h₁
        rw [Function.update_of_ne hfd₂] at h₂
        exact h.unique fd₁ fd₂ m h₁ h₂
  ours := fun file hfile => by
    rcases List.mem_cons.mp hfile with rfl | hfile
    · exact ⟨n, (h.numbered fd n hfd).1, hfd⟩
    · exact h.ours file hfile
  once := List.nodup_cons.mpr ⟨hfd ▸ (h.numbered fd n hfd).2, h.once⟩

theorem books_run (h : Books s) {fd : Fd} {n : Nat} {bytes : MacAddress}
    (hmine : s.mine t = some n) (hfd : s.files fd = some (.socket n)) : Books (s.run t bytes fd) :=
  { h with
    running := fun fd' h' => by
      cases h'
      exact ⟨n, hfd, hmine⟩ }

theorem books_halt (h : Books s) : Books s.halt := { h with running := nofun }

theorem inv_advanceStart {configuration : Configuration} {answer : Answer} (h : Inv s)
    (hcall : s.call t = call) (hs : s.advanceStart configuration t call answer = some s') :
    Inv s' := by
  have hok := h.calls t
  rw [hcall] at hok
  unfold System.advanceStart at hs
  split at hs
  · exact inv_acquire h hs (by rw [hcall]; rfl) hok
  · have hmine : s.mine t = none := hok
    have hleave : ∀ outcome, CallOk s t (.leaving [.lifecycle] outcome) := fun outcome =>
      ⟨List.nodup_singleton _, fun _ n hn => by simp [hmine] at hn⟩
    split at hs
    · cases hs
      exact inv_goto h (by rw [hcall]; rfl) (hleave _)
    · rename_i hsocket
      split at hs
      · cases hs
        exact inv_goto h (by rw [hcall]; rfl) (hleave _)
      · cases hs
        exact inv_goto h (by rw [hcall]; rfl) ⟨hmine, not_not.mp hsocket⟩
  · rename_i index
    obtain ⟨hmine, hsocket⟩ : s.mine t = none ∧ s.socket = none := hok
    have hbooks : Books { s with interfaceIndex := index } :=
      ⟨h.books.running, h.books.numbered, h.books.unique, h.books.ours, h.books.once⟩
    dsimp only at hs
    split at hs
    · cases hs
      exact inv_lifecycle h (by rw [hcall]; rfl) rfl rfl rfl (Or.inl hsocket)
        (fun _ _ => rfl) (fun _ hf => hf)
        ⟨List.nodup_singleton _, fun _ n hn => by simp [hmine] at hn⟩ hbooks
    · cases hs
      exact inv_lifecycle h (by rw [hcall]; rfl) rfl rfl rfl (Or.inl hsocket)
        (fun _ _ => rfl) (fun _ hf => hf) ⟨hmine, hsocket⟩ hbooks
  · obtain ⟨hmine, -⟩ : s.mine t = none ∧ s.socket = none := hok
    cases hs
    exact inv_goto h (by rw [hcall]; rfl)
      ⟨List.nodup_singleton _, fun _ n hn => by simp [hmine] at hn⟩
  · rename_i fd
    obtain ⟨-, hsocket⟩ : s.mine t = none ∧ s.socket = none := hok
    simp only [Option.ite_none_right_eq_some, Option.some.injEq] at hs
    obtain ⟨-, rfl⟩ := hs
    exact inv_lifecycle h (by rw [hcall]; rfl) rfl rfl rfl (Or.inl hsocket)
      (fun u hu => Function.update_of_ne hu ..) (fun _ hf => hf)
      ⟨hsocket, s.opened, Function.update_self .., Function.update_self ..⟩
      (books_openSocket h.books hsocket)
  · cases hs
    exact inv_goto h (by rw [hcall]; rfl) hok
  · rename_i fd bytes
    obtain ⟨hsocket, n, hmine, hfd⟩ :
        s.socket = none ∧ ∃ n, s.mine t = some n ∧ s.files fd = some (.socket n) := hok
    cases hs
    exact inv_lifecycle h (by rw [hcall]; rfl) rfl rfl rfl (Or.inl hsocket)
      (fun _ _ => rfl) (fun _ hf => hf) ⟨List.nodup_singleton _, nofun⟩
      (books_run h.books hmine hfd)
  · obtain ⟨setup, -, rfl⟩ := Option.map_eq_some_iff.mp hs
    exact inv_goto h (by rw [hcall]; rfl) hok
  · rename_i fd
    obtain ⟨hsocket, n, hmine, hfd⟩ :
        s.socket = none ∧ ∃ n, s.mine t = some n ∧ s.files fd = some (.socket n) := hok
    cases hs
    refine inv_lifecycle h (by rw [hcall]; rfl) rfl rfl rfl (Or.inl hsocket)
      (fun _ _ => rfl) (fun _ hf => List.mem_cons_of_mem _ hf)
      ⟨List.nodup_singleton _, fun _ m hm => ?_⟩ (books_close h.books hsocket hfd)
    have hnm : n = m := Option.some.inj (hmine.symm.trans hm)
    subst hnm
    exact hfd ▸ List.mem_cons_self
  · cases hs

theorem inv_advanceStop {answer : Answer} (h : Inv s) (hcall : s.call t = call)
    (hs : s.advanceStop t call answer = some s') : Inv s' := by
  have hok := h.calls t
  rw [hcall] at hok
  have hclose : ∀ fd outcome, s.call t = .stopClose fd → CallOk s t (.stopClose fd) →
      Inv ((s.close fd).goto t (.leaving [.lifecycle, .receive, .transmit] outcome)) := by
    intro fd outcome hcall ⟨hmine, hsocket, n, hfd⟩
    refine inv_lifecycle h (by rw [hcall]; rfl) rfl rfl rfl (Or.inl hsocket)
      (fun _ _ => rfl) (fun _ hf => List.mem_cons_of_mem _ hf)
      ⟨by decide, fun _ m hm => ?_⟩ (books_close h.books hsocket hfd)
    rw [show (s.close fd).mine t = none from hmine] at hm
    cases hm
  unfold System.advanceStop at hs
  split at hs
  · exact inv_acquire h hs (by rw [hcall]; rfl) hok
  · exact inv_acquire h hs (by rw [hcall]; rfl) hok
  · exact inv_acquire h hs (by rw [hcall]; rfl) hok
  · have hmine : s.mine t = none := hok
    split at hs
    · cases hs
      exact inv_goto h (by rw [hcall]; rfl) ⟨by decide, nofun⟩
    · rename_i fd hsocket
      obtain ⟨n, hfd, -⟩ := h.books.running fd hsocket
      cases hs
      refine inv_lifecycle h (by rw [hcall]; rfl) rfl rfl rfl
        (Or.inr fun direction => ?_) (fun _ _ => rfl) (fun _ hf => hf) ⟨hmine, rfl, n, hfd⟩
        (books_halt h.books)
      rw [hcall]
      cases direction <;> decide
  · cases hs
    exact hclose _ _ hcall hok
  · cases hs
    exact hclose _ _ hcall hok
  · cases hs

theorem inv_advanceExchange {answer : Answer} (h : Inv s) (hcall : s.call t = call)
    (hs : s.advanceExchange t call answer = some s') : Inv s' := by
  have hok := h.calls t
  rw [hcall] at hok
  have hleave : ∀ held, held.Nodup → s.mine t = none → ∀ outcome,
      CallOk s t (.leaving held outcome) :=
    fun held hheld hmine outcome => ⟨hheld, fun _ n hn => by simp [hmine] at hn⟩
  unfold System.advanceExchange at hs
  split at hs
  · exact inv_acquire h hs (by rw [hcall]; rfl) hok
  · exact inv_acquire h hs (by rw [hcall]; rfl) hok
  · rename_i direction
    have hmine : s.mine t = none := hok
    split at hs
    · cases hs
      refine inv_goto h (by rw [hcall]; rfl) (hleave _ ?_ hmine _)
      cases direction <;> decide
    · rename_i fd hsocket
      cases hs
      exact inv_goto h (by rw [hcall]; rfl) ⟨hmine, hsocket, rfl⟩
  · rename_i direction taken
    cases hs
    refine inv_release h (by rw [hcall]; rfl) ?_ hok
    cases direction <;> simp [held, Direction.mutex]
  · cases hs
    exact h
  · cases hs
    exact inv_goto h (by rw [hcall]; rfl) hok
  · have hmine : s.mine t = none := hok.1
    cases hs
    exact inv_goto h (by rw [hcall]; rfl) (hleave _ (List.nodup_singleton _) hmine _)
  · cases hs
    exact inv_goto h (by rw [hcall]; rfl) hok
  · have hmine : s.mine t = none := hok.1
    cases hs
    exact inv_goto h (by rw [hcall]; rfl) (hleave _ (List.nodup_singleton _) hmine _)
  · have hmine : s.mine t = none := hok.1
    cases hs
    exact inv_goto h (by rw [hcall]; rfl) (hleave _ (List.nodup_singleton _) hmine _)
  · cases hs

theorem inv_leave (h : Inv s) {mutexes : List Mutex} {outcome : Outcome}
    (hcall : s.call t = .leaving mutexes outcome) : Inv (s.leave t mutexes outcome) := by
  have hok := h.calls t
  rw [hcall] at hok
  cases mutexes with
  | nil => exact inv_goto h (by rw [hcall]; rfl) trivial
  | cons mutex rest =>
    obtain ⟨hnodup, herror⟩ := hok
    obtain ⟨hmutex, hrest⟩ := List.nodup_cons.mp hnodup
    exact inv_release h (by rw [hcall]; rfl) hmutex ⟨hrest, herror⟩

theorem inv_call (h : Inv s) (hidle : s.call t = .idle) (operation : Operation) :
    Inv { s.goto t operation.first with mine := Function.update s.mine t none } := by
  refine ⟨owned_same h ?_, calls_update (fun u hu => ?_) ?_ rfl,
    ⟨h.books.running, h.books.numbered, h.books.unique, h.books.ours, h.books.once⟩⟩
  · rw [hidle]
    cases operation <;> rfl
  · have hmine : Function.update s.mine t none u = s.mine u := Function.update_of_ne hu ..
    exact callOk_congr (h.calls u) hmine rfl rfl (fun _ _ => Iff.rfl) fun _ _ => rfl
  · cases operation <;> exact Function.update_self ..

theorem inv_files (h : Inv s) {files : Fd → Option File}
    (hsame : ∀ fd n, files fd = some (.socket n) ↔ s.files fd = some (.socket n)) :
    Inv { s with files } := by
  refine ⟨h.owned, fun u => ?_, ?_⟩
  · exact callOk_congr (h.calls u) rfl rfl rfl hsame fun _ _ => rfl
  · constructor
    · simpa only [hsame] using h.books.running
    · simpa only [hsame] using h.books.numbered
    · simpa only [hsame] using h.books.unique
    · exact h.books.ours
    · exact h.books.once

theorem inv_step {configuration : Configuration} {action : Action} (h : Inv s)
    (hs : step configuration s action = some s') : Inv s' := by
  cases action with
  | call t operation =>
    simp only [step, Option.ite_none_right_eq_some, Option.some.injEq] at hs
    obtain ⟨hidle, rfl⟩ := hs
    exact inv_call h hidle operation
  | advance t answer =>
    simp only [step] at hs
    split at hs
    · rename_i mutexes outcome hcall
      cases hs
      exact inv_leave h hcall
    · simp only [Option.orElse_eq_orElse, Option.orElse_eq_or, Option.or_eq_some_iff] at hs
      rcases hs with hs | ⟨-, hs | ⟨-, hs⟩⟩
      · exact inv_advanceStart h rfl hs
      · exact inv_advanceStop h rfl hs
      · exact inv_advanceExchange h rfl hs
  | openOther fd =>
    simp only [step, Option.ite_none_right_eq_some, Option.some.injEq] at hs
    obtain ⟨hfree, rfl⟩ := hs
    refine inv_files h fun fd' n => ?_
    by_cases hfd : fd' = fd <;> simp [hfd, hfree]
  | closeOther fd =>
    simp only [step, Option.ite_none_right_eq_some, Option.some.injEq] at hs
    obtain ⟨hother, rfl⟩ := hs
    refine inv_files h fun fd' n => ?_
    by_cases hfd : fd' = fd <;> simp [hfd, hother]

/-- A thread in `poll`, `sendto` or `recvfrom`, at any moment of it, has the open socket of the
running period, and the interface and address that go with it. -/
def UsesOpenSocket (s : System) : Prop :=
  ∀ t direction taken,
    s.call t = .exchangePoll direction taken ∨ s.call t = .exchangeFrame direction taken →
      s.socket = some taken.socket ∧ taken = s.take direction taken.socket ∧
        ∃ n, s.period = some n ∧ taken.period = some n ∧ s.files taken.socket = some (.socket n)

/-- Nothing but sockets of `start` is closed, and each of them once, before the `start` that has
opened it fails. -/
structure ClosesOnce (s : System) : Prop where
  once : s.closed.Nodup
  ours : ∀ file ∈ s.closed, ∃ n < s.opened, file = some (.socket n)
  gone : ∀ fd n, s.files fd = some (.socket n) → some (.socket n) ∉ s.closed
  failed : ∀ t mutexes n, s.call t = .leaving mutexes .error → s.mine t = some n →
    some (.socket n) ∈ s.closed

/-- No calls wait for mutexes that they hold among themselves. -/
def Unblocked (s : System) : Prop :=
  ∀ threads : Set ThreadId, ¬ Deadlocked (fun t mutex => s.owner mutex = some t)
    (fun t mutex => awaited (s.call t) = some mutex) threads

structure Safe (s : System) : Prop where
  uses : UsesOpenSocket s
  closes : ClosesOnce s
  unblocked : Unblocked s

theorem inv_uses (h : Inv s) : UsesOpenSocket s := by
  intro t direction taken hcall
  have hok : CallOk s t (.exchangePoll direction taken) := by
    have hok := h.calls t
    rcases hcall with hcall | hcall
    · rwa [hcall] at hok
    · rw [hcall] at hok
      exact hok
  obtain ⟨-, hsocket, htaken⟩ := hok
  obtain ⟨n, hfd, hperiod⟩ := h.books.running _ hsocket
  exact ⟨hsocket, htaken, n, hperiod, (congrArg Taken.period htaken).trans hperiod, hfd⟩

theorem inv_closes (h : Inv s) : ClosesOnce s where
  once := h.books.once
  ours := h.books.ours
  gone := fun fd n hfd => (h.books.numbered fd n hfd).2
  failed := fun t mutexes n hcall hmine => by
    have hok := h.calls t
    rw [hcall] at hok
    exact hok.2 rfl n hmine

theorem inv_unblocked (h : Inv s) : Unblocked s :=
  not_deadlocked rank fun _ _ _ hholds hawaits => rank_lt ((h.owned _ _).mp hholds) hawaits

theorem socket_safe {configuration : Configuration} {others : Fd → Bool}
    (h : Runs.Reached (step configuration) (fun _ _ => True) (initial others) s) : Safe s :=
  have hinv := h.invariant (inv_initial others) fun _ _ _ hinv _ hs => inv_step hinv hs
  ⟨inv_uses hinv, inv_closes hinv, inv_unblocked hinv⟩

end

/-- A thread of each operation: a failed start, then a period whose stop waits for a transmit. -/
def oneFrame : List Action :=
  [.call 0 .start, .advance 0 (.value 0), .advance 0 (.value 0), .advance 0 (.value 2),
    .advance 0 (.value 3), .advance 0 .failed, .advance 0 (.value 0), .advance 0 (.value 0),
    .advance 0 (.value 0), .openOther 3,
    .call 0 .start, .advance 0 (.value 0), .advance 0 (.value 0), .advance 0 (.value 2),
    .advance 0 (.value 4), .advance 0 (.value 0), .advance 0 (.value 0),
    .advance 0 (.address [2, 0, 0, 0, 0, 1]), .advance 0 (.value 0), .advance 0 (.value 0),
    .call 1 (.exchange .transmit), .advance 1 (.value 0), .advance 1 (.value 0),
    .advance 1 (.value 0), .advance 1 (.value 0), .advance 1 .again, .advance 1 (.value 1),
    .call 2 .stop]

def etherCat : Configuration := ⟨[0x65, 0x74, 0x68, 0x30], some 0x88A4, false⟩

theorem socket_safe_oneFrame : ∃ s,
    Runs.perform (step etherCat) (initial fun fd => fd < 3) oneFrame = some s ∧
      s.call 1 = .exchangeFrame .transmit ⟨4, some (2, [2, 0, 0, 0, 0, 1]), some 1⟩ ∧
      s.call 2 = .stopTransmit ∧ s.closed = [some (.socket 0)] ∧ Safe s := by
  have hsome : (Runs.perform (step etherCat) (initial fun fd => fd < 3) oneFrame).isSome := by
    decide +kernel
  obtain ⟨s, hs⟩ := Option.isSome_iff_exists.mp hsome
  have hstate : (Runs.perform (step etherCat) (initial fun fd => fd < 3) oneFrame).map
      (fun s => (s.call 1, s.call 2, s.closed)) =
        some (.exchangeFrame .transmit ⟨4, some (2, [2, 0, 0, 0, 0, 1]), some 1⟩, .stopTransmit,
          [some (.socket 0)]) := by decide +kernel
  rw [hs, Option.map_some, Option.some.injEq] at hstate
  simp only [Prod.mk.injEq] at hstate
  obtain ⟨htransmit, hstop, hclosed⟩ := hstate
  exact ⟨s, hs, htransmit, hstop, hclosed,
    socket_safe (Runs.reached_of_perform hs (Runs.performs_always (fun _ _ => trivial) _))⟩

end SimPLCity.SocketSafety
