import Mathlib.Data.List.Basic

/-! Chains of nodes that are linked by a partial function and end where it has no value. -/

namespace SimPLCity.LinkedChain

variable {α : Type*} {next next' : α → Option α} {p : Option α} {l : List α}

/-- From `p` on the links lead through `l` to the end. -/
inductive Chain (next : α → Option α) : Option α → List α → Prop
  | nil : Chain next none []
  | cons {a l} (h : Chain next (next a) l) : Chain next (some a) (a :: l)

theorem Chain.eq_nil (h : Chain next none l) : l = [] := by
  cases h
  rfl

theorem Chain.exists_cons {a : α} (h : Chain next (some a) l) :
    ∃ l', l = a :: l' ∧ Chain next (next a) l' := by
  cases h with
  | cons h => exact ⟨_, rfl, h⟩

/-- The nodes that `n` steps along the links visit. -/
def walk (next : α → Option α) : Nat → Option α → List α
  | 0, _ => []
  | _, none => []
  | n + 1, some a => a :: walk next n (next a)

theorem Chain.walk_eq (h : Chain next p l) {n : Nat} (hn : l.length ≤ n) : walk next n p = l := by
  induction h generalizing n with
  | nil => cases n <;> rfl
  | @cons a l _ ih =>
    obtain ⟨n, rfl⟩ := Nat.exists_eq_add_of_le' (Nat.lt_of_lt_of_le (Nat.succ_pos l.length) hn)
    rw [walk, ih (Nat.le_of_succ_le_succ hn)]

theorem Chain.congr (h : Chain next p l) (hsame : ∀ a ∈ l, next' a = next a) :
    Chain next' p l := by
  induction h with
  | nil => exact .nil
  | @cons a l _ ih =>
    refine .cons ?_
    rw [hsame a (by simp)]
    exact ih fun b hb => hsame b (List.mem_cons_of_mem a hb)

theorem Chain.concat {e i : α} (h : Chain next p l) (hnodup : l.Nodup) (hlast : l.getLast? = some e)
    (he : next' e = some i) (hi : next' i = none) (hsame : ∀ a ∈ l, a ≠ e → next' a = next a) :
    Chain next' p (l ++ [i]) := by
  induction h with
  | nil => cases hlast
  | @cons a l hrest ih =>
    refine .cons ?_
    cases l with
    | nil =>
      obtain rfl : a = e := Option.some.inj hlast
      rw [he]
      refine .cons ?_
      rw [hi]
      exact .nil
    | cons b l =>
      have hlast' : (b :: l).getLast? = some e := hlast
      have hae : a ≠ e := fun heq =>
        (List.nodup_cons.mp hnodup).1 (heq ▸ List.mem_of_getLast? hlast')
      rw [hsame a (by simp) hae]
      exact ih (List.nodup_cons.mp hnodup).2 hlast' fun c hc => hsame c (List.mem_cons_of_mem a hc)

end SimPLCity.LinkedChain
