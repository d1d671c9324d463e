import Mathlib.Data.Nat.Bitwise
import Mathlib.Data.Nat.ModEq
import Mathlib.Algebra.Group.Nat.Defs

/-! Hashes that fold a word with exclusive or and a multiplication modulo a power of two. An odd
factor loses nothing of the state, so that words of which one letter differs never collide;
words that differ in more than one may. -/

namespace SimPLCity.XorMultiplyHash

/-- One letter, in `w` bits with the factor `m`. -/
def step (w m h c : Nat) : Nat := (h ^^^ c) * m % 2 ^ w

def digest (w m : Nat) : Nat → List Nat → Nat := List.foldl (step w m)

section
variable {w m : Nat}

theorem digest_append (h : Nat) (s t : List Nat) :
    digest w m h (s ++ t) = digest w m (digest w m h s) t := List.foldl_append ..

theorem step_lt (h c : Nat) : step w m h c < 2 ^ w := Nat.mod_lt _ (Nat.two_pow_pos w)

theorem digest_lt {h : Nat} (hh : h < 2 ^ w) (s : List Nat) : digest w m h s < 2 ^ w := by
  induction s generalizing h with
  | nil => exact hh
  | cons c s ih => exact ih (step_lt h c)

theorem mul_injective (hm : m.Coprime 2) {a b : Nat} (ha : a < 2 ^ w) (hb : b < 2 ^ w)
    (h : a * m % 2 ^ w = b * m % 2 ^ w) : a = b := by
  have hcoprime : (2 ^ w).gcd m = 1 := (Nat.Coprime.pow_right w hm).symm
  have hmod : a ≡ b [MOD 2 ^ w] := Nat.ModEq.cancel_right_of_coprime hcoprime h
  rwa [Nat.ModEq, Nat.mod_eq_of_lt ha, Nat.mod_eq_of_lt hb] at hmod

theorem step_injective (hm : m.Coprime 2) {h h' c c' : Nat} (hh : h < 2 ^ w) (hh' : h' < 2 ^ w)
    (hc : c < 2 ^ w) (hc' : c' < 2 ^ w) (heq : step w m h c = step w m h' c') :
    h ^^^ c = h' ^^^ c' :=
  mul_injective hm (Nat.xor_lt_two_pow hh hc) (Nat.xor_lt_two_pow hh' hc') heq

theorem digest_injective (hm : m.Coprime 2) {s : List Nat} (hs : ∀ c ∈ s, c < 2 ^ w) {h h' : Nat}
    (hh : h < 2 ^ w) (hh' : h' < 2 ^ w) (heq : digest w m h s = digest w m h' s) : h = h' := by
  induction s generalizing h h' with
  | nil => exact heq
  | cons c s ih =>
    have hc := hs c (List.mem_cons_self ..)
    have hstep := ih (fun d hd => hs d (List.mem_cons_of_mem c hd)) (step_lt h c) (step_lt h' c) heq
    exact Nat.xor_left_injective (step_injective hm hh hh' hc hc hstep)

theorem digest_ne_of_letter (hm : m.Coprime 2) {h : Nat} (hh : h < 2 ^ w) {s t : List Nat}
    {c d : Nat} (hc : c < 2 ^ w) (hd : d < 2 ^ w) (ht : ∀ e ∈ t, e < 2 ^ w) (hne : c ≠ d) :
    digest w m h (s ++ c :: t) ≠ digest w m h (s ++ d :: t) := by
  intro heq
  rw [digest_append, digest_append] at heq
  have hstep : step w m (digest w m h s) c = step w m (digest w m h s) d :=
    digest_injective hm ht (step_lt _ c) (step_lt _ d) heq
  exact hne (Nat.xor_right_injective
    (step_injective hm (digest_lt hh s) (digest_lt hh s) hc hd hstep))

end

end SimPLCity.XorMultiplyHash
