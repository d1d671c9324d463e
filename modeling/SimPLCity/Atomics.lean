import SimPLCity.MaskedSections
import Mathlib.Data.Nat.Digits.Defs
import Mathlib.Data.Nat.Bitwise
import Mathlib.Data.BitVec

/-! The atomic operations that the compiler calls on a core without 64-bit atomics: byte by byte, in
a section with interrupts masked. Addresses are numbers, and no object wraps around. -/

namespace SimPLCity.Atomics
open MaskedSections

abbrev Byte := BitVec 8

abbrev Memory := Nat → Byte

inductive FetchOperation
  | add | sub | and | or | xor | nand
deriving DecidableEq, Repr

def FetchOperation.apply : FetchOperation → BitVec 64 → BitVec 64 → BitVec 64
  | .add, left, right => left + right
  | .sub, left, right => left - right
  | .and, left, right => left &&& right
  | .or, left, right => left ||| right
  | .xor, left, right => left ^^^ right
  | .nand, left, right => ~~~(left &&& right)

/-- `fetch` is `__atomic_fetch_add_8` and its like, `update` is `__atomic_add_fetch_8` and its like;
the last four are for objects of any size. -/
inductive Operation
  | load (p : Nat)
  | store (p : Nat) (value : BitVec 64)
  | exchange (p : Nat) (value : BitVec 64)
  | compareExchange (p expected : Nat) (desired : BitVec 64)
  | fetch (f : FetchOperation) (p : Nat) (value : BitVec 64)
  | update (f : FetchOperation) (p : Nat) (value : BitVec 64)
  | loadBytes (size : Nat) (object result : Nat)
  | storeBytes (size : Nat) (object value : Nat)
  | exchangeBytes (size : Nat) (object value result : Nat)
  | compareExchangeBytes (size : Nat) (object expected desired : Nat)
deriving DecidableEq, Repr

inductive Result
  | nothing
  | value (v : BitVec 64)
  | flag (b : Bool)
deriving DecidableEq, Repr

abbrev Prog := Program Nat Byte

def readBytes (p : Nat) : (remaining index : Nat) → BitVec 64 → Prog (BitVec 64)
  | 0, _, value => .ret value
  | n + 1, index, value =>
    .read (p + index) fun b => readBytes p n (index + 1) (value ||| b.setWidth 64 <<< (index * 8))

def readValue (p : Nat) : Prog (BitVec 64) := readBytes p 8 0 0

def writeBytes (p : Nat) (value : BitVec 64) : (remaining index : Nat) → Prog Unit
  | 0, _ => .ret ()
  | n + 1, index =>
    .write (p + index) ((value >>> (index * 8)).setWidth 8) (writeBytes p value n (index + 1))

def writeValue (p : Nat) (value : BitVec 64) : Prog Unit := writeBytes p value 8 0

def copyFrom (destination source : Nat) : (remaining index : Nat) → Prog Unit
  | 0, _ => .ret ()
  | n + 1, index =>
    .read (source + index) fun b =>
      .write (destination + index) b (copyFrom destination source n (index + 1))

def copyBytes (destination source : Nat) (size : Nat) : Prog Unit := copyFrom destination source size 0

def equalFrom (left right : Nat) : (remaining index : Nat) → Prog Bool
  | 0, _ => .ret true
  | n + 1, index =>
    .read (left + index) fun a => .read (right + index) fun b =>
      if a ≠ b then .ret false else equalFrom left right n (index + 1)

def equalBytes (left right : Nat) (size : Nat) : Prog Bool := equalFrom left right size 0

def exchangeFrom (object value result : Nat) : (remaining index : Nat) → Prog Unit
  | 0, _ => .ret ()
  | n + 1, index =>
    .read (object + index) fun previous =>
      .read (value + index) fun b =>
        .write (object + index) b
          (.write (result + index) previous (exchangeFrom object value result n (index + 1)))

def fetchUpdate (p : Nat) (operand : BitVec 64) (operation : BitVec 64 → BitVec 64 → BitVec 64) :
    Prog (BitVec 64) :=
  (readValue p).bind fun previous =>
    (writeValue p (operation previous operand)).bind fun _ => .ret previous

/-- What is done while interrupts are masked; `expected` is a plain object, which the compiler may
read in larger pieces. What `update` computes after the section reads no memory. -/
def body : Operation → Prog Result
  | .load p => (readValue p).bind fun v => .ret (.value v)
  | .store p value => (writeValue p value).bind fun _ => .ret .nothing
  | .exchange p value =>
    (readValue p).bind fun previous => (writeValue p value).bind fun _ => .ret (.value previous)
  | .compareExchange p expected desired =>
    (readValue p).bind fun current =>
      (readValue expected).bind fun e =>
        if current = e then (writeValue p desired).bind fun _ => .ret (.flag true)
        else (writeValue expected current).bind fun _ => .ret (.flag false)
  | .fetch f p value => (fetchUpdate p value f.apply).bind fun previous => .ret (.value previous)
  | .update f p value =>
    (fetchUpdate p value f.apply).bind fun previous => .ret (.value (f.apply previous value))
  | .loadBytes size object result => (copyBytes result object size).bind fun _ => .ret .nothing
  | .storeBytes size object value => (copyBytes object value size).bind fun _ => .ret .nothing
  | .exchangeBytes size object value result =>
    (exchangeFrom object value result size 0).bind fun _ => .ret .nothing
  | .compareExchangeBytes size object expected desired =>
    (equalBytes object expected size).bind fun equal =>
      if equal then (copyBytes object desired size).bind fun _ => .ret (.flag true)
      else (copyBytes expected object size).bind fun _ => .ret (.flag false)

/-- The little-endian number at `p`. -/
def wordAt (m : Memory) (p : Nat) : BitVec 64 :=
  BitVec.ofNat 64 (Nat.ofDigits 256 ((List.range' p 8).map fun a => (m a).toNat))

def setWord (m : Memory) (p : Nat) (v : BitVec 64) : Memory := fun a =>
  if p ≤ a ∧ a < p + 8 then BitVec.ofNat 8 (v.toNat / 256 ^ (a - p)) else m a

/-- The `size` bytes at `source`, copied. -/
def copied (m : Memory) (destination source : Nat) (size : Nat) : Memory := fun a =>
  if destination ≤ a ∧ a < destination + size then m (source + (a - destination)) else m a

/-- Whole words and objects at once. -/
def effect : Operation → Memory → Memory × Result
  | .load p, m => (m, .value (wordAt m p))
  | .store p value, m => (setWord m p value, .nothing)
  | .exchange p value, m => (setWord m p value, .value (wordAt m p))
  | .compareExchange p expected desired, m =>
    if wordAt m p = wordAt m expected then (setWord m p desired, .flag true)
    else (setWord m expected (wordAt m p), .flag false)
  | .fetch f p value, m => (setWord m p (f.apply (wordAt m p) value), .value (wordAt m p))
  | .update f p value, m =>
    (setWord m p (f.apply (wordAt m p) value), .value (f.apply (wordAt m p) value))
  | .loadBytes size object result, m => (copied m result object size, .nothing)
  | .storeBytes size object value, m => (copied m object value size, .nothing)
  | .exchangeBytes size object value result, m =>
    (fun a =>
      if object ≤ a ∧ a < object + size then m (value + (a - object))
      else if result ≤ a ∧ a < result + size then m (object + (a - result))
      else m a, .nothing)
  | .compareExchangeBytes size object expected desired, m =>
    if ∀ i < size, m (object + i) = m (expected + i) then (copied m object desired size, .flag true)
    else (copied m expected object size, .flag false)

/-- Two objects of one size do not overlap. -/
def Apart (p q : Nat) (size : Nat) : Prop := p + size ≤ q ∨ q + size ≤ p

instance (p q : Nat) (size : Nat) : Decidable (Apart p q size) :=
  inferInstanceAs (Decidable (_ ∨ _))

/-- The objects that the caller passes are distinct; a value may be exchanged in place. -/
def Distinct : Operation → Prop
  | .loadBytes size object result => Apart object result size
  | .storeBytes size object value => Apart object value size
  | .exchangeBytes size object value result =>
    Apart object value size ∧ Apart object result size ∧ (value = result ∨ Apart value result size)
  | .compareExchangeBytes size object expected desired =>
    Apart object expected size ∧ Apart object desired size
  | _ => True

instance : DecidablePred Distinct
  | .loadBytes _ _ _ => inferInstanceAs (Decidable (Apart _ _ _))
  | .storeBytes _ _ _ => inferInstanceAs (Decidable (Apart _ _ _))
  | .exchangeBytes _ _ _ _ => inferInstanceAs (Decidable (_ ∧ _ ∧ (_ ∨ _)))
  | .compareExchangeBytes _ _ _ _ => inferInstanceAs (Decidable (_ ∧ _))
  | .load _ | .store _ _ | .exchange _ _ | .compareExchange _ _ _ | .fetch _ _ _ | .update _ _ _ =>
    inferInstanceAs (Decidable True)

section
variable {m : Memory} {p q : Nat} {n index : Nat} {value : BitVec 64}

theorem byteDigit (b : Byte) : (b.setWidth 64 <<< (index * 8)).toNat = 256 ^ index * b.toNat % 2 ^ 64 := by
  have hb : b.toNat < 2 ^ 64 := lt_of_lt_of_le b.isLt (by norm_num)
  rw [BitVec.toNat_shiftLeft, BitVec.toNat_setWidth, Nat.mod_eq_of_lt hb, Nat.shiftLeft_eq, Nat.mul_comm,
    Nat.mul_comm index 8, Nat.pow_mul]

theorem readBytes_run (m : Memory) (p : Nat) {n : Nat} (index : Nat) (value : BitVec 64) (hn : index + n ≤ 8)
    (hvalue : value.toNat < 256 ^ index) :
    ∃ v : BitVec 64, (readBytes p n index value).run m = (m, v) ∧ v.toNat =
      value.toNat + 256 ^ index * Nat.ofDigits 256 ((List.range' (p + index) n).map fun a => (m a).toNat) := by
  induction n generalizing index value with
  | zero => exact ⟨value, rfl, by simp⟩
  | succ n ih =>
    have hb := (m (p + index)).isLt
    have hpow : 256 ^ (index + 1) ≤ 2 ^ 64 :=
      le_trans (Nat.pow_le_pow_right (by norm_num) (by omega : index + 1 ≤ 8)) (by norm_num)
    have hdigit : 256 ^ index * (m (p + index)).toNat < 2 ^ 64 := by
      refine lt_of_lt_of_le ?_ hpow
      rw [Nat.pow_succ]
      exact Nat.mul_lt_mul_of_pos_left (by simpa using hb) (by positivity)
    have hnext : (value ||| (m (p + index)).setWidth 64 <<< (index * 8)).toNat =
        value.toNat + 256 ^ index * (m (p + index)).toNat := by
      have h256 : (256 : Nat) ^ index = 2 ^ (8 * index) := by rw [Nat.pow_mul]
      rw [BitVec.toNat_or, byteDigit, Nat.mod_eq_of_lt hdigit, Nat.or_comm, h256,
        ← Nat.two_pow_add_eq_or_of_lt (by rwa [← h256]), Nat.add_comm]
    have hlt : (value ||| (m (p + index)).setWidth 64 <<< (index * 8)).toNat < 256 ^ (index + 1) := by
      rw [hnext, Nat.pow_succ]
      have hle : 256 ^ index * (m (p + index)).toNat ≤ 256 ^ index * 255 := Nat.mul_le_mul_left _ (by omega)
      omega
    obtain ⟨v, hrun, hv⟩ := ih _ _ (by omega) hlt
    refine ⟨v, hrun, ?_⟩
    rw [hv, hnext, List.range'_succ, List.map_cons, Nat.ofDigits_cons, ← Nat.add_assoc p index 1]
    ring

theorem readValue_run (m : Memory) (p : Nat) : (readValue p).run m = (m, wordAt m p) := by
  have hzero : (0 : BitVec 64).toNat = 0 := rfl
  obtain ⟨v, hrun, hv⟩ := readBytes_run m p (n := 8) 0 0 (by omega) (by rw [hzero]; norm_num)
  rw [hzero, Nat.pow_zero, Nat.one_mul, Nat.zero_add, Nat.add_zero] at hv
  rw [readValue, hrun, wordAt, ← hv, BitVec.ofNat_toNat, BitVec.setWidth_eq]

theorem writeBytes_byte (m : Memory) (a : Nat) : ((writeBytes p value n index).run m).1 a =
    if p + index ≤ a ∧ a < p + index + n then BitVec.ofNat 8 (value.toNat / 256 ^ (a - p)) else m a := by
  induction n generalizing index m with
  | zero =>
    rw [if_neg (by omega)]
    rfl
  | succ n ih =>
    rw [writeBytes, run_write, ih]
    by_cases ha : a = p + index
    · subst ha
      have hbyte : (value >>> (index * 8)).setWidth 8 = BitVec.ofNat 8 (value.toNat / 256 ^ index) := by
        apply BitVec.eq_of_toNat_eq
        rw [BitVec.toNat_setWidth, BitVec.toNat_ushiftRight, Nat.shiftRight_eq_div_pow, BitVec.toNat_ofNat,
          Nat.mul_comm index 8, Nat.pow_mul]
      simp [hbyte]
    · rw [Function.update_of_ne ha]
      by_cases hin : p + index ≤ a ∧ a < p + index + (n + 1)
      · rw [if_pos hin, if_pos (by omega)]
      · rw [if_neg hin, if_neg (by omega)]

theorem writeValue_run (m : Memory) (p : Nat) (v : BitVec 64) :
    (writeValue p v).run m = (setWord m p v, ()) :=
  Prod.ext (funext fun a => writeBytes_byte m a) rfl

theorem copyFrom_byte (m : Memory) (index : Nat) (hapart : p + index + n ≤ q + index ∨ q + index + n ≤ p + index)
    (a : Nat) : ((copyFrom p q n index).run m).1 a =
      if p + index ≤ a ∧ a < p + index + n then m (q + (a - p)) else m a := by
  induction n generalizing index m with
  | zero =>
    rw [if_neg (by omega)]
    rfl
  | succ n ih =>
    rw [copyFrom, run_read, run_write, ih _ _ (by omega)]
    by_cases ha : a = p + index
    · subst ha
      simp
    · by_cases hin : p + index ≤ a ∧ a < p + index + (n + 1)
      · rw [if_pos hin, if_pos (by omega), Function.update_of_ne (by omega)]
      · rw [if_neg hin, if_neg (by omega), Function.update_of_ne ha]

theorem copyBytes_run (m : Memory) (h : Apart p q n) : (copyBytes p q n).run m = (copied m p q n, ()) :=
  Prod.ext (funext fun a => copyFrom_byte m 0 h a) rfl

theorem equalFrom_run (m : Memory) : (equalFrom p q n index).run m =
    (m, decide (∀ i < n, m (p + (index + i)) = m (q + (index + i)))) := by
  induction n generalizing index with
  | zero => simp [equalFrom]
  | succ n ih =>
    rw [equalFrom, run_read, run_read]
    by_cases hfirst : m (p + index) = m (q + index)
    · rw [if_neg (by simpa using hfirst), ih]
      refine Prod.ext rfl (decide_eq_decide.mpr ⟨fun h i hi => ?_, fun h i hi => ?_⟩)
      · cases i with
        | zero => exact hfirst
        | succ i =>
          have hi := h i (by omega)
          rwa [Nat.add_assoc, Nat.add_comm 1 i] at hi
      · have hi := h (i + 1) (by omega)
        rwa [Nat.add_assoc, Nat.add_comm 1 i]
    · rw [if_pos (by simpa using hfirst), run_ret]
      refine Prod.ext rfl (decide_eq_false fun h => hfirst (h 0 (by omega))).symm

theorem equalBytes_run (m : Memory) (p q n : Nat) :
    (equalBytes p q n).run m = (m, decide (∀ i < n, m (p + i) = m (q + i))) := by
  rw [equalBytes, equalFrom_run]
  simp only [Nat.zero_add]

end

theorem exchangeFrom_byte {object value result n index : Nat} (m : Memory)
    (hvalue : Apart object value (index + n)) (hresult : Apart object result (index + n))
    (hinplace : value = result ∨ Apart value result (index + n)) (a : Nat) :
    ((exchangeFrom object value result n index).run m).1 a =
      if object + index ≤ a ∧ a < object + index + n then m (value + (a - object))
      else if result + index ≤ a ∧ a < result + index + n then m (object + (a - result))
      else m a := by
  unfold Apart at *
  induction n generalizing index m with
  | zero =>
    rw [if_neg (by omega), if_neg (by omega)]
    rfl
  | succ n ih =>
    have harith : index + (n + 1) = index + 1 + n := by omega
    rw [harith] at hvalue hresult hinplace
    rw [exchangeFrom, run_read, run_read, run_write, run_write, ih _ hvalue hresult hinplace]
    by_cases hobject : object + index ≤ a ∧ a < object + index + (n + 1)
    · rw [if_pos hobject]
      by_cases ha : a = object + index
      · subst ha
        rw [if_neg (by omega), if_neg (by omega), Function.update_of_ne (by omega), Function.update_self]
        simp
      · rw [if_pos (by omega), Function.update_of_ne (by omega), Function.update_of_ne (by omega)]
    · rw [if_neg hobject, if_neg (by omega)]
      by_cases hin : result + index ≤ a ∧ a < result + index + (n + 1)
      · rw [if_pos hin]
        by_cases ha : a = result + index
        · subst ha
          rw [if_neg (by omega), Function.update_self]
          simp
        · rw [if_pos (by omega), Function.update_of_ne (by omega), Function.update_of_ne (by omega)]
      · rw [if_neg hin, if_neg (by omega), Function.update_of_ne (by omega), Function.update_of_ne (by omega)]

theorem body_run (o : Operation) (h : Distinct o) (m : Memory) : (body o).run m = effect o m := by
  cases o with
  | load p => simp [body, effect, readValue_run]
  | store p value => simp [body, effect, writeValue_run]
  | exchange p value => simp [body, effect, readValue_run, writeValue_run]
  | compareExchange p expected desired =>
    simp only [body, effect, run_bind, readValue_run]
    split
    · simp [writeValue_run]
    · simp [writeValue_run]
  | fetch f p value => simp [body, effect, fetchUpdate, readValue_run, writeValue_run]
  | update f p value => simp [body, effect, fetchUpdate, readValue_run, writeValue_run]
  | loadBytes size object result => simp [body, effect, copyBytes_run m (Or.symm h)]
  | storeBytes size object value => simp [body, effect, copyBytes_run m h]
  | exchangeBytes size object value result =>
    obtain ⟨hvalue, hresult, hinplace⟩ := h
    rw [← Nat.zero_add size] at hvalue hresult hinplace
    simp only [body, effect, run_bind, run_ret]
    refine Prod.ext (funext fun a => ?_) rfl
    exact exchangeFrom_byte m hvalue hresult hinplace a
  | compareExchangeBytes size object expected desired =>
    simp only [body, effect, run_bind, equalBytes_run, decide_eq_true_eq]
    split
    · simp [copyBytes_run m h.2]
    · simp [copyBytes_run m (Or.symm h.1)]

abbrev Machine (κ : Type*) := Core κ Operation Nat Byte Result

/-- What holds of the operations of any number of threads and interrupt handlers. -/
structure Atomic {κ : Type*} [DecidableEq κ] (m₀ : Memory) (s : Machine κ) : Prop where
  sequential : ∃ m, Sequential effect m₀ s.history m ∧
    ((∀ c, (s.place c).isInside = false) → s.memory = m)
  returned : ∀ c o r, s.place c = .returned o r → Event.completed c o r ∈ s.history
  alone : ∀ c, (s.place c).isInside = true → c = s.running ∧ s.masked = true
  mask : ∀ o previous, s.place s.running = .saved o previous → previous = s.masked

theorem atomics_atomic {κ : Type*} [DecidableEq κ] {m₀ : Memory} {c : κ} {s : Machine κ}
    (h : Runs.Reached (step body) (fun _ i => i.calls Distinct) (start m₀ c) s) :
    Atomic m₀ s := by
  have hgood := sections_sequential body_run h
  refine ⟨?_, hgood.returned, fun d hd => ?_, fun o previous => hgood.restored⟩
  · have haccounted := hgood.accounted
    unfold Accounted at haccounted
    split at haccounted
    · rename_i o previous rest hp
      obtain ⟨m, hseq, -⟩ := haccounted
      refine ⟨m, hseq, fun hnone => ?_⟩
      have hinside := hnone s.running
      rw [hp] at hinside
      cases hinside
    · exact ⟨s.memory, haccounted, fun _ => rfl⟩
  · have hrunning : d = s.running := by
      by_contra hne
      rw [hgood.away d hne] at hd
      cases hd
    exact ⟨hrunning, hgood.masked (hrunning ▸ hd)⟩

/-- Context 0 has saved the mask when an interrupt comes; its handler, context 1, counts too. -/
def countedTwice : List (Action Nat Operation Nat Byte) :=
  let count : List (Action Nat Operation Nat Byte) := .mask :: List.replicate 16 .access ++ [.unmask]
  .call (.fetch .add 8 1) :: .switch 1 :: .call (.fetch .add 8 255) :: count ++ .switch 0 :: count

theorem atomics_atomic_interrupted : ∃ s : Machine Nat,
    Runs.Reached (step body) (fun _ i => i.calls Distinct) (start (fun _ => 0) 0) s ∧
    wordAt s.memory 8 = 256 ∧ s.history.length = 2 ∧ Atomic (fun _ => 0) s := by
  have hsome : (Runs.perform (step body) (start (fun _ => 0) 0) countedTwice).isSome = true := by
    decide +kernel
  obtain ⟨s, hs⟩ := Option.isSome_iff_exists.mp hsome
  have hperforms : Runs.Performs (step body) (fun _ i => i.calls Distinct) (start (fun _ => 0) 0)
      countedTwice := by decide +kernel
  have hreached := Runs.reached_of_perform hs hperforms
  have hvalues : (Runs.perform (step body) (start (fun _ => 0) 0) countedTwice).map
      (fun s => (wordAt s.memory 8, s.history.length)) = some (256, 2) := by decide +kernel
  rw [hs, Option.map_some, Option.some.injEq, Prod.mk.injEq] at hvalues
  exact ⟨s, hreached, hvalues.1, hvalues.2, atomics_atomic hreached⟩

/-- What the event adds to the word at `p`. -/
def addend {κ : Type*} (p : Nat) : Event κ Operation Nat Byte Result → Option (BitVec 64)
  | .completed _ (.fetch .add q v) _ | .completed _ (.update .add q v) _ => if q = p then some v else none
  | _ => none

/-- The event leaves the word at `p` as it is. -/
def Spares {κ : Type*} (p : Nat) : Event κ Operation Nat Byte Result → Prop
  | .completed _ o _ => ∀ m, wordAt (effect o m).1 p = wordAt m p
  | .wrote _ a _ => a < p ∨ p + 8 ≤ a

theorem digits_value (v n p index : Nat) :
    Nat.ofDigits 256 ((List.range' (p + index) n).map fun a => v / 256 ^ (a - p) % 256) =
      v / 256 ^ index % 256 ^ n := by
  induction n generalizing index with
  | zero => simp [Nat.mod_one]
  | succ n ih =>
    rw [List.range'_succ, List.map_cons, Nat.ofDigits_cons, Nat.add_assoc p index 1, ih,
      Nat.add_sub_cancel_left, Nat.pow_succ' (n := n), Nat.mod_mul, Nat.div_div_eq_div_mul, Nat.pow_succ]

theorem wordAt_congr {m m' : Memory} {p : Nat} (h : ∀ a, p ≤ a → a < p + 8 → m' a = m a) :
    wordAt m' p = wordAt m p := by
  unfold wordAt
  refine congrArg _ (congrArg _ (List.map_congr_left fun a ha => ?_))
  obtain ⟨hle, hlt⟩ := List.mem_range'_1.mp ha
  rw [h a hle hlt]

theorem wordAt_setWord (m : Memory) (p : Nat) (v : BitVec 64) : wordAt (setWord m p v) p = v := by
  have hbytes : (List.range' p 8).map (fun a => (setWord m p v a).toNat) =
      (List.range' (p + 0) 8).map fun a => v.toNat / 256 ^ (a - p) % 256 := by
    refine List.map_congr_left fun a ha => ?_
    obtain ⟨hle, hlt⟩ := List.mem_range'_1.mp ha
    rw [setWord, if_pos ⟨hle, hlt⟩, BitVec.toNat_ofNat]
  have hv := v.isLt
  rw [wordAt, hbytes, digits_value, Nat.pow_zero, Nat.div_one, Nat.mod_eq_of_lt (by simpa using hv),
    BitVec.ofNat_toNat, BitVec.setWidth_eq]

theorem wordAt_addend {κ : Type*} {p : Nat} {c : κ} {o : Operation} {r : Result} {v : BitVec 64}
    (h : addend p (.completed c o r) = some v) (m : Memory) : wordAt (effect o m).1 p = wordAt m p + v := by
  unfold addend at h
  split at h
  · rename_i heq
    obtain ⟨-, rfl, -⟩ := Event.completed.inj heq
    split at h <;> cases h
    rename_i hq
    subst hq
    exact wordAt_setWord ..
  · rename_i heq
    obtain ⟨-, rfl, -⟩ := Event.completed.inj heq
    split at h <;> cases h
    rename_i hq
    subst hq
    exact wordAt_setWord ..
  · cases h

theorem sequential_sum {κ : Type*} {m₀ m : Memory} {es : List (Event κ Operation Nat Byte Result)} {p : Nat}
    (h : Sequential effect m₀ es m) (hspares : ∀ e ∈ es, addend p e = none → Spares p e) :
    wordAt m p = wordAt m₀ p + (es.filterMap (addend p)).sum := by
  induction h with
  | nil => simp
  | @completed es m m' o r h c hr ih =>
    have ih := ih fun e he => hspares e (List.mem_append_left _ he)
    have hlast := hspares (.completed c o r) (List.mem_append_right _ List.mem_cons_self)
    obtain rfl : (effect o m).1 = m' := by rw [hr]
    rw [List.filterMap_append, List.sum_append]
    cases hv : addend p (Event.completed c o r : Event κ Operation Nat Byte Result) with
    | none => simp [hv, hlast hv m, ih]
    | some v =>
      rw [wordAt_addend hv, ih]
      simp [hv, BitVec.add_assoc]
  | @wrote es m h c a b ih =>
    have ih := ih fun e he => hspares e (List.mem_append_left _ he)
    have hlast : a < p ∨ p + 8 ≤ a :=
      hspares (.wrote c a b) (List.mem_append_right _ List.mem_cons_self) rfl
    have hkeep : wordAt (Function.update m a b) p = wordAt m p :=
      wordAt_congr fun x hx hx' => Function.update_of_ne (by omega) ..
    have hnone : addend p (Event.wrote c a b : Event κ Operation Nat Byte Result) = none := rfl
    rw [List.filterMap_append, List.sum_append, hkeep, ih]
    simp [hnone]

theorem no_addition_lost {κ : Type*} [DecidableEq κ] {m₀ : Memory} {c : κ} {s : Machine κ} {p : Nat}
    (h : Runs.Reached (step body) (fun _ i => i.calls Distinct) (start m₀ c) s)
    (hquiet : ∀ d, (s.place d).isInside = false)
    (hspares : ∀ e ∈ s.history, addend p e = none → Spares p e) :
    wordAt s.memory p = wordAt m₀ p + (s.history.filterMap (addend p)).sum := by
  have hgood := sections_sequential body_run h
  exact sequential_sum ((accounted_outside (hquiet s.running)).mp hgood.accounted) hspares

theorem no_addition_lost_interrupted : ∃ s : Machine Nat,
    s.history.filterMap (addend 8) = [255, 1] ∧
    wordAt s.memory 8 = wordAt (fun _ => 0) 8 + (s.history.filterMap (addend 8)).sum := by
  have hsome : (Runs.perform (step body) (start (fun _ => 0) 0) countedTwice).isSome = true := by
    decide +kernel
  obtain ⟨s, hs⟩ := Option.isSome_iff_exists.mp hsome
  have hperforms : Runs.Performs (step body) (fun _ i => i.calls Distinct) (start (fun _ => 0) 0)
      countedTwice := by decide +kernel
  have hreached := Runs.reached_of_perform hs hperforms
  have hvalues : (Runs.perform (step body) (start (fun _ => 0) 0) countedTwice).map
      (fun s => (s.history.filterMap (addend 8), (s.place s.running).isInside,
        s.history.all fun e => (addend 8 e).isSome)) = some ([255, 1], false, true) := by decide +kernel
  rw [hs, Option.map_some, Option.some.injEq, Prod.mk.injEq, Prod.mk.injEq] at hvalues
  obtain ⟨hadded, hrunning, hall⟩ := hvalues
  refine ⟨s, hadded, no_addition_lost hreached (fun d => ?_) fun e he hnone => ?_⟩
  · by_cases hd : d = s.running
    · rw [hd]
      exact hrunning
    · exact (sections_sequential body_run hreached).away d hd
  · have hadds := List.all_eq_true.mp hall e he
    rw [hnone] at hadds
    cases hadds

end SimPLCity.Atomics
