import Mathlib.Data.List.AList
import Mathlib.Data.List.Infix

/-! Finite directory trees, keyed by the list of names below the root.
A tree carries the proof that every entry lies in a directory of the same tree,
so a dangling entry cannot be built. The operations take their side condition as
a decidable argument; nothing here depends on what the names or objects are. -/

namespace SimPLCity.PathTree

variable {κ ο : Type*} [DecidableEq κ]

structure Node (ο : Type*) where
  object : ο
  directory : Bool
deriving DecidableEq, Repr

abbrev Table (κ ο : Type*) := AList (fun _ : List κ => Node ο)

/-- The root is a directory without an entry of its own. -/
structure Tree (κ ο : Type*) [DecidableEq κ] where
  table : Table κ ο
  root : table.lookup [] = none
  closed : ∀ p a n, table.lookup (p ++ [a]) = some n → p ≠ [] →
    ∃ d, table.lookup p = some d ∧ d.directory = true

def Tree.find? (t : Tree κ ο) (p : List κ) : Option (Node ο) := t.table.lookup p

def Tree.isDirectory (t : Tree κ ο) (p : List κ) : Bool :=
  match p, t.find? p with
  | [], _ => true
  | _, some n => n.directory
  | _, none => false

/-- The names directly inside `p`. -/
def Tree.children (t : Tree κ ο) (p : List κ) : List κ :=
  t.table.entries.filterMap fun e => if e.1.dropLast = p then e.1.getLast? else none

def Tree.empty : Tree κ ο where
  table := ∅
  root := rfl
  closed _ _ _ h := by simp [AList.lookup_empty] at h

@[simp] theorem find?_empty (p : List κ) : (Tree.empty : Tree κ ο).find? p = none := rfl

@[simp] theorem find?_nil (t : Tree κ ο) : t.find? [] = none := t.root

@[simp] theorem isDirectory_nil (t : Tree κ ο) : t.isDirectory [] = true := rfl

theorem isDirectory_of_find? {t : Tree κ ο} {p : List κ} {n : Node ο} (h : t.find? p = some n) :
    t.isDirectory p = n.directory := by
  cases p with
  | nil => simp at h
  | cons a p => simp [Tree.isDirectory, h]

theorem isDirectory_iff (t : Tree κ ο) (p : List κ) :
    t.isDirectory p = true ↔ p = [] ∨ ∃ n, t.find? p = some n ∧ n.directory = true := by
  cases p with
  | nil => simp
  | cons a p => cases h : t.find? (a :: p) <;> simp [Tree.isDirectory, h]

theorem parent_isDirectory {t : Tree κ ο} {p : List κ} {a : κ} {n : Node ο}
    (h : t.find? (p ++ [a]) = some n) : t.isDirectory p = true := by
  by_cases hp : p = []
  · simp [hp]
  · exact (isDirectory_iff t p).mpr (Or.inr (t.closed p a n h hp))

theorem ancestor_isDirectory {t : Tree κ ο} {p s : List κ} {n : Node ο}
    (h : t.find? (p ++ s) = some n) (hs : s ≠ []) : t.isDirectory p = true := by
  induction s using List.reverseRecOn generalizing n with
  | nil => exact absurd rfl hs
  | append_singleton s a ih =>
    rw [← List.append_assoc] at h
    have hd := parent_isDirectory h
    by_cases hs' : s = []
    · simpa [hs'] using hd
    · rcases (isDirectory_iff t (p ++ s)).mp hd with h0 | ⟨m, hm, _⟩
      · simp [hs'] at h0
      · exact ih hm hs'

theorem find?_none_below {t : Tree κ ο} {p : List κ} (hp : p ≠ []) (h : t.find? p = none)
    (s : List κ) : t.find? (p ++ s) = none := by
  by_cases hs : s = []
  · simpa [hs] using h
  · by_contra hne
    obtain ⟨n, hn⟩ := Option.ne_none_iff_exists'.mp hne
    have := (isDirectory_iff t p).mp (ancestor_isDirectory hn hs)
    simp [hp, h] at this

theorem find?_none_of_childless {t : Tree κ ο} {p : List κ}
    (h : ∀ a, t.find? (p ++ [a]) = none) {s : List κ} (hs : s ≠ []) :
    t.find? (p ++ s) = none := by
  obtain ⟨a, s, rfl⟩ := List.exists_cons_of_ne_nil hs
  have := find?_none_below (p := p ++ [a]) (by simp) (h a) s
  simpa using this

theorem childless_of_file {t : Tree κ ο} {p : List κ} {n : Node ο} (h : t.find? p = some n)
    (hf : n.directory = false) (a : κ) : t.find? (p ++ [a]) = none := by
  by_contra hne
  obtain ⟨m, hm⟩ := Option.ne_none_iff_exists'.mp hne
  have := parent_isDirectory hm
  rw [isDirectory_of_find? h, hf] at this
  exact absurd this (by decide)

theorem children_eq_nil_iff (t : Tree κ ο) (p : List κ) :
    t.children p = [] ↔ ∀ a, t.find? (p ++ [a]) = none := by
  simp only [Tree.children, List.filterMap_eq_nil_iff]
  constructor
  · intro h a
    by_contra hne
    obtain ⟨n, hn⟩ := Option.ne_none_iff_exists'.mp hne
    have := h _ (AList.mem_lookup_iff.mp hn)
    simp at this
  · rintro h ⟨q, n⟩ hq
    have hn : t.find? q = some n := AList.mem_lookup_iff.mpr hq
    by_cases hd : q.dropLast = p
    · rcases List.eq_nil_or_concat q with rfl | ⟨r, a, rfl⟩
      · simp
      · simp only [List.concat_eq_append, List.dropLast_concat] at hd
        subst hd
        simp [h a] at hn
    · simp [hd]

/-- A free name in an existing directory. -/
def Tree.Free (t : Tree κ ο) (p : List κ) : Prop :=
  p ≠ [] ∧ t.find? p = none ∧ t.isDirectory p.dropLast = true

instance (t : Tree κ ο) (p : List κ) : Decidable (t.Free p) :=
  inferInstanceAs (Decidable (_ ∧ (_ = none) ∧ _))

def Tree.insert (t : Tree κ ο) (p : List κ) (n : Node ο) (h : t.Free p) : Tree κ ο where
  table := t.table.insert p n
  root := by
    rw [AList.lookup_insert_ne (Ne.symm h.1)]
    exact t.root
  closed q a m hq hne := by
    by_cases hqa : q ++ [a] = p
    · have hd : t.isDirectory q = true := by simpa [← hqa] using h.2.2
      obtain ⟨d, hd, hdir⟩ := ((isDirectory_iff t q).mp hd).resolve_left hne
      refine ⟨d, ?_, hdir⟩
      rw [AList.lookup_insert_ne (by rw [← hqa]; simp)]
      exact hd
    · rw [AList.lookup_insert_ne hqa] at hq
      obtain ⟨d, hd, hdir⟩ := t.closed q a m hq hne
      refine ⟨d, ?_, hdir⟩
      rw [AList.lookup_insert_ne ?_, hd]
      rintro rfl
      exact absurd (hd.symm.trans h.2.1) (by simp)

@[simp] theorem find?_insert_self (t : Tree κ ο) (p : List κ) (n : Node ο) (h : t.Free p) :
    (t.insert p n h).find? p = some n := AList.lookup_insert _

theorem find?_insert_ne (t : Tree κ ο) {p q : List κ} (n : Node ο) (h : t.Free p) (hq : q ≠ p) :
    (t.insert p n h).find? q = t.find? q := AList.lookup_insert_ne hq

theorem find?_insert_of_some {t : Tree κ ο} {p q : List κ} {n m : Node ο} (h : t.Free p)
    (hq : t.find? q = some m) : (t.insert p n h).find? q = some m := by
  rw [find?_insert_ne t n h, hq]
  rintro rfl
  exact absurd (hq.symm.trans h.2.1) (by simp)

/-- An entry without children. -/
def Tree.Leaf (t : Tree κ ο) (p : List κ) : Prop := t.children p = []

instance (t : Tree κ ο) (p : List κ) : Decidable (t.Leaf p) :=
  inferInstanceAs (Decidable (_ = []))

def Tree.erase (t : Tree κ ο) (p : List κ) (h : t.Leaf p) : Tree κ ο where
  table := t.table.erase p
  root := by
    by_cases hp : p = []
    · rw [hp, AList.lookup_erase]
    · rw [AList.lookup_erase_ne (Ne.symm hp)]
      exact t.root
  closed q a m hq hne := by
    have hqa : q ++ [a] ≠ p := by
      rintro rfl
      simp [AList.lookup_erase] at hq
    rw [AList.lookup_erase_ne hqa] at hq
    obtain ⟨d, hd, hdir⟩ := t.closed q a m hq hne
    refine ⟨d, ?_, hdir⟩
    rw [AList.lookup_erase_ne ?_, hd]
    rintro rfl
    exact absurd (hq.symm.trans ((children_eq_nil_iff t q).mp h a)) (by simp)

@[simp] theorem find?_erase_self (t : Tree κ ο) (p : List κ) (h : t.Leaf p) :
    (t.erase p h).find? p = none := AList.lookup_erase _ _

theorem find?_erase_ne (t : Tree κ ο) {p q : List κ} (h : t.Leaf p) (hq : q ≠ p) :
    (t.erase p h).find? q = t.find? q := AList.lookup_erase_ne hq

/-- The path of an entry after `old` has become `new`. -/
def rebase (old new p : List κ) : List κ :=
  if old <+: p then new ++ p.drop old.length else p

@[simp] theorem rebase_append (old new s : List κ) : rebase old new (old ++ s) = new ++ s := by
  simp [rebase]

@[simp] theorem rebase_self_path (old new : List κ) : rebase old new old = new := by
  simp [rebase]

theorem rebase_outside {old p : List κ} (new : List κ) (h : ¬ old <+: p) :
    rebase old new p = p := by simp [rebase, h]

@[simp] theorem rebase_refl (old p : List κ) : rebase old old p = p := by
  by_cases h : old <+: p
  · obtain ⟨s, rfl⟩ := h
    simp
  · simp [rebase, h]

/-- `old` exists and `new` is a free name outside the moved subtree, or the same name. -/
def Tree.Movable (t : Tree κ ο) (old new : List κ) : Prop :=
  t.find? old ≠ none ∧ (new = old ∨ (¬ old <+: new ∧ t.Free new))

instance (t : Tree κ ο) (old new : List κ) : Decidable (t.Movable old new) :=
  inferInstanceAs (Decidable ((_ ≠ none) ∧ _))

theorem Tree.Movable.old_ne_nil {t : Tree κ ο} {old new : List κ} (h : t.Movable old new) :
    old ≠ [] := by
  rintro rfl
  exact h.1 t.root

theorem Tree.Movable.new_ne_nil {t : Tree κ ο} {old new : List κ} (h : t.Movable old new) :
    new ≠ [] := by
  rcases h.2 with rfl | ⟨_, hf⟩
  · exact h.old_ne_nil
  · exact hf.1

theorem Tree.Movable.not_below {t : Tree κ ο} {old new p : List κ} {n : Node ο}
    (h : t.Movable old new) (hp : t.find? p = some n) (hold : ¬ old <+: p) : ¬ new <+: p := by
  rintro ⟨s, rfl⟩
  rcases h.2 with rfl | ⟨_, hf⟩
  · exact hold ⟨s, rfl⟩
  · exact absurd (hp.symm.trans (find?_none_below hf.1 hf.2.1 s)) (by simp)

theorem rebase_injective_on {t : Tree κ ο} {old new p q : List κ} {n m : Node ο}
    (h : t.Movable old new) (hp : t.find? p = some n) (hq : t.find? q = some m)
    (he : rebase old new p = rebase old new q) : p = q := by
  by_cases h1 : old <+: p <;> by_cases h2 : old <+: q
  · obtain ⟨s, rfl⟩ := h1
    obtain ⟨r, rfl⟩ := h2
    simpa using he
  · obtain ⟨s, rfl⟩ := h1
    rw [rebase_append, rebase_outside new h2] at he
    exact absurd ⟨s, he⟩ (h.not_below hq h2)
  · obtain ⟨s, rfl⟩ := h2
    rw [rebase_append, rebase_outside new h1] at he
    exact absurd ⟨s, he.symm⟩ (h.not_below hp h1)
  · rwa [rebase_outside new h1, rebase_outside new h2] at he

def movedEntries (t : Tree κ ο) (old new : List κ) : List (Sigma fun _ : List κ => Node ο) :=
  t.table.entries.map fun e => ⟨rebase old new e.1, e.2⟩

theorem movedEntries_nodupKeys (t : Tree κ ο) {old new : List κ} (h : t.Movable old new) :
    (movedEntries t old new).NodupKeys := by
  have hk : (movedEntries t old new).keys = t.table.keys.map (rebase old new) := by
    simp [movedEntries, List.keys, AList.keys]
  rw [List.NodupKeys, hk]
  refine List.Nodup.map_on ?_ t.table.keys_nodup
  intro p hp q hq he
  obtain ⟨n, hn⟩ := Option.isSome_iff_exists.mp (AList.lookup_isSome.mpr (AList.mem_keys.mpr hp))
  obtain ⟨m, hm⟩ := Option.isSome_iff_exists.mp (AList.lookup_isSome.mpr (AList.mem_keys.mpr hq))
  exact rebase_injective_on h hn hm he

def movedTable (t : Tree κ ο) {old new : List κ} (h : t.Movable old new) : Table κ ο :=
  ⟨movedEntries t old new, movedEntries_nodupKeys t h⟩

theorem lookup_movedTable_iff (t : Tree κ ο) {old new : List κ} (h : t.Movable old new)
    (p : List κ) (n : Node ο) :
    (movedTable t h).lookup p = some n ↔ ∃ q, rebase old new q = p ∧ t.find? q = some n := by
  change n ∈ (movedTable t h).lookup p ↔ _
  rw [AList.mem_lookup_iff]
  simp only [movedTable, movedEntries, List.mem_map]
  constructor
  · rintro ⟨⟨q, m⟩, hq, he⟩
    obtain ⟨rfl, hm⟩ := Sigma.mk.inj_iff.mp he
    obtain rfl := eq_of_heq hm
    exact ⟨q, rfl, AList.mem_lookup_iff.mpr hq⟩
  · rintro ⟨q, rfl, hq⟩
    exact ⟨⟨q, n⟩, AList.mem_lookup_iff.mp hq, rfl⟩

theorem directory_movedTable {t : Tree κ ο} {old new p q : List κ} (h : t.Movable old new)
    (hp : t.isDirectory p = true) (hne : p ≠ []) (hq : rebase old new p = q) :
    ∃ d, (movedTable t h).lookup q = some d ∧ d.directory = true := by
  obtain ⟨d, hd, hdir⟩ := ((isDirectory_iff t p).mp hp).resolve_left hne
  exact ⟨d, (lookup_movedTable_iff t h _ _).mpr ⟨p, hq, hd⟩, hdir⟩

def Tree.move (t : Tree κ ο) (old new : List κ) (h : t.Movable old new) : Tree κ ο where
  table := movedTable t h
  root := by
    by_contra hne
    obtain ⟨n, hn⟩ := Option.ne_none_iff_exists'.mp hne
    obtain ⟨q, hq, hn⟩ := (lookup_movedTable_iff t h _ _).mp hn
    by_cases hold : old <+: q
    · simp [rebase, hold, h.new_ne_nil] at hq
    · rw [rebase_outside new hold] at hq
      simp [hq] at hn
  closed p a n hn hne := by
    obtain ⟨q, hq, hn⟩ := (lookup_movedTable_iff t h _ _).mp hn
    by_cases hold : old <+: q
    · obtain ⟨s, rfl⟩ := hold
      rw [rebase_append] at hq
      rcases List.eq_nil_or_concat s with rfl | ⟨s, b, rfl⟩
      · -- the moved directory itself: its new parent lies outside the subtree
        have hnew : new = p ++ [a] := by simpa using hq
        rcases h.2 with hsame | ⟨hout, hf⟩
        · have hd : t.isDirectory p = true :=
            parent_isDirectory (by simpa [← hsame, hnew] using hn)
          exact directory_movedTable h hd hne (by rw [hsame, rebase_refl])
        · have hd : t.isDirectory p = true := by simpa [hnew] using hf.2.2
          have hpo : ¬ old <+: p := fun hpre => hout (hnew ▸ hpre.trans (List.prefix_append p [a]))
          exact directory_movedTable h hd hne (rebase_outside new hpo)
      · rw [List.concat_eq_append, ← List.append_assoc] at hq hn
        obtain ⟨hp, _⟩ := List.append_inj' hq rfl
        exact directory_movedTable h (parent_isDirectory hn) (by simp [h.old_ne_nil])
          (by rw [rebase_append, hp])
    · rw [rebase_outside new hold] at hq
      subst hq
      have hpo : ¬ old <+: p := fun hpre => hold (hpre.trans (List.prefix_append p [a]))
      exact directory_movedTable h (parent_isDirectory hn) hne (rebase_outside new hpo)

theorem find?_move_iff (t : Tree κ ο) {old new : List κ} (h : t.Movable old new)
    (p : List κ) (n : Node ο) :
    (t.move old new h).find? p = some n ↔ ∃ q, rebase old new q = p ∧ t.find? q = some n :=
  lookup_movedTable_iff t h p n

theorem find?_move_rebase {t : Tree κ ο} {old new p : List κ} {n : Node ο}
    (h : t.Movable old new) (hp : t.find? p = some n) :
    (t.move old new h).find? (rebase old new p) = some n :=
  (find?_move_iff t h _ _).mpr ⟨p, rfl, hp⟩

theorem find?_move_new (t : Tree κ ο) {old new : List κ} (h : t.Movable old new) (s : List κ) :
    (t.move old new h).find? (new ++ s) = t.find? (old ++ s) := by
  refine Option.ext fun n => ?_
  constructor
  · intro hn
    obtain ⟨q, hq, hn⟩ := (find?_move_iff t h _ _).mp hn
    by_cases hold : old <+: q
    · obtain ⟨r, rfl⟩ := hold
      rw [rebase_append, List.append_cancel_left_eq] at hq
      exact hq ▸ hn
    · rw [rebase_outside new hold] at hq
      exact absurd ⟨s, hq.symm⟩ (h.not_below hn hold)
  · intro hn
    simpa using find?_move_rebase h hn

theorem find?_move_old (t : Tree κ ο) {old new p : List κ} (h : t.Movable old new)
    (hold : old <+: p) (hnew : ¬ new <+: p) : (t.move old new h).find? p = none := by
  by_contra hne
  obtain ⟨n, hn⟩ := Option.ne_none_iff_exists'.mp hne
  obtain ⟨q, hq, hn⟩ := (find?_move_iff t h _ _).mp hn
  by_cases hq' : old <+: q
  · obtain ⟨s, rfl⟩ := hq'
    rw [rebase_append] at hq
    exact hnew ⟨s, hq⟩
  · rw [rebase_outside new hq'] at hq
    exact hq' (hq ▸ hold)

theorem find?_move_other (t : Tree κ ο) {old new p : List κ} (h : t.Movable old new)
    (hold : ¬ old <+: p) (hnew : ¬ new <+: p) : (t.move old new h).find? p = t.find? p := by
  refine Option.ext fun n => ?_
  constructor
  · intro hn
    obtain ⟨q, hq, hn⟩ := (find?_move_iff t h _ _).mp hn
    by_cases hq' : old <+: q
    · obtain ⟨s, rfl⟩ := hq'
      rw [rebase_append] at hq
      exact absurd ⟨s, hq⟩ hnew
    · rw [rebase_outside new hq'] at hq
      exact hq ▸ hn
  · intro hn
    have := find?_move_rebase h hn
    rwa [rebase_outside new hold] at this

@[simp] theorem find?_move_refl (t : Tree κ ο) {p : List κ} (h : t.Movable p p) (q : List κ) :
    (t.move p p h).find? q = t.find? q := by
  refine Option.ext fun n => ?_
  rw [find?_move_iff]
  simp

theorem find?_move_back (t : Tree κ ο) {old new : List κ} (h : t.Movable old new)
    (hb : (t.move old new h).Movable new old) (p : List κ) :
    ((t.move old new h).move new old hb).find? p = t.find? p := by
  by_cases hold : old <+: p
  · obtain ⟨s, rfl⟩ := hold
    rw [find?_move_new, find?_move_new]
  · by_cases hnew : new <+: p
    · rw [find?_move_old _ hb hnew hold]
      by_contra hne
      obtain ⟨n, hn⟩ := Option.ne_none_iff_exists'.mp (Ne.symm hne)
      exact h.not_below hn hold hnew
    · rw [find?_move_other _ hb hnew hold, find?_move_other _ h hold hnew]

def prunedTable (t : Tree κ ο) (p : List κ) : Table κ ο :=
  ⟨t.table.entries.filter fun e => ¬ p <+: e.1, t.table.nodupKeys.sublist List.filter_sublist⟩

theorem lookup_prunedTable_iff (t : Tree κ ο) (p q : List κ) (n : Node ο) :
    (prunedTable t p).lookup q = some n ↔ ¬ p <+: q ∧ t.find? q = some n := by
  change n ∈ (prunedTable t p).lookup q ↔ _ ∧ n ∈ t.table.lookup q
  rw [AList.mem_lookup_iff, AList.mem_lookup_iff]
  simp [prunedTable, and_comm]

/-- Every entry at or below `p` is lost. -/
def Tree.prune (t : Tree κ ο) (p : List κ) : Tree κ ο where
  table := prunedTable t p
  root := by
    by_contra hne
    obtain ⟨n, hn⟩ := Option.ne_none_iff_exists'.mp hne
    simpa using ((lookup_prunedTable_iff t p [] n).mp hn).2
  closed q a n hn hne := by
    obtain ⟨hout, hn⟩ := (lookup_prunedTable_iff t p _ _).mp hn
    obtain ⟨d, hd, hdir⟩ := t.closed q a n hn hne
    refine ⟨d, (lookup_prunedTable_iff t p q d).mpr ⟨fun hpre => hout ?_, hd⟩, hdir⟩
    exact hpre.trans (List.prefix_append q [a])

end SimPLCity.PathTree
