import SimPLCity.Runs
import Mathlib.Logic.Function.Basic
import Mathlib.Data.List.Forall2

/-! The volume in the NOR flash: the driver over LevelX that FileX calls, and what each start of the
program does with the flash. -/

namespace SimPLCity.FlashMedia

abbrev Block := List UInt8

/-- The statuses of LevelX that the driver tells apart. -/
inductive LxStatus
  | success
  | sectorNotFound
  | error (code : UInt32)
deriving DecidableEq, Repr

/-- `σ` is all that LevelX keeps, and whatever makes its calls fail. -/
structure LevelX (σ : Type) where
  norFlashInitialize : σ → σ
  norFlashOpen : σ → LxStatus × σ
  cacheEnable : σ → LxStatus × σ
  norFlashClose : σ → LxStatus × σ
  mappedPhysicalSectors : σ → Nat
  sectorRead : σ → UInt32 → (LxStatus × Block) × σ
  sectorWrite : σ → UInt32 → Block → LxStatus × σ
  sectorRelease : σ → UInt32 → LxStatus × σ

/-- A request to the driver, with the fields of `FX_MEDIA` that the driver reads for it; the buffer
is cut into sectors. -/
inductive Request
  | init
  | uninit
  | read (logicalSector : UInt32) (sectors : Nat)
  | write (logicalSector : UInt32) (buffer : List Block)
  | bootRead
  | bootWrite (buffer : Block)
  | releaseSectors (logicalSector : UInt32) (sectors : Nat)
  | flush
  | abort
  | other (code : UInt32)
deriving DecidableEq, Repr

/-- `success` is `FX_SUCCESS`, otherwise the status is `FX_IO_ERROR`; `blocks` are those stored in
the buffer. -/
structure Answer where
  success : Bool
  blocks : List Block := []
deriving DecidableEq, Repr

/-- What a call of FileX does with its driver, up to its status, of which 0 is `FX_SUCCESS`. -/
inductive Program
  | done (status : UInt32)
  | request (r : Request) (next : Answer → Program)

/-- `fx_media_format` and `fx_media_open` on the flash. -/
structure FileX where
  mediaFormat : Program
  mediaOpen : Program

def flashBlocks : Nat := 16 * 1024 * 1024 / (4 * 1024)

def flashFilexSectors : Nat := 24 * 1024

structure Diagnostics where
  flashBlocks : Nat := 0
  flashLogicalSectors : Nat := 0
  levelxStatus : LxStatus := .success
  flashFilexStatus : UInt32 := 0
  flashMounted : Bool := false
  flashWasFormatted : Bool := false
deriving DecidableEq, Repr

structure Flash (σ : Type) where
  device : σ
  norOpen : Bool := false
  flashMounted : Bool := false
  diagnostics : Diagnostics := {}
deriving Repr

section
variable {σ : Type} (x : LevelX σ)

def openLevelx (f : Flash σ) : LxStatus × Flash σ :=
  if f.norOpen then (.success, f)
  else
    let opened := x.norFlashOpen f.device
    let (status, device) := if opened.1 = .success then x.cacheEnable opened.2 else opened
    (status, { f with
      device := device
      norOpen := status = .success
      diagnostics := { f.diagnostics with levelxStatus := status } })

def closeLevelx (f : Flash σ) : LxStatus × Flash σ :=
  if !f.norOpen then (.success, f)
  else
    let (status, device) := x.norFlashClose f.device
    (status, { f with device := device, norOpen := false })

/-- `sector + index` for each index. -/
def addresses (sector : UInt32) (sectors : Nat) : List UInt32 :=
  (List.range sectors).map fun index => sector + UInt32.ofNat index

def readSectors : List UInt32 → σ → Answer × σ
  | [], device => (⟨true, []⟩, device)
  | n :: ns, device =>
    let ((status, block), device) := x.sectorRead device n
    if status = .success then
      let (rest, device) := readSectors ns device
      (⟨rest.success, block :: rest.blocks⟩, device)
    else (⟨false, []⟩, device)

def writeSectors : List (UInt32 × Block) → σ → Bool × σ
  | [], device => (true, device)
  | (n, block) :: rest, device =>
    let (status, device) := x.sectorWrite device n block
    if status = .success then writeSectors rest device else (false, device)

def releaseSectors : List UInt32 → σ → Bool × σ
  | [], device => (true, device)
  | n :: ns, device =>
    let (status, device) := x.sectorRelease device n
    if status ≠ .success ∧ status ≠ .sectorNotFound then (false, device) else releaseSectors ns device

def readRequest (f : Flash σ) (ns : List UInt32) : Answer × Flash σ :=
  let (answer, device) := readSectors x ns f.device
  (answer, { f with device := device })

def writeRequest (f : Flash σ) (writes : List (UInt32 × Block)) : Answer × Flash σ :=
  let (success, device) := writeSectors x writes f.device
  (⟨success, []⟩, { f with device := device })

def releaseRequest (f : Flash σ) (ns : List UInt32) : Answer × Flash σ :=
  let (success, device) := releaseSectors x ns f.device
  (⟨success, []⟩, { f with device := device })

def levelxMediaDriver (f : Flash σ) : Request → Answer × Flash σ
  | .init =>
    let (status, f) := openLevelx x f
    (⟨status = .success, []⟩, f)
  | .uninit =>
    let (status, f) := closeLevelx x f
    (⟨status = .success, []⟩, f)
  | .read sector sectors => readRequest x f (addresses sector sectors)
  | .bootRead => readRequest x f [0]
  | .write sector blocks => writeRequest x f ((addresses sector blocks.length).zip blocks)
  | .bootWrite block => writeRequest x f [(0, block)]
  | .releaseSectors sector sectors => releaseRequest x f (addresses sector sectors)
  | .flush | .abort => (⟨true, []⟩, f)
  | .other _ => (⟨false, []⟩, f)

/-- The power lasts for `requests` requests to the driver; without a status it was cut before the
program's end. -/
def perform : (requests : Nat) → Program → Flash σ → Option UInt32 × Flash σ
  | _, .done status, f => (some status, f)
  | 0, .request _ _, f => (none, f)
  | requests + 1, .request r next, f =>
    let (answer, f) := levelxMediaDriver x f r
    perform requests (next answer) f

/-- `ready` is whether the flash or its image file can be used. -/
structure Start where
  ready : Bool := true
  format : Nat
  mount : Nat
deriving DecidableEq, Repr

def mountFlash (fx : FileX) (start : Start) (f : Flash σ) : Bool × Flash σ :=
  match perform x start.mount fx.mediaOpen f with
  | (none, f) => (false, f)
  | (some status, f) =>
    (status = 0, { f with
      flashMounted := status = 0
      diagnostics := { f.diagnostics with flashFilexStatus := status, flashMounted := status = 0 } })

def formatFlash (fx : FileX) (start : Start) (f : Flash σ) : Bool × Flash σ :=
  match perform x start.format fx.mediaFormat f with
  | (none, f) => (false, f)
  | (some status, f) =>
    if status ≠ 0 then
      (false, { f with diagnostics := { f.diagnostics with flashFilexStatus := status } })
    else mountFlash x fx start { f with diagnostics := { f.diagnostics with flashWasFormatted := true } }

def initializeFlashMedia (fx : FileX) (start : Start) (f : Flash σ) : Bool × Flash σ :=
  if !start.ready then (false, f)
  else
    let (status, f) := openLevelx x { f with
      device := x.norFlashInitialize f.device
      diagnostics := { f.diagnostics with flashBlocks := flashBlocks } }
    if status ≠ .success then (false, f)
    else
      let empty := x.mappedPhysicalSectors f.device = 0
      let (status, f) := closeLevelx x { f with
        diagnostics := { f.diagnostics with flashLogicalSectors := flashFilexSectors } }
      if status ≠ .success then (false, f)
      else if empty then formatFlash x fx start f
      else mountFlash x fx start f

/-- `start` is a start of the program, which finds only the flash as it was left. -/
inductive Event
  | start (s : Start)
  | request (r : Request)
deriving DecidableEq, Repr

def turn (fx : FileX) (f : Flash σ) : Event → Answer × Flash σ
  | .start s =>
    let (mounted, f) := initializeFlashMedia x fx s { device := f.device }
    (⟨mounted, []⟩, f)
  | .request r => levelxMediaDriver x f r

def step (fx : FileX) (f : Flash σ) (e : Event) : Flash σ := (turn x fx f e).2

def answer (fx : FileX) (f : Flash σ) (e : Event) : Answer := (turn x fx f e).1

end

/-- The last request for a sector was a write of this block, and it succeeded. -/
abbrev Acknowledged := UInt32 → Option Block

/-- What a request writes, and which sectors it releases. -/
def changes : Request → List (UInt32 × Option Block)
  | .write sector blocks => (addresses sector blocks.length).zip (blocks.map some)
  | .bootWrite block => [(0, some block)]
  | .releaseSectors sector sectors => (addresses sector sectors).map fun n => (n, none)
  | _ => []

/-- Nothing is known of the sectors of a request that fails. -/
def record (success : Bool) (known : Acknowledged) (c : UInt32 × Option Block) : Acknowledged :=
  Function.update known c.1 (if success then c.2 else none)

def acknowledge (known : Acknowledged) : Event × Answer → Acknowledged
  | (.start _, _) => known
  | (.request r, a) => (changes r).foldl (record a.success) known

/-- The documented behaviour of LevelX; `sectors` are those that are mapped. A call that fails, or is
cut off, leaves the other sectors as they are. -/
structure Lawful {σ : Type} (x : LevelX σ) (sectors : σ → UInt32 → Option Block) : Prop where
  initialized : ∀ d, sectors (x.norFlashInitialize d) = sectors d
  opened : ∀ d, sectors (x.norFlashOpen d).2 = sectors d
  cached : ∀ d, sectors (x.cacheEnable d).2 = sectors d
  closed : ∀ d, sectors (x.norFlashClose d).2 = sectors d
  mapped : ∀ d, (x.norFlashOpen d).1 = .success → (x.cacheEnable (x.norFlashOpen d).2).1 = .success →
    (x.mappedPhysicalSectors (x.cacheEnable (x.norFlashOpen d).2).2 = 0 ↔ ∀ n, sectors d n = none)
  read : ∀ d n b, sectors d n = some b → (x.sectorRead d n).1.1 = .success → (x.sectorRead d n).1.2 = b
  readKeeps : ∀ d n m b, sectors d m = some b → sectors (x.sectorRead d n).2 m = some b
  written : ∀ d n b, (x.sectorWrite d n b).1 = .success → sectors (x.sectorWrite d n b).2 n = some b
  writeKeeps : ∀ d n b m, m ≠ n → sectors (x.sectorWrite d n b).2 m = sectors d m
  releaseKeeps : ∀ d n m, m ≠ n → sectors (x.sectorRelease d n).2 m = sectors d m

def Request.readOnly : Request → Bool
  | .write _ _ | .bootWrite _ | .releaseSectors _ _ => false
  | _ => true

/-- Whatever the driver answers. -/
def Program.ReadOnly : Program → Prop
  | .done _ => True
  | .request r next => r.readOnly = true ∧ ∀ a, (next a).ReadOnly

section
variable {σ : Type} {x : LevelX σ} {sectors : σ → UInt32 → Option Block} {d d' d'' : σ} {f : Flash σ}
  {known : Acknowledged}

/-- Every sector with data keeps it. -/
def Kept (sectors : σ → UInt32 → Option Block) (d d' : σ) : Prop :=
  ∀ n b, sectors d n = some b → sectors d' n = some b

theorem Kept.refl (d : σ) : Kept sectors d d := fun _ _ h => h

theorem Kept.trans (h : Kept sectors d d') (h' : Kept sectors d' d'') : Kept sectors d d'' :=
  fun n b hb => h' n b (h n b hb)

theorem kept_of_eq (h : sectors d' = sectors d) : Kept sectors d d' := fun n _ hb => congrFun h n ▸ hb

theorem kept_of_blank (h : ∀ n, sectors d n = none) : Kept sectors d d' := fun n b hb => by
  rw [h n] at hb
  cases hb

def Holds (sectors : σ → UInt32 → Option Block) (known : Acknowledged) (d : σ) : Prop :=
  ∀ n b, known n = some b → sectors d n = some b

theorem Holds.kept (h : Holds sectors known d) (hkept : Kept sectors d d') : Holds sectors known d' :=
  fun n b hb => hkept n b (h n b hb)

theorem Holds.forget (h : Holds sectors known d) (n : UInt32) :
    Holds sectors (Function.update known n none) d := by
  intro m b hb
  by_cases hm : m = n
  · subst hm
    rw [Function.update_self] at hb
    cases hb
  · rw [Function.update_of_ne hm] at hb
    exact h m b hb

theorem Holds.fails (h : Holds sectors known d) (cs : List (UInt32 × Option Block)) :
    Holds sectors (cs.foldl (record false) known) d := by
  induction cs generalizing known with
  | nil => exact h
  | cons c cs ih => exact ih (h.forget c.1)

theorem readSectors_kept (hx : Lawful x sectors) (ns : List UInt32) (d : σ) :
    Kept sectors d (readSectors x ns d).2 := by
  induction ns generalizing d with
  | nil => exact Kept.refl d
  | cons n ns ih =>
    have hfirst : Kept sectors d (x.sectorRead d n).2 := hx.readKeeps d n
    simp only [readSectors]
    split
    · exact hfirst.trans (ih _)
    · exact hfirst

/-- The blocks of an answer are those of the sectors, as far as they are known. -/
def Reports (known : Acknowledged) (ns : List UInt32) (a : Answer) : Prop :=
  List.Forall₂ (fun n block => ∀ b, known n = some b → block = b) (ns.take a.blocks.length) a.blocks ∧
    (a.success = true → a.blocks.length = ns.length)

theorem readSectors_reports (hx : Lawful x sectors) (h : Holds sectors known d) (ns : List UInt32) :
    Reports known ns (readSectors x ns d).1 := by
  induction ns generalizing d with
  | nil => exact ⟨List.Forall₂.nil, fun _ => rfl⟩
  | cons n ns ih =>
    obtain ⟨hblocks, hlength⟩ := ih (h.kept (hx.readKeeps d n))
    simp only [readSectors]
    split
    · rename_i hsuccess
      refine ⟨List.Forall₂.cons (fun b hb => hx.read d n b (h n b hb) hsuccess) hblocks, fun hs => ?_⟩
      exact congrArg Nat.succ (hlength hs)
    · exact ⟨List.Forall₂.nil, nofun⟩

theorem Holds.write (hx : Lawful x sectors) (h : Holds sectors known d) {n : UInt32} {block : Block}
    (hsuccess : (x.sectorWrite d n block).1 = .success) :
    Holds sectors (Function.update known n (some block)) (x.sectorWrite d n block).2 := by
  intro m b hb
  by_cases hm : m = n
  · subst hm
    rw [Function.update_self] at hb
    rw [← hb]
    exact hx.written d m block hsuccess
  · rw [Function.update_of_ne hm] at hb
    rw [hx.writeKeeps d n block m hm]
    exact h m b hb

theorem Holds.fail (hx : Lawful x sectors) (h : Holds sectors known d) (n : UInt32) (block : Block) :
    Holds sectors (Function.update known n none) (x.sectorWrite d n block).2 := by
  intro m b hb
  by_cases hm : m = n
  · subst hm
    rw [Function.update_self] at hb
    cases hb
  · rw [Function.update_of_ne hm] at hb
    rw [hx.writeKeeps d n block m hm]
    exact h m b hb

theorem Holds.release (hx : Lawful x sectors) (h : Holds sectors known d) (n : UInt32) :
    Holds sectors (Function.update known n none) (x.sectorRelease d n).2 := by
  intro m b hb
  by_cases hm : m = n
  · subst hm
    rw [Function.update_self] at hb
    cases hb
  · rw [Function.update_of_ne hm] at hb
    rw [hx.releaseKeeps d n m hm]
    exact h m b hb

theorem writeSectors_holds (hx : Lawful x sectors) (h : Holds sectors known d)
    (writes : List (UInt32 × Block)) :
    Holds sectors
      ((writes.map (Prod.map id some)).foldl (record (writeSectors x writes d).1) known)
      (writeSectors x writes d).2 := by
  induction writes generalizing known d with
  | nil => exact h
  | cons w writes ih =>
    obtain ⟨n, block⟩ := w
    simp only [writeSectors]
    split
    · rename_i hsuccess
      have hnext : ∀ success, Holds sectors (record success known (n, some block))
          (x.sectorWrite d n block).2 := by
        intro success
        cases success with
        | true => exact h.write hx hsuccess
        | false => exact h.fail hx n block
      exact ih (hnext _)
    · exact (h.fail hx n block).fails _

theorem releaseSectors_holds (hx : Lawful x sectors) (success : Bool) (h : Holds sectors known d)
    (ns : List UInt32) :
    Holds sectors ((ns.map fun n => (n, none)).foldl (record success) known) (releaseSectors x ns d).2 := by
  have hnone : ∀ (known : Acknowledged) (n : UInt32),
      record success known (n, none) = Function.update known n none := fun _ _ => by
    unfold record
    split <;> rfl
  have hforgets : ∀ {known : Acknowledged} {d : σ} (ns : List UInt32), Holds sectors known d →
      Holds sectors ((ns.map fun n => (n, none)).foldl (record success) known) d := by
    intro known d ns h
    induction ns generalizing known with
    | nil => exact h
    | cons n ns ih =>
      rw [List.map_cons, List.foldl_cons, hnone]
      exact ih (h.forget n)
  induction ns generalizing known d with
  | nil => exact h
  | cons n ns ih =>
    have hfirst := h.release hx n
    rw [List.map_cons, List.foldl_cons, hnone]
    simp only [releaseSectors]
    split
    · exact hforgets ns hfirst
    · exact ih hfirst

theorem openLevelx_sectors (hx : Lawful x sectors) (f : Flash σ) :
    sectors (openLevelx x f).2.device = sectors f.device := by
  unfold openLevelx
  split
  · rfl
  · dsimp only
    split
    · exact (hx.cached _).trans (hx.opened _)
    · exact hx.opened _

theorem closeLevelx_sectors (hx : Lawful x sectors) (f : Flash σ) :
    sectors (closeLevelx x f).2.device = sectors f.device := by
  unfold closeLevelx
  split
  · rfl
  · exact hx.closed _

theorem driver_kept (hx : Lawful x sectors) (f : Flash σ) {r : Request} (hr : r.readOnly = true) :
    Kept sectors f.device (levelxMediaDriver x f r).2.device := by
  cases r with
  | init => exact kept_of_eq (openLevelx_sectors hx f)
  | uninit => exact kept_of_eq (closeLevelx_sectors hx f)
  | read sector count => exact readSectors_kept hx _ _
  | write sector blocks => cases hr
  | bootRead => exact readSectors_kept hx [0] f.device
  | bootWrite block => cases hr
  | releaseSectors sector count => cases hr
  | flush => exact Kept.refl _
  | abort => exact Kept.refl _
  | other code => exact Kept.refl _

theorem driver_holds (hx : Lawful x sectors) (h : Holds sectors known f.device) (r : Request) :
    Holds sectors (acknowledge known (.request r, (levelxMediaDriver x f r).1))
      (levelxMediaDriver x f r).2.device := by
  cases r with
  | write sector blocks =>
    have hwrites := writeSectors_holds hx h ((addresses sector blocks.length).zip blocks)
    rw [← List.zip_map_right] at hwrites
    exact hwrites
  | bootWrite block => exact writeSectors_holds hx h [(0, block)]
  | releaseSectors sector count => exact releaseSectors_holds hx _ h _
  | init => exact h.kept (driver_kept hx f rfl)
  | uninit => exact h.kept (driver_kept hx f rfl)
  | read sector count => exact h.kept (driver_kept hx f rfl)
  | bootRead => exact h.kept (driver_kept hx f rfl)
  | flush => exact h
  | abort => exact h
  | other code => exact h

theorem driver_wasFormatted (f : Flash σ) (r : Request) :
    (levelxMediaDriver x f r).2.diagnostics.flashWasFormatted = f.diagnostics.flashWasFormatted := by
  cases r with
  | init =>
    simp only [levelxMediaDriver, openLevelx]
    split <;> rfl
  | uninit =>
    simp only [levelxMediaDriver, closeLevelx]
    split <;> rfl
  | _ => rfl

theorem perform_kept (hx : Lawful x sectors) {p : Program} (hp : p.ReadOnly) (requests : Nat)
    (f : Flash σ) : Kept sectors f.device (perform x requests p f).2.device := by
  induction requests generalizing p f with
  | zero => cases p <;> exact Kept.refl _
  | succ requests ih =>
    cases p with
    | done status => exact Kept.refl _
    | request r next =>
      exact (driver_kept hx f hp.1).trans (ih (hp.2 _) _)

theorem perform_wasFormatted (requests : Nat) (p : Program) (f : Flash σ) :
    (perform x requests p f).2.diagnostics.flashWasFormatted = f.diagnostics.flashWasFormatted := by
  induction requests generalizing p f with
  | zero => cases p <;> rfl
  | succ requests ih =>
    cases p with
    | done status => rfl
    | request r next => exact (ih _ _).trans (driver_wasFormatted f r)

theorem openLevelx_success (hclosed : f.norOpen = false) (h : (openLevelx x f).1 = .success) :
    (x.norFlashOpen f.device).1 = .success ∧ (x.cacheEnable (x.norFlashOpen f.device).2).1 = .success ∧
      (openLevelx x f).2.device = (x.cacheEnable (x.norFlashOpen f.device).2).2 := by
  unfold openLevelx at h ⊢
  rw [hclosed] at h ⊢
  dsimp only at h ⊢
  by_cases hopened : (x.norFlashOpen f.device).1 = .success
  · simp only [hopened, if_true, Bool.false_eq_true, if_false] at h ⊢
    exact ⟨trivial, h, trivial⟩
  · simp only [hopened, Bool.false_eq_true, if_false] at h

theorem openLevelx_wasFormatted (f : Flash σ) :
    (openLevelx x f).2.diagnostics.flashWasFormatted = f.diagnostics.flashWasFormatted :=
  driver_wasFormatted (x := x) f .init

theorem closeLevelx_wasFormatted (f : Flash σ) :
    (closeLevelx x f).2.diagnostics.flashWasFormatted = f.diagnostics.flashWasFormatted :=
  driver_wasFormatted (x := x) f .uninit

/-- What a start does to the flash `d` on which it finds nothing but the data. -/
structure Started (sectors : σ → UInt32 → Option Block) (d : σ) (result : Bool × Flash σ) : Prop where
  kept : Kept sectors d result.2.device
  blank : result.2.diagnostics.flashWasFormatted = true → ∀ n, sectors d n = none
  formatted : result.1 = true → (∀ n, sectors d n = none) →
    result.2.diagnostics.flashWasFormatted = true

theorem started_failed (hkept : Kept sectors d f.device)
    (hunformatted : f.diagnostics.flashWasFormatted = false) : Started sectors d (false, f) where
  kept := hkept
  blank := fun h => by
    dsimp only at h
    rw [hunformatted] at h
    cases h
  formatted := nofun

theorem mountFlash_cases {fx : FileX} (hx : Lawful x sectors) (hopen : fx.mediaOpen.ReadOnly) (s : Start)
    (f : Flash σ) : Kept sectors f.device (mountFlash x fx s f).2.device ∧
      (mountFlash x fx s f).2.diagnostics.flashWasFormatted = f.diagnostics.flashWasFormatted := by
  have hkept := perform_kept hx hopen s.mount f
  have hformatted := perform_wasFormatted (x := x) s.mount fx.mediaOpen f
  unfold mountFlash
  split
  · rename_i heq
    rw [heq] at hkept hformatted
    exact ⟨hkept, hformatted⟩
  · rename_i heq
    rw [heq] at hkept hformatted
    exact ⟨hkept, hformatted⟩

theorem formatFlash_formatted {fx : FileX} (hx : Lawful x sectors) (hopen : fx.mediaOpen.ReadOnly)
    (s : Start) (h : (formatFlash x fx s f).1 = true) :
    (formatFlash x fx s f).2.diagnostics.flashWasFormatted = true := by
  unfold formatFlash at h ⊢
  split at h
  · cases h
  · dsimp only at h ⊢
    split at h
    · cases h
    · rename_i hstatus
      rw [if_neg hstatus]
      exact (mountFlash_cases hx hopen s _).2

theorem initialize_started {fx : FileX} (hx : Lawful x sectors) (hopen : fx.mediaOpen.ReadOnly)
    (s : Start) (d : σ) : Started sectors d (initializeFlashMedia x fx s { device := d }) := by
  unfold initializeFlashMedia
  split
  · exact started_failed (Kept.refl d) rfl
  · generalize hf : ({ device := x.norFlashInitialize d, diagnostics := _ } : Flash σ) = f
    have hdevice : sectors f.device = sectors d := hf ▸ hx.initialized d
    have hclosed : f.norOpen = false := hf ▸ rfl
    have hunformatted : f.diagnostics.flashWasFormatted = false := hf ▸ rfl
    have hopened := (openLevelx_sectors hx f).trans hdevice
    have hnot := (openLevelx_wasFormatted (x := x) f).trans hunformatted
    dsimp only
    split
    · exact started_failed (kept_of_eq hopened) hnot
    · rename_i hsuccess
      obtain ⟨hopen₁, hcache, heq⟩ := openLevelx_success hclosed (not_not.mp hsuccess)
      have hmapped := hx.mapped f.device hopen₁ hcache
      rw [← heq, hdevice] at hmapped
      generalize hg : ({ (openLevelx x f).2 with diagnostics := _ } : Flash σ) = g
      have hdevice' : sectors g.device = sectors d := hg ▸ hopened
      have hnot' : g.diagnostics.flashWasFormatted = false := hg ▸ hnot
      have hclose := (closeLevelx_sectors hx g).trans hdevice'
      have hnot'' := (closeLevelx_wasFormatted (x := x) g).trans hnot'
      split
      · exact started_failed (kept_of_eq hclose) hnot''
      · split
        · rename_i hempty
          have hblank := hmapped.mp hempty
          exact ⟨kept_of_blank hblank, fun _ => hblank, fun h _ => formatFlash_formatted hx hopen s h⟩
        · rename_i hempty
          obtain ⟨hkept, hsame⟩ := mountFlash_cases hx hopen s (closeLevelx x g).2
          refine ⟨(kept_of_eq hclose).trans hkept, fun h => ?_, fun _ hblank => ?_⟩
          · rw [hsame, hnot''] at h
            cases h
          · exact absurd (hmapped.mpr hblank) hempty

theorem step_holds {fx : FileX} (hx : Lawful x sectors) (hopen : fx.mediaOpen.ReadOnly)
    (h : Holds sectors known f.device) (e : Event) :
    Holds sectors (acknowledge known (e, answer x fx f e)) (step x fx f e).device := by
  cases e with
  | start s => exact h.kept (initialize_started hx hopen s f.device).kept
  | request r => exact driver_holds hx h r

theorem run_holds {fx : FileX} (hx : Lawful x sectors) (hopen : fx.mediaOpen.ReadOnly)
    (events : List Event) (h : Holds sectors known f.device) :
    Holds sectors
      ((events.zip (Runs.outputs (step x fx) (answer x fx) f events)).foldl acknowledge known)
      (Runs.run (step x fx) f events).device := by
  induction events generalizing known f with
  | nil => exact h
  | cons e events ih => exact ih (step_holds hx hopen h e)

theorem starts_kept {fx : FileX} (hx : Lawful x sectors) (hopen : fx.mediaOpen.ReadOnly)
    (starts : List Start) (f : Flash σ) :
    Kept sectors f.device (Runs.run (step x fx) f (starts.map Event.start)).device := by
  induction starts generalizing f with
  | nil => exact Kept.refl _
  | cons s starts ih => exact (initialize_started hx hopen s f.device).kept.trans (ih _)

end

/-- The flash as a store of blocks: what is acknowledged is there and is read, whatever has been read
or started before, and a flash that holds anything is not formatted by any number of starts. -/
structure Durable {σ : Type} (x : LevelX σ) (sectors : σ → UInt32 → Option Block) (fx : FileX)
    (f : Flash σ) (known : Acknowledged) : Prop where
  holds : Holds sectors known f.device
  read : ∀ sector count,
    Reports known (addresses sector count) (levelxMediaDriver x f (.read sector count)).1
  bootRead : Reports known [0] (levelxMediaDriver x f .bootRead).1
  start : ∀ s, Started sectors f.device (initializeFlashMedia x fx s { device := f.device })
  again : ∀ n b, sectors f.device n = some b → ∀ starts : List Start, ∀ s,
    (step x fx (Runs.run (step x fx) f (starts.map Event.start)) (.start s)).diagnostics.flashWasFormatted =
      false

theorem acknowledged_kept {σ : Type} {x : LevelX σ} {sectors : σ → UInt32 → Option Block} {fx : FileX}
    (hx : Lawful x sectors) (hopen : fx.mediaOpen.ReadOnly) (f : Flash σ) (events : List Event) :
    Durable x sectors fx (Runs.run (step x fx) f events)
      ((events.zip (Runs.outputs (step x fx) (answer x fx) f events)).foldl acknowledge fun _ => none) := by
  have hnone : Holds sectors (fun _ => none) f.device := nofun
  have hholds := run_holds hx hopen events hnone
  refine ⟨hholds, fun _ _ => readSectors_reports hx hholds _, readSectors_reports hx hholds _,
    fun s => initialize_started hx hopen s _, fun n b hb starts s => ?_⟩
  have hkept := starts_kept hx hopen starts (Runs.run (step x fx) f events) n b hb
  refine Bool.eq_false_iff.mpr fun hformatted => ?_
  have hblank := (initialize_started hx hopen s _).blank hformatted n
  rw [hkept] at hblank
  cases hblank

/-- LevelX that keeps its sectors in a list; `faults` says which writes fail. -/
structure Listed where
  entries : List (UInt32 × Block) := []
  faults : List Bool := []
deriving DecidableEq, Repr

def Listed.sectors (d : Listed) (n : UInt32) : Option Block := (d.entries.find? (·.1 = n)).map (·.2)

def erased : Block := [0xFF, 0xFF]

def listed : LevelX Listed where
  norFlashInitialize := id
  norFlashOpen := fun d => (.success, d)
  cacheEnable := fun d => (.success, d)
  norFlashClose := fun d => (.success, d)
  mappedPhysicalSectors := fun d => d.entries.length
  sectorRead := fun d n =>
    match d.sectors n with
    | some b => ((.success, b), d)
    | none => ((.success, erased), { d with entries := (n, erased) :: d.entries })
  sectorWrite := fun d n b =>
    match d.faults with
    | true :: faults => (.error 1, { d with faults := faults })
    | faults => (.success, { entries := (n, b) :: d.entries, faults := faults.tail })
  sectorRelease := fun d n =>
    if d.sectors n = none then (.sectorNotFound, d)
    else (.success, { d with entries := d.entries.filter (·.1 ≠ n) })

theorem sectors_cons_self (n : UInt32) (b : Block) (entries : List (UInt32 × Block)) (faults : List Bool) :
    Listed.sectors ⟨(n, b) :: entries, faults⟩ n = some b := by simp [Listed.sectors]

theorem sectors_cons_other {n m : UInt32} (hm : m ≠ n) (b : Block) (entries : List (UInt32 × Block))
    (faults : List Bool) :
    Listed.sectors ⟨(n, b) :: entries, faults⟩ m = Listed.sectors ⟨entries, faults⟩ m := by
  simp [Listed.sectors, hm.symm]

theorem listed_lawful : Lawful listed Listed.sectors where
  initialized := fun _ => rfl
  opened := fun _ => rfl
  cached := fun _ => rfl
  closed := fun _ => rfl
  mapped := fun d _ _ => by
    constructor
    · intro hempty n
      have hnil : d.entries = [] := List.length_eq_zero_iff.mp hempty
      simp [Listed.sectors, hnil]
    · intro hnone
      cases hentries : d.entries with
      | nil => simp [listed, hentries]
      | cons w entries =>
        have hw := hnone w.1
        simp [Listed.sectors, hentries] at hw
  read := fun d n b hb _ => by simp [listed, hb]
  readKeeps := fun d n m b hb => by
    simp only [listed]
    split
    · exact hb
    · rename_i hnone
      have hm : m ≠ n := by
        intro heq
        rw [heq, hnone] at hb
        cases hb
      rw [sectors_cons_other hm]
      exact hb
  written := fun d n b h => by
    simp only [listed] at h ⊢
    split at h
    · cases h
    · exact sectors_cons_self n b d.entries _
  writeKeeps := fun d n b m hm => by
    simp only [listed]
    split
    · rfl
    · exact sectors_cons_other hm b d.entries _
  releaseKeeps := fun d n m hm => by
    simp only [listed]
    split
    · rfl
    · simp only [Listed.sectors, List.find?_filter]
      congr 2
      funext w
      by_cases hw : w.1 = m
      · simp [hw, hm]
      · simp [hw]

/-- The boot record, and a format and a mount that know nothing else. -/
def small : FileX where
  mediaFormat := .request .init fun _ => .request (.bootWrite [0xEB, 0x90]) fun _ =>
    .request (.write 1 [[0, 0]]) fun a => .request .uninit fun _ => .done (if a.success then 0 else 0x90)
  mediaOpen := .request .init fun _ => .request .bootRead fun a =>
    .done (if a.blocks = [[0xEB, 0x90]] then 0 else 0x02)

/-- The first start is cut off in the format, the next one mounts what it has left; of two writes the
second fails at its second sector, and the power is off again. -/
def cutFormat : List Event :=
  [.start ⟨true, 2, 9⟩, .start ⟨true, 9, 9⟩, .request (.write 5 [[7, 7]]),
    .request (.write 6 [[8, 8], [9, 9]]), .start ⟨true, 9, 1⟩]

theorem acknowledged_kept_cutFormat : ∃ f known, known 5 = some [7, 7] ∧ known 6 = none ∧
    f.diagnostics.flashMounted = false ∧ Durable listed Listed.sectors small f known := by
  have hopen : small.mediaOpen.ReadOnly := ⟨rfl, fun _ => ⟨rfl, fun _ => trivial⟩⟩
  exact ⟨_, _, by decide +kernel, by decide +kernel, by decide +kernel,
    acknowledged_kept listed_lawful hopen { device := ⟨[], [false, false, false, true]⟩ } cutFormat⟩

end SimPLCity.FlashMedia
