import Spacegate.Foundation.Disk

/-!
# Programs of file system operations

A program performs one operation after the other, each of which may depend on the
results before it.  `run` performs all of them without interruption.  In `runFaulty`
single operations fail although the disk would allow them.

A program of the kind `ExceptT ε Prog` may end with an error; `exec` runs it.
-/

namespace Spacegate.Foundation

open ExceptT

open Disk (Location)

/-- The order in which directories and hash maps are iterated. -/
structure IterOrder where
  iter : {α : Type} → List α → List α
  perm : ∀ {α : Type} (xs : List α), (iter xs).Perm xs

/-- Nothing is reordered. -/
def IterOrder.unchanged : IterOrder where
  iter := fun xs => xs
  perm := fun xs => .refl xs

inductive Op where
  | read (l : Location)
  | write (l : Location) (content : List UInt8)
  | createDirAll (l : Location)
  /-- Open a directory. -/
  | readDir (l : Location)
  /-- Take all entries of an open directory. -/
  | entries (l : Location)
  | pathExists (l : Location)
  | isFile (l : Location)
  | isDir (l : Location)
  /-- Whether an entry is a directory. -/
  | fileType (l : Location)
  | removeFile (l : Location)
  | removeDirAll (l : Location)
  deriving DecidableEq, Repr

namespace Op

def Result : Op → Type
  | .read _ => Except IoError (List UInt8)
  | .entries _ => Except IoError (List String)
  | .fileType _ => Except IoError Bool
  | .pathExists _ | .isFile _ | .isDir _ => Bool
  | .write _ _ | .createDirAll _ | .readDir _ | .removeFile _ | .removeDirAll _ =>
    Except IoError Unit

/-- The result of an operation that yields a new tree or an error. -/
def changing (d : Disk) : Except IoError Disk → Except IoError Unit × Disk
  | .ok d' => (.ok (), d')
  | .error e => (.error e, d)

def perform (order : IterOrder) : (op : Op) → Disk → op.Result × Disk
  | .read l, d => (d.read l, d)
  | .write l content, d => changing d (d.write l content)
  | .createDirAll l, d => changing d (d.createDirAll l)
  | .readDir l, d => (if d.get l = some .dir then .ok () else .error .notFound, d)
  | .entries l, d => (.ok (order.iter (d.children l)), d)
  | .pathExists l, d => ((d.get l).isSome, d)
  | .isFile l, d => (Disk.isFileNode (d.get l), d)
  | .isDir l, d => (decide (d.get l = some .dir), d)
  | .fileType l, d => ((d.get l).elim (.error .notFound) fun node => .ok (node == .dir), d)
  | .removeFile l, d => changing d (d.removeFile l)
  | .removeDirAll l, d => changing d (d.removeDirAll l)

/-- What a failing operation returns; the questions are then answered with no. -/
def failed : (op : Op) → op.Result
  | .pathExists _ | .isFile _ | .isDir _ => false
  | .read _ => (.error .fault : Except IoError (List UInt8))
  | .entries _ => (.error .fault : Except IoError (List String))
  | .fileType _ => (.error .fault : Except IoError Bool)
  | .write _ _ | .createDirAll _ | .readDir _ | .removeFile _ | .removeDirAll _ =>
    (.error .fault : Except IoError Unit)

/-- The operation leaves the disk as it is. -/
def reads : Op → Bool
  | .write _ _ | .createDirAll _ | .removeFile _ | .removeDirAll _ => false
  | _ => true

theorem perform_of_reads {order : IterOrder} {op : Op} (h : op.reads = true) (d : Disk) :
    (op.perform order d).2 = d := by
  cases op <;> first | rfl | cases h

end Op

inductive Prog (α : Type) where
  | done (a : α)
  | step (op : Op) (next : op.Result → Prog α)

namespace Prog

variable {α β ε : Type} {order : IterOrder}

def bind (p : Prog α) (f : α → Prog β) : Prog β :=
  match p with
  | .done a => f a
  | .step op next => .step op fun r => (next r).bind f

instance : Monad Prog where
  pure := .done
  bind := bind

def run (order : IterOrder) : Prog α → Disk → α × Disk
  | .done a, d => (a, d)
  | .step op next, d =>
    let performed := op.perform order d
    run order (next performed.1) performed.2

/-- The operations for which `faults` has `true` fail; behind its end none does. -/
def runFaulty (order : IterOrder) : Prog α → List Bool → Disk → α × Disk
  | .done a, _, d => (a, d)
  | .step op next, true :: faults, d => runFaulty order (next op.failed) faults d
  | .step op next, faults, d =>
    let performed := op.perform order d
    runFaulty order (next performed.1) faults.tail performed.2

/-- What a run leaves of `faults`. -/
def faultsLeft (order : IterOrder) : Prog α → List Bool → Disk → List Bool
  | .done _, faults, _ => faults
  | .step op next, true :: faults, d => faultsLeft order (next op.failed) faults d
  | .step op next, faults, d =>
    let performed := op.perform order d
    faultsLeft order (next performed.1) faults.tail performed.2

/-- No operation of the program changes the disk. -/
def Reads : Prog α → Prop
  | .done _ => True
  | .step op next => op.reads = true ∧ ∀ r, (next r).Reads

theorem run_bind (p : Prog α) (f : α → Prog β) (d : Disk) :
    (p >>= f).run order d = (f (p.run order d).1).run order (p.run order d).2 := by
  induction p generalizing d with
  | done a => rfl
  | step op next ih => exact ih _ _

theorem runFaulty_of_no_fault {faults : List Bool} (h : ∀ fault ∈ faults, fault = false)
    (p : Prog α) (d : Disk) : p.runFaulty order faults d = p.run order d := by
  induction p generalizing faults d with
  | done a => cases faults <;> rfl
  | step op next ih =>
    cases faults with
    | nil => exact ih _ h _
    | cons fault faults =>
      have hf := h fault List.mem_cons_self
      subst hf
      exact ih _ (fun fault hMem => h fault (List.mem_cons_of_mem _ hMem)) _

theorem runFaulty_bind (p : Prog α) (f : α → Prog β) (faults : List Bool) (d : Disk) :
    (p >>= f).runFaulty order faults d =
      (f (p.runFaulty order faults d).1).runFaulty order (p.faultsLeft order faults d)
        (p.runFaulty order faults d).2 := by
  induction p generalizing faults d with
  | done a => cases faults <;> rfl
  | step op next ih =>
    rcases faults with _ | ⟨_ | _, faults⟩
    · exact ih _ _ _
    · exact ih _ _ _
    · exact ih _ _ _

theorem Reads.bind {p : Prog α} {f : α → Prog β} (hp : p.Reads) (hf : ∀ a, (f a).Reads) :
    (p >>= f).Reads := by
  induction p with
  | done a => exact hf a
  | step op next ih => exact ⟨hp.1, fun r => ih r (hp.2 r)⟩

/-- Whatever fails, the disk stays as it is. -/
theorem Reads.runFaulty {p : Prog α} (h : p.Reads) (faults : List Bool) (d : Disk) :
    (p.runFaulty order faults d).2 = d := by
  induction p generalizing faults d with
  | done a => cases faults <;> rfl
  | step op next ih =>
    have hd : (op.perform order d).2 = d := Op.perform_of_reads h.1 d
    rcases faults with _ | ⟨_ | _, faults⟩
    · exact (ih _ (h.2 _) _ _).trans hd
    · exact (ih _ (h.2 _) _ _).trans hd
    · exact ih _ (h.2 _) _ _

end Prog

/-! ## Programs that may end with an error -/

/-- A program with the errors `ε`. -/
abbrev DiskM (ε : Type) := ExceptT ε Prog

namespace DiskM

variable {α β ε : Type} {order : IterOrder}

def exec (order : IterOrder) (p : DiskM ε α) (d : Disk) : Except ε α × Disk :=
  Prog.run order (run p) d

/-- Perform an operation and look at its result. -/
def ask (op : Op) : DiskM ε op.Result :=
  ExceptT.lift (.step op .done)

variable (wrap : IoError → ε)

/-- `?` on the result of an operation. -/
def orFail (result : Except IoError α) : DiskM ε α :=
  mk (pure (result.mapError wrap))

/-- `?` on a result that was computed. -/
def ofExcept (result : Except ε α) : DiskM ε α :=
  mk (pure result)

theorem exec_pure (a : α) (d : Disk) : (pure a : DiskM ε α).exec order d = (.ok a, d) := rfl

theorem exec_ofExcept (result : Except ε α) (d : Disk) :
    (ofExcept result).exec order d = (result, d) := rfl

theorem exec_orFail (result : Except IoError α) (d : Disk) :
    (orFail wrap result).exec order d = (result.mapError wrap, d) := rfl

variable (p : DiskM ε α) (f : α → DiskM ε β)

theorem exec_bind (d : Disk) : (p >>= f).exec order d =
      match p.exec order d with
      | (.ok a, d') => (f a).exec order d'
      | (.error e, d') => (.error e, d') := by
  have hb : ExceptT.run (p >>= f) = ExceptT.run p >>= ExceptT.bindCont f := rfl
  rw [exec, hb, Prog.run_bind, exec]
  obtain ⟨result, d'⟩ := Prog.run order (ExceptT.run p) d
  cases result <;> rfl

theorem exec_bind_ok {p : DiskM ε α} {f : α → DiskM ε β} {d d' : Disk} {a : α}
    (h : p.exec order d = (.ok a, d')) : (p >>= f).exec order d = (f a).exec order d' := by
  rw [exec_bind, h]

/-- The program only reads. -/
def Reads : Prop :=
  Prog.Reads (ExceptT.run p)

theorem reads_ask {op : Op} (h : op.reads = true) : (ask op : DiskM ε op.Result).Reads :=
  ⟨h, fun _ => trivial⟩

theorem reads_pure (a : α) : (pure a : DiskM ε α).Reads :=
  trivial

theorem reads_ofExcept (result : Except ε α) : (ofExcept result).Reads :=
  trivial

theorem Reads.bind {p : DiskM ε α} {f : α → DiskM ε β} (hp : p.Reads) (hf : ∀ a, (f a).Reads) :
    (p >>= f).Reads := by
  refine Prog.Reads.bind hp ?_
  rintro (e | a)
  · trivial
  · exact hf a

def execFaulty (order : IterOrder) (p : DiskM ε α) (faults : List Bool) (d : Disk) :
    Except ε α × Disk :=
  Prog.runFaulty order (run p) faults d

/-- What a run leaves of `faults`. -/
def faultsLeft (order : IterOrder) (p : DiskM ε α) (faults : List Bool) (d : Disk) : List Bool :=
  Prog.faultsLeft order (run p) faults d

theorem execFaulty_bind (faults : List Bool) (d : Disk) :
    (p >>= f).execFaulty order faults d =
      match p.execFaulty order faults d with
      | (.ok a, d') => (f a).execFaulty order (p.faultsLeft order faults d) d'
      | (.error e, d') => (.error e, d') := by
  have hb : ExceptT.run (p >>= f) = ExceptT.run p >>= ExceptT.bindCont f := rfl
  rw [execFaulty, hb, Prog.runFaulty_bind, execFaulty]
  obtain ⟨result, d'⟩ := Prog.runFaulty order (ExceptT.run p) faults d
  cases result with
  | ok a => rfl
  | error e => cases Prog.faultsLeft order (run p) faults d <;> rfl

section Changes

variable (wrap : IoError → ε) (l : Location) (d : Disk)

def write (content : List UInt8) : DiskM ε Unit := do
  let result ← ask (.write l content)
  orFail wrap result

def createDirAll : DiskM ε Unit := do
  let result ← ask (.createDirAll l)
  orFail wrap result

def removeFile : DiskM ε Unit := do
  let result ← ask (.removeFile l)
  orFail wrap result

def removeDirAll : DiskM ε Unit := do
  let result ← ask (.removeDirAll l)
  orFail wrap result

variable {wrap l d} {d' : Disk}

theorem changing_ok {result : Except IoError Disk} (h : result = .ok d') :
    ((Op.changing d result).1.mapError wrap, (Op.changing d result).2) = (.ok (), d') := by
  rw [h]
  rfl

theorem exec_write_ok {content : List UInt8} (h : d.write l content = .ok d') :
    (write wrap l content).exec order d = (.ok (), d') :=
  changing_ok h

theorem exec_createDirAll_ok (h : d.createDirAll l = .ok d') :
    (createDirAll wrap l).exec order d = (.ok (), d') :=
  changing_ok h

theorem exec_removeFile_ok (h : d.removeFile l = .ok d') :
    (removeFile wrap l).exec order d = (.ok (), d') :=
  changing_ok h

theorem exec_removeDirAll_ok (h : d.removeDirAll l = .ok d') :
    (removeDirAll wrap l).exec order d = (.ok (), d') :=
  changing_ok h

end Changes

end DiskM
end Spacegate.Foundation
