import EventMachine.Machine

/-!
# Registering event descriptors

`event_machine_add()`, `event_machine_delete()` and `event_machine_modify()` of `event-machine.c`.
Each changes the interest set of the queue first and asks the storage callbacks afterwards.

A pointer to the caller's variable, `EM_event_descriptor **`, is passed as the content of that
variable (`none` for `NULL`), and the content it has afterwards is part of the result.
-/

namespace EventMachine

open Lib

variable {σ : Type}

/-- The caller's variable for a descriptor: its content, or `none` for a `NULL` pointer. -/
abbrev OutVar := Option EDRef

/-- `STORAGE_INSERT_ENTRY`. -/
def storageInsertEntry (insert : Int → EDRef → σ → UInt32 × σ) (fd : Int) (ptr : EDRef) :
    Sys σ UInt32 :=
  modifyGet fun w =>
    ((insert fd ptr w.storage).1, { w with storage := (insert fd ptr w.storage).2 })

/-- `STORAGE_REMOVE_ENTRY`, with what it leaves in its result argument. -/
def storageRemoveEntry (remove : Int → σ → UInt32 × EDRef × σ) (fd : Int) : Sys σ (UInt32 × EDRef) :=
  modifyGet fun w =>
    (((remove fd w.storage).1, (remove fd w.storage).2.1),
      { w with storage := (remove fd w.storage).2.2 })

/-- `event_machine_add()`. -/
def eventMachineAdd (em : EMRef) (ed : EDRef) : Sys σ UInt32 := do
  let some em := em | return EMResult.errorNull.code
  let some ed := ed | return EMResult.errorDescriptorNull.code
  let m ← getEM em
  let d ← getED ed
  if m.queueFd < 0 ∨ d.fd < 0 then
    setErrno .EBADF
    return EMResult.errorBadfd.code
  let flags ← fcntlGetfl (.machine em) m.queueFd
  if flags < 0 then return EMResult.errorBadfd.code
  let flags ← fcntlGetfl (.machine em) d.fd
  if flags < 0 then return EMResult.errorBadfd.code
  let ret ← eventCtl (.machine em) m.queueFd (some ed) (-1) .add
  if ret ≠ 0 then return EMResult.errorEventCtl.code
  match m.descriptorStorage.insert with
  | some insert => storageInsertEntry insert d.fd (some ed)
  | none => return EMResult.success.code

/-- `remove_event_descriptor()`. -/
def removeEventDescriptor (em : EMPtr) (fd : Int) (oldEd : OutVar) : Sys σ (UInt32 × OutVar) := do
  cAssert (0 ≤ fd)
  let m ← getEM em
  match m.descriptorStorage.remove with
  | some remove =>
    let (ret, tmpEd) ← storageRemoveEntry remove fd
    match tmpEd, oldEd with
    | some p, some _ => return (ret, some (some p))
    | _, _ => return (ret, oldEd)
  | none => return (EMResult.success.code, oldEd)

/-- `event_machine_delete()`. -/
def eventMachineDelete (em : EMRef) (fd : Int) (oldEd : OutVar) : Sys σ (UInt32 × OutVar) := do
  let some em := em | return (EMResult.errorNull.code, oldEd)
  let m ← getEM em
  if m.queueFd < 0 ∨ fd < 0 then
    setErrno .EBADF
    return (EMResult.errorBadfd.code, oldEd)
  let flags ← fcntlGetfl (.machine em) m.queueFd
  if flags < 0 then return (EMResult.errorBadfd.code, oldEd)
  let flags ← fcntlGetfl (.machine em) fd
  if flags < 0 then return (EMResult.errorBadfd.code, oldEd)
  let ret ← eventCtl (.machine em) m.queueFd none fd .del
  if ret ≠ 0 then return (EMResult.errorEventCtl.code, oldEd)
  removeEventDescriptor em fd oldEd

/-- `event_machine_modify()`. -/
def eventMachineModify (em : EMRef) (fd : Int) (ed : EDRef) (oldEd : OutVar) :
    Sys σ (UInt32 × OutVar) := do
  let some em := em | return (EMResult.errorNull.code, oldEd)
  let m ← getEM em
  if m.queueFd < 0 ∨ fd < 0 then
    setErrno .EBADF
    return (EMResult.errorBadfd.code, oldEd)
  let flags ← fcntlGetfl (.machine em) m.queueFd
  if flags < 0 then return (EMResult.errorBadfd.code, oldEd)
  let flags ← fcntlGetfl (.machine em) fd
  if flags < 0 then return (EMResult.errorBadfd.code, oldEd)
  let ret ← eventCtl (.machine em) m.queueFd ed (-1) .mod
  if ret ≠ 0 then return (EMResult.errorEventCtl.code, oldEd)
  let (ret, oldEd) ← removeEventDescriptor em fd oldEd
  if ¬ isEmSuccess ret then return (ret, oldEd)
  match m.descriptorStorage.insert with
  | some insert =>
    let ret ← storageInsertEntry insert fd ed
    return (ret, oldEd)
  | none => return (ret, oldEd)

/-- A call of one of the three functions, with the arguments after the machine. -/
inductive RegCall
  | add (ed : EDRef)
  | delete (fd : Int) (oldEd : OutVar)
  | modify (fd : Int) (ed : EDRef) (oldEd : OutVar)
  deriving DecidableEq

/-- The caller's variable, which `event_machine_add()` does not have. -/
def RegCall.oldEd : RegCall → OutVar
  | .add _ => none
  | .delete _ oldEd => oldEd
  | .modify _ _ oldEd => oldEd

def RegCall.exec (em : EMRef) : RegCall → Sys σ (UInt32 × OutVar)
  | .add ed => do return (← eventMachineAdd em ed, none)
  | .delete fd oldEd => eventMachineDelete em fd oldEd
  | .modify fd ed oldEd => eventMachineModify em fd ed oldEd

end EventMachine
