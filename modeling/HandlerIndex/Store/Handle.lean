import HandlerIndex.Store.Updates

/-!
A store in use: the tables behind a lock that every call takes first. Decoding makes room for a text
by the length that its blob announces. A length that no vector can have ends the call in a panic
while it holds the lock, and one for which the machine has no room ends the process. After a panic
the lock is poisoned, and every later call is refused until the store is opened anew. Left out are
calls that wait for one another.
-/
namespace HandlerIndex.Store

def capacity : Nat := 0x7fffffffffffffff

-- A number in a blob has at most eight bytes, and is read without new room.
structure Handle where
  tables : Tables
  room : Nat
  poisoned : Bool
  enough : 8 ≤ room
  bounded : room ≤ capacity

inductive Reply (α : Type) where
  | answer (result : Except Fault α)
  | panicked
  | aborted

def Reply.isPanic {α : Type} : Reply α → Bool
  | .panicked => true
  | _ => false

namespace Handle
variable {α : Type}

def reply (handle : Handle) : Except Fault α → Reply α
  | .ok value => .answer (.ok value)
  | .error fault =>
    if capacity < fault.wanted then .panicked
    else if handle.room < fault.wanted then .aborted
    else .answer (.error fault)

def ask (handle : Handle) (question : Tables → Except Fault α) : Reply α × Handle :=
  if handle.poisoned then (.answer (.error .poisoned), handle)
  else
    let reply := handle.reply (question handle.tables)
    (reply, { handle with poisoned := reply.isPanic })

-- Opening the tables anew makes a new lock.
def perform (handle : Handle) (operation : Operation) : Reply Answer × Handle :=
  if handle.poisoned ∧ operation ≠ .reopen then (.answer (.error .poisoned), handle)
  else
    let (answer, tables) := handle.tables.perform operation
    (.answer (.ok answer), { handle with tables := tables, poisoned := false })

end Handle
end HandlerIndex.Store
