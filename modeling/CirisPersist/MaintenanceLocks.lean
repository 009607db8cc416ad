import CirisPersist.Base.External
import CirisPersist.Base.Json
import CirisPersist.Library.Checks

/-!
# Maintenance locks

The row of a lock key is a mutex with a lease.  A worker takes it by an upsert that checks and
writes the row in one statement and stamps it with the clock of the store, so the calls of all
workers on a key come one after the other.  No call touches the row of another key.  The calls
are those of the Postgres backend, which compares exact instants; the SQLite one compares
Julian days as floating-point numbers and is left out.
-/

namespace CirisPersist.MaintenanceLocks

structure MaintenanceLock where
  lockKey : String
  lockedBy : Option String
  lockedAt : Option Instant
  lockTimeoutSeconds : Int
  metadata : Option Json
deriving DecidableEq

namespace MaintenanceLock

def leaseEnd (lock : MaintenanceLock) (lockedAt : Instant) : Instant :=
  lockedAt + Instant.ofSeconds lock.lockTimeoutSeconds

def isExpired (lock : MaintenanceLock) (now : Instant) : Bool :=
  match lock.lockedBy, lock.lockedAt with
  | some _, some lockedAt => lock.leaseEnd lockedAt < now
  | _, _ => true

end MaintenanceLock

inductive Error where
  | invalidArgument (message : String)
deriving DecidableEq

open Checks in
def requireNames (lockKey lockedBy : String) : Except Error Unit := do
  require (lockKey ≠ "") (.invalidArgument "lock_key required")
  require (lockedBy ≠ "") (.invalidArgument "locked_by required")

def validateAcquireArgs (lockKey lockedBy : String) (timeoutSeconds : Int) :
    Except Error Unit := do
  requireNames lockKey lockedBy
  Checks.require (0 < timeoutSeconds)
    (.invalidArgument s!"timeout_seconds must be > 0, got {timeoutSeconds}")

section Calls

variable (lockKey lockedBy : String)

def tryAcquireLock (now : Instant) (timeoutSeconds : Int) (metadata : Option Json)
    (stored : Option MaintenanceLock) :
    Except Error (Option MaintenanceLock) × Option MaintenanceLock :=
  match validateAcquireArgs lockKey lockedBy timeoutSeconds with
  | .error e => (.error e, stored)
  | .ok () =>
      if stored.all fun row => row.lockedBy == some lockedBy || row.isExpired now then
        let row := some ⟨lockKey, some lockedBy, some now, timeoutSeconds, metadata⟩
        (.ok row, row)
      else
        (.ok none, stored)

def releaseLock (stored : Option MaintenanceLock) :
    Except Error Bool × Option MaintenanceLock :=
  match requireNames lockKey lockedBy with
  | .error e => (.error e, stored)
  | .ok () =>
      if stored.any fun row => row.lockedBy == some lockedBy then
        (.ok true, stored.map fun row => { row with lockedBy := none, lockedAt := none })
      else
        (.ok false, stored)

end Calls

/-!
## The lease
-/

inductive Call where
  | acquire (worker : String) (now : Instant) (timeoutSeconds : Int) (metadata : Option Json)
  | release (worker : String)

def serve (lockKey : String) (stored : Option MaintenanceLock) : Call -> Option MaintenanceLock
  | .acquire worker now timeout metadata =>
      (tryAcquireLock lockKey worker now timeout metadata stored).2
  | .release worker => (releaseLock lockKey worker stored).2

def Call.Foreign (holder : String) (leaseEnd : Instant) : Call -> Prop
  | .acquire worker now _ _ => worker ≠ holder ∧ now ≤ leaseEnd
  | .release worker => worker ≠ holder

section Lease

variable {lockKey holder : String} {row : MaintenanceLock} {start : Instant}
  (hby : row.lockedBy = some holder) (hat : row.lockedAt = some start)

include hby hat

theorem tryAcquireLock_held_iff
    {worker : String} {timeout : Int}
    (hvalid : validateAcquireArgs lockKey worker timeout = .ok ()) (now : Instant)
    (metadata : Option Json) :
    tryAcquireLock lockKey worker now timeout metadata (some row) = (.ok none, some row) <->
      worker ≠ holder ∧ now ≤ row.leaseEnd start := by
  simp only [tryAcquireLock, hvalid, Option.all_some, MaintenanceLock.isExpired, hby, hat]
  by_cases hsame : worker = holder
  · simp [hsame]
  · have hother : holder ≠ worker := Ne.symm hsame
    by_cases hover : row.leaseEnd start < now
    · simp [hover]
    · simp [hother, hsame, hover, not_lt.mp hover]

theorem serve_foreign
    {call : Call} (h : call.Foreign holder (row.leaseEnd start)) :
    serve lockKey (some row) call = some row := by
  cases call with
  | acquire worker now timeout metadata =>
      cases hvalid : validateAcquireArgs lockKey worker timeout with
      | error e => simp [serve, tryAcquireLock, hvalid]
      | ok _ => rw [serve, (tryAcquireLock_held_iff hby hat hvalid now metadata).mpr h]
  | release worker =>
      have hother : holder ≠ worker := Ne.symm h
      cases hnames : requireNames lockKey worker with
      | error e => simp [serve, releaseLock, hnames]
      | ok _ => simp [serve, releaseLock, hnames, hby, hother]

/-- A worker keeps the lock it holds, whatever the others call before the lease is over, and
another worker is told that the lock is held exactly as long as the lease runs. -/
theorem lease_is_exclusive
    (calls : List Call) (hcalls : forall c, c ∈ calls -> c.Foreign holder (row.leaseEnd start)) :
    let reached := calls.foldl (serve lockKey) (some row)
    reached = some row ∧ forall worker now timeout metadata,
      validateAcquireArgs lockKey worker timeout = .ok () ->
      (tryAcquireLock lockKey worker now timeout metadata reached = (.ok none, reached) <->
        worker ≠ holder ∧ now ≤ row.leaseEnd start) := by
  have hkept : calls.foldl (serve lockKey) (some row) = some row := by
    induction calls with
    | nil => rfl
    | cons c calls ih =>
        rw [List.foldl_cons, serve_foreign hby hat (hcalls c List.mem_cons_self)]
        exact ih fun c hc => hcalls c (List.mem_cons_of_mem _ hc)
  refine ⟨hkept, ?_⟩
  rw [hkept]
  exact fun worker now timeout metadata hvalid =>
    tryAcquireLock_held_iff hby hat hvalid now metadata

end Lease

theorem vacuum_stays_locked :
    let row : MaintenanceLock := ⟨"vacuum", some "a", some 0, 300, none⟩
    [.acquire "b" 5 60 none, .release "b"].foldl (serve "vacuum") (some row) = some row := by
  refine (lease_is_exclusive rfl rfl [.acquire "b" 5 60 none, .release "b"] ?_).1
  simp [Call.Foreign]
  decide

end CirisPersist.MaintenanceLocks
