import Agent24.Library.Table

/-! The Provider's persistence ledger: the seal, the tightenings whose record is not yet confirmed, the
loosenings on their way, and the seal's writes as the journal reports them. -/

set_option autoImplicit false
namespace Agent24.Provider
open Library

inductive Scope (P : Type) where
  | host
  | profiles (named : List P)
  deriving DecidableEq

section
variable {P : Type}

def Scope.profile (p : P) : Scope P := .profiles [p]

/-- An unconfirmed tightening over the first refuses a loosening over the second. -/
def Scope.blocks [DecidableEq P] : Scope P → Scope P → Bool
  | .host, _ | _, .host => true
  | .profiles a, .profiles b => a.any fun p => b.contains p

end

structure Ticket where
  number : Nat
  deriving DecidableEq

structure Loosening where
  number : Nat
  deriving DecidableEq

structure SealOp where
  number : Nat
  deriving DecidableEq

structure Tightening where
  ticket : Ticket
  unsealOp : Option SealOp
  deriving DecidableEq

inductive Refused where
  | knowledgeOff
  | localStorage
  deriving DecidableEq

inductive Confirmed where
  | applied
  | ignored
  deriving DecidableEq

inductive Seal where
  | present
  | deleting (op : SealOp)
  | absent
  | rebuilding (op : SealOp)
  deriving DecidableEq

structure Tight (P : Type) where
  ticket : Ticket
  scope : Scope P
  committed : Bool
  failed : Bool

structure Loose (P : Type) where
  ticket : Loosening
  scope : Scope P

structure Ledger (P : Type) where
  sealState : Seal
  tight : Table (@Tight.ticket P)
  loose : Table (@Loose.ticket P)
  applied : List Loosening
  redelete : Bool
  next : Nat

/-- How a write ended; `failed` also when its outcome is unknown. -/
inductive Written where
  | durable
  | failed
  deriving DecidableEq

inductive SealWrite where
  | delete (op : SealOp)
  | rebuild (op : SealOp)
  deriving DecidableEq

def SealWrite.op : SealWrite → SealOp
  | .delete op | .rebuild op => op

namespace Ledger
variable {P : Type}

def new (sealPresent : Bool) : Ledger P where
  sealState := if sealPresent then .present else .absent
  tight := .empty
  loose := .empty
  applied := []
  redelete := false
  next := 0

section
variable (l : Ledger P)

def deleting : Ledger P × SealOp :=
  let op : SealOp := ⟨l.next + 1⟩
  ({ l with next := l.next + 1, sealState := .deleting op }, op)

def unsealing : Ledger P × Option SealOp :=
  match l.sealState with
  | .present => (l.deleting.1, some l.deleting.2)
  -- the deletion follows the rebuild
  | .rebuilding _ => ({ l with redelete := true }, none)
  | .deleting _ | .absent => (l, none)

def tighten (scope : Scope P) : Ledger P × Tightening :=
  let ticket : Ticket := ⟨l.next + 1⟩
  let unsealed := ({ l with next := l.next + 1 }).unsealing
  let committed := decide (unsealed.1.sealState = .absent)
  ({ unsealed.1 with tight := unsealed.1.tight.put ⟨ticket, scope, committed, false⟩ },
    ⟨ticket, unsealed.2⟩)

def committed (ticket : Ticket) : Bool :=
  (l.tight.find ticket).all (·.committed)

def recordDurable (ticket : Ticket) : Ledger P :=
  { l with tight := l.tight.deleteWhere fun t => decide (t.ticket = ticket) }

def recordFailed (ticket : Ticket) : Ledger P :=
  { l with
    tight := l.tight.update (fun t => decide (t.ticket = ticket)) (fun t => { t with failed := true })
      fun _ => rfl }

def unsaved : Bool := l.tight.rows.any (·.failed)

def sealDeleted (op : SealOp) : Ledger P :=
  if l.sealState = .deleting op then
    { l with
      sealState := .absent
      tight := l.tight.update (fun _ => true) (fun t => { t with committed := true }) fun _ => rfl }
  else l

def sealDeleteFailed (op : SealOp) : Ledger P × Option SealOp :=
  if l.sealState = .deleting op then
    if l.tight.rows.any (fun t => !t.committed) then (l.deleting.1, some l.deleting.2)
    else ({ l with sealState := .present }, none)
  else (l, none)

/-- The rebuild to start now: the seal is gone and every tightening is confirmed. -/
def reseal : Ledger P × Option SealOp :=
  if l.sealState = .absent ∧ l.tight.rows = [] then
    let op : SealOp := ⟨l.next + 1⟩
    ({ l with next := l.next + 1, sealState := .rebuilding op, redelete := false }, some op)
  else (l, none)

def resealed (op : SealOp) : Ledger P × Option SealOp :=
  if l.sealState = .rebuilding op then
    if l.redelete then (l.deleting.1, some l.deleting.2) else ({ l with sealState := .present }, none)
  else (l, none)

def loosen [DecidableEq P] (scope : Scope P) (after : Option Loosening) (off : Bool) :
    Ledger P × Except Refused Loosening :=
  let blocked := l.tight.rows.any fun t => t.scope.blocks scope
  let waiting := after.any fun a => !l.applied.contains a
  if blocked || waiting then (l, .error (if off then .knowledgeOff else .localStorage))
  else
    let ticket : Loosening := ⟨l.next + 1⟩
    ({ l with next := l.next + 1, loose := l.loose.put ⟨ticket, scope⟩ }, .ok ticket)

def withdraw (ticket : Loosening) : Ledger P :=
  { l with loose := l.loose.deleteWhere fun r => decide (r.ticket = ticket) }

def looseningDurable (ticket : Loosening) : Ledger P × Confirmed :=
  match l.loose.find ticket with
  | none => (l, .ignored)
  | some _ => ({ l.withdraw ticket with applied := ticket :: l.applied }, .applied)

def abandon (ticket : Loosening) : Ledger P × Option Tightening :=
  match l.loose.find ticket with
  | none => (l, none)
  | some row =>
    let offset := (l.withdraw ticket).tighten row.scope
    (offset.1, some offset.2)

/-- The seal write `write` ended: the next one to start, if any. -/
def sealed (write : SealWrite) (outcome : Written) : Ledger P × Option SealWrite :=
  match write, outcome with
  | .delete op, .durable => (l.sealDeleted op).reseal.map id (·.map .rebuild)
  | .delete op, .failed => (l.sealDeleteFailed op).map id (·.map .delete)
  -- landed or not, the seal may be there now
  | .rebuild op, _ => (l.resealed op).map id (·.map .delete)

end

end Ledger
end Agent24.Provider
