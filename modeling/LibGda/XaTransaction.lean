import LibGda.Rfc1738
import LibGda.RunInvariant
import Mathlib.Data.List.Nodup

/-! `GdaXaTransaction`: a distributed transaction on several connections. One of them may be of a
provider without the functions for distributed transactions. -/

namespace LibGda

open RunInvariant

structure GdaXaTransactionId where
  format : Nat
  gtridLength : Nat
  bqualLength : Nat
  data : Bytes
  deriving DecidableEq

/-- The functions which a provider has among its `xa_funcs`. -/
structure XaFuncs where
  xaStart : Bool := true
  xaEnd : Bool := true
  xaPrepare : Bool := true
  xaCommit : Bool := true
  xaRollback : Bool := true
  xaRecover : Bool := true
  deriving DecidableEq

inductive XaCall (C : Type) where
  | xaStart (cnc : C) (xid : GdaXaTransactionId)
  | xaEnd (cnc : C) (xid : GdaXaTransactionId)
  | xaPrepare (cnc : C) (xid : GdaXaTransactionId)
  | xaCommit (cnc : C) (xid : GdaXaTransactionId)
  | xaRollback (cnc : C) (xid : GdaXaTransactionId)
  | xaRecover (cnc : C)
  | beginTransaction (cnc : C)
  | commitTransaction (cnc : C)
  | rollbackTransaction (cnc : C)
  deriving DecidableEq

structure XaAnswers (C : Type) where
  succeeds : XaCall C → Bool
  /-- the list of `xa_recover`, where an id of an unknown format is missing -/
  recovered : C → List (Option GdaXaTransactionId)

inductive XaFault where
  /-- the `xa_funcs` of the provider are read, but there are none -/
  | noFunctions
  /-- the function which is called is missing -/
  | missingFunction
  /-- the connection has no branch -/
  | noBranch
  deriving DecidableEq

/-- The object which a connection is marked with, as its data `_gda_xa_transaction`. -/
inductive XaOwner where
  | thisTransaction
  | another
  deriving DecidableEq

structure GdaXaTransaction (C : Type) where
  xid : GdaXaTransactionId
  cncHash : C → Option Bytes := fun _ => none
  cncList : List C := []
  nonXaCnc : Option C := none
  marks : C → Option XaOwner
  calls : List (XaCall C × Bool) := []

/-- `memcpy` to a place in a buffer. -/
def patched (data : Bytes) (pos : Nat) (bytes : Bytes) : Bytes :=
  data.take pos ++ bytes ++ data.drop (pos + bytes.length)

namespace GdaXaTransaction

variable {C : Type} [DecidableEq C]

/-- A new transaction of its two properties; an id of more than 64 bytes is left out. Where there
is no `transaction-id`, it is a text made of the address. -/
def new (formatId : Nat) (transactionId : CBytes) (marks : C → Option XaOwner) :
    GdaXaTransaction C :=
  let zeros := List.replicate 128 0
  { xid :=
      if transactionId.1.length > 64 then
        { format := formatId, gtridLength := 0, bqualLength := 0, data := zeros }
      else
        { format := formatId, gtridLength := transactionId.1.length, bqualLength := 0,
          data := patched zeros 0 transactionId.1 }
    marks }

section Registration

variable (provider : C → Option XaFuncs) (s : GdaXaTransaction C)

def add (cnc : C) (bin : Bytes) : GdaXaTransaction C :=
  { s with
    cncList := cnc :: s.cncList
    cncHash := Function.update s.cncHash cnc (some bin)
    marks := Function.update s.marks cnc (some .thisTransaction) }

def registerConnection (cnc : C) (branch : CBytes) : GdaXaTransaction C × Bool :=
  let bin := branch.1 ++ [0]
  if branch.1 = [] then (s, false)
  else if branch.1.length ≥ 64 then (s, false)
  else if (s.cncHash cnc).isSome then
    ({ s with cncHash := Function.update s.cncHash cnc (some bin) }, true)
  else if (s.marks cnc).isSome then (s, false)
  else if (provider cnc).isNone then
    if s.nonXaCnc.isSome then (s, false)
    else (add { s with nonXaCnc := some cnc } cnc bin, true)
  else (add s cnc bin, true)

def unregisterConnection (cnc : C) : GdaXaTransaction C :=
  if cnc ∈ s.cncList then
    { s with
      cncList := s.cncList.erase cnc
      cncHash := Function.update s.cncHash cnc none
      marks := Function.update s.marks cnc none }
  else s

end Registration

def tryEach {S : Type} (body : S → C → Except XaFault (S × Bool)) :
    List C → List C → S → Except XaFault (S × Option (List C))
  | _, [], s => .ok (s, none)
  | before, cnc :: cncs, s => do
    let r ← body s cnc
    if r.2 then tryEach body (cnc :: before) cncs r.1 else pure (r.1, some (cnc :: before))

section Operations

variable (provider : C → Option XaFuncs) (answers : XaAnswers C)

def call (s : GdaXaTransaction C) (c : XaCall C) : GdaXaTransaction C × Bool :=
  ({ s with calls := s.calls ++ [(c, answers.succeeds c)] }, answers.succeeds c)

def branched (s : GdaXaTransaction C) (branch : Bytes) : GdaXaTransaction C :=
  { s with xid := { s.xid with data := patched s.xid.data s.xid.gtridLength branch } }

def withBranch (s : GdaXaTransaction C) (cnc : C) : Except XaFault (GdaXaTransaction C) :=
  match s.cncHash cnc with
  | none => .error .noBranch
  | some branch => .ok (s.branched branch)

def xaFuncs (cnc : C) : Except XaFault XaFuncs :=
  match provider cnc with
  | none => .error .noFunctions
  | some funcs => .ok funcs

def startOn (s : GdaXaTransaction C) (cnc : C) : Except XaFault (GdaXaTransaction C × Bool) :=
  if s.nonXaCnc ≠ some cnc then do
    let funcs ← xaFuncs provider cnc
    if !funcs.xaStart then pure (s, false)
    else do
      let s ← s.withBranch cnc
      pure (s.call answers (.xaStart cnc s.xid))
  else .ok (s.call answers (.beginTransaction cnc))

def cancelOn (s : GdaXaTransaction C) (cnc : C) : Except XaFault (GdaXaTransaction C) :=
  if s.nonXaCnc ≠ some cnc then do
    let funcs ← xaFuncs provider cnc
    if !funcs.xaRollback then pure s
    else do
      let s ← s.withBranch cnc
      pure (s.call answers (.xaRollback cnc s.xid)).1
  else .ok (s.call answers (.rollbackTransaction cnc)).1

def begin (s : GdaXaTransaction C) : Except XaFault (GdaXaTransaction C × Bool) := do
  let r ← tryEach (startOn provider answers) [] s.cncList { s with calls := [] }
  match r.2 with
  | none => pure (r.1, true)
  | some back => do
    let s ← back.foldlM (cancelOn provider answers) r.1
    pure (s, false)

def endWith (funcs : XaFuncs) (s : GdaXaTransaction C) (cnc : C) : GdaXaTransaction C × Bool :=
  if funcs.xaEnd then s.call answers (.xaEnd cnc s.xid) else (s, true)

def prepareWith (funcs : XaFuncs) (s : GdaXaTransaction C) (cnc : C) :
    GdaXaTransaction C × Bool :=
  let ended := endWith answers funcs s cnc
  if !ended.2 then ended
  else if !funcs.xaPrepare then (ended.1, false)
  else if !funcs.xaCommit then (ended.1, false)
  else ended.1.call answers (.xaPrepare cnc s.xid)

/-- One connection in the prepare phase. The variable which is compared with the connection
without distributed transactions is still `NULL` then. -/
def prepareOn (s : GdaXaTransaction C) (cnc : C) : Except XaFault (GdaXaTransaction C × Bool) :=
  if s.nonXaCnc = none then .ok (s, true)
  else do
    let s ← s.withBranch cnc
    let funcs ← xaFuncs provider cnc
    pure (prepareWith answers funcs s cnc)

def rollbackBranch (s : GdaXaTransaction C) (cnc : C) : Except XaFault (GdaXaTransaction C) := do
  let s ← s.withBranch cnc
  let funcs ← xaFuncs provider cnc
  if funcs.xaRollback then pure (s.call answers (.xaRollback cnc s.xid)).1 else pure s

/-- One connection which is rolled back as the commit failed. Here too the variable is `NULL`, and
so there is nothing to roll back where it is equal. -/
def abortOn (s : GdaXaTransaction C) (cnc : C) : Except XaFault (GdaXaTransaction C) :=
  if s.nonXaCnc = none then .ok s else rollbackBranch provider answers s cnc

def commitOn (listed : Bool) (r : GdaXaTransaction C × List C) (cnc : C) :
    Except XaFault (GdaXaTransaction C × List C) :=
  if r.1.nonXaCnc = none then .ok r
  else do
    let s ← r.1.withBranch cnc
    let funcs ← xaFuncs provider cnc
    if funcs.xaCommit then
      let c := s.call answers (.xaCommit cnc s.xid)
      pure (c.1, if !c.2 && listed then cnc :: r.2 else r.2)
    else .error .missingFunction

def commitPlain (s : GdaXaTransaction C) : GdaXaTransaction C × Bool :=
  match s.nonXaCnc with
  | none => (s, true)
  | some cnc => s.call answers (.commitTransaction cnc)

structure CommitResult (C : Type) where
  state : GdaXaTransaction C
  returned : Bool
  toRecover : List C := []

/-- `gda_xa_transaction_commit`; `listed` tells whether there is a place for the connections to
recover. -/
def commit (listed : Bool) (s : GdaXaTransaction C) : Except XaFault (CommitResult C) := do
  let r ← tryEach (prepareOn provider answers) [] s.cncList { s with calls := [] }
  match r.2 with
  | some back => do
    let s ← back.foldlM (abortOn provider answers) r.1
    pure { state := s, returned := false }
  | none =>
    let plain := commitPlain answers r.1
    if !plain.2 then do
      let s ← s.cncList.foldlM (abortOn provider answers) plain.1
      pure { state := s, returned := false }
    else do
      let c ← s.cncList.foldlM (commitOn provider answers listed) (plain.1, [])
      pure { state := c.1, returned := true, toRecover := c.2 }

def rollbackOn (s : GdaXaTransaction C) (cnc : C) : Except XaFault (GdaXaTransaction C) :=
  if s.nonXaCnc = some cnc then .ok (s.call answers (.rollbackTransaction cnc)).1
  else rollbackBranch provider answers s cnc

def rollback (s : GdaXaTransaction C) : Except XaFault (GdaXaTransaction C) :=
  s.cncList.foldlM (rollbackOn provider answers) { s with calls := [] }

def sameId (a b : GdaXaTransactionId) : Bool :=
  b.format = a.format && b.gtridLength = a.gtridLength && b.bqualLength = a.bqualLength &&
    a.data.take (b.bqualLength + b.bqualLength) = b.data.take (b.bqualLength + b.bqualLength)

def recoverOn (listed : Bool) (r : CommitResult C) (cnc : C) : Except XaFault (CommitResult C) :=
  if r.state.nonXaCnc = some cnc then .ok r
  else do
    let funcs ← xaFuncs provider cnc
    if !funcs.xaRecover then pure r
    else
      let xids := answers.recovered cnc
      let s := (r.state.call answers (.xaRecover cnc)).1
      if xids.isEmpty then pure { r with state := s }
      else do
        let s ← s.withBranch cnc
        if xids.any fun xid => xid.any (sameId s.xid) then
          if funcs.xaCommit then
            let c := s.call answers (.xaCommit cnc s.xid)
            pure
              { state := c.1
                returned := c.2
                toRecover := if !c.2 && listed then cnc :: r.toRecover else r.toRecover }
          else pure { r with state := s, returned := false }
        else pure { r with state := s }

def commitRecovered (listed : Bool) (s : GdaXaTransaction C) : Except XaFault (CommitResult C) :=
  s.cncList.foldlM (recoverOn provider answers listed)
    { state := { s with calls := [] }, returned := true }

end Operations

inductive Request (C : Type) where
  | registerConnection (cnc : C) (branch : CBytes)
  | unregisterConnection (cnc : C)
  | begin (answers : XaAnswers C)
  | commit (answers : XaAnswers C) (listed : Bool)
  | rollback (answers : XaAnswers C)
  | commitRecovered (answers : XaAnswers C) (listed : Bool)

def step (provider : C → Option XaFuncs) (s : GdaXaTransaction C) :
    Request C → Except XaFault (GdaXaTransaction C)
  | .registerConnection cnc branch =>
    .ok (registerConnection provider { s with calls := [] } cnc branch).1
  | .unregisterConnection cnc => .ok (unregisterConnection { s with calls := [] } cnc)
  | .begin answers => (begin provider answers s).map Prod.fst
  | .commit answers listed => (commit provider answers listed s).map CommitResult.state
  | .rollback answers => rollback provider answers s
  | .commitRecovered answers listed =>
    (commitRecovered provider answers listed s).map CommitResult.state

end GdaXaTransaction

end LibGda
