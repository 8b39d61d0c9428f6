import LibGda.RunInvariant
import Mathlib.Algebra.Order.Ring.Int
import Mathlib.Data.List.Nodup

/-! The jobs of a `GdaThreadWrapper`: user threads submit them, the worker thread executes
them and posts them back in the queue of their thread. Jobs are named by the order in
which they are created. -/

namespace LibGda

open RunInvariant

variable {T R : Type}

/-- A `Job` of type `JOB_TYPE_EXECUTE`. -/
structure ThreadJob (T R : Type) where
  owner : T
  jobId : Nat
  /-- `void_func` is used instead of `func`. -/
  isVoid : Bool
  /-- There are an argument and a function to destroy it. -/
  destroys : Bool
  replyQueue : Nat
  argGone : Bool := false
  processed : Bool := false
  cancelled : Bool := false
  result : Option R := none
  deriving Inhabited

namespace ThreadJob

variable (job : ThreadJob T R)

@[simps]
def started : ThreadJob T R := { job with processed := true }

@[simps]
def withdrawn : ThreadJob T R := { job with cancelled := true }

@[simps]
def withoutArg : ThreadJob T R := { job with argGone := true }

@[simps]
def withResult (r : R) : ThreadJob T R := { job with result := some r }

end ThreadJob

structure ThreadData where
  fromWorkerThread : Nat
  jobs : List Nat := []
  results : List Nat := []

structure PendingFetch where
  expId : Nat
  resultsLength : Option Nat
  deriving DecidableEq

inductive ThreadPosition where
  | idle
  | pushing (job : Nat)
  | iterating (mayBlock : Bool) (fetch : Option PendingFetch)
  | fetching (mayLock : Bool) (expId : Nat)
  deriving DecidableEq

/-- A result which `gda_thread_wrapper_fetch_result` gave. -/
structure Delivery (T R : Type) where
  thread : T
  expId : Nat
  job : Nat
  outcome : Option R

structure JobHistory (T R : Type) where
  pushed : List Nat := []
  popped : List Nat := []
  executed : List Nat := []
  returned : List (Nat × R) := []
  taken : List Nat := []
  destroyed : List Nat := []
  delivered : List (Delivery T R) := []
  /-- Each size given by `gda_thread_wrapper_get_waiting_size`, and the number of jobs which
  the worker had not started then. -/
  counted : List (Nat × Nat) := []

structure ThreadWrapper (T R : Type) where
  nextJob : Nat := 0
  job : Nat → ThreadJob T R
  toWorkerThread : List Nat := []
  worker : Option Nat := none
  nextQueue : Nat := 0
  queue : Nat → List Nat := fun _ => []
  threadsHash : T → Option ThreadData := fun _ => none
  position : T → ThreadPosition := fun _ => .idle
  history : JobHistory T R := {}

namespace ThreadWrapper

def new [Inhabited T] : ThreadWrapper T R where
  job := fun _ => default

variable [DecidableEq T] (w : ThreadWrapper T R) (t : T)

def setPosition (p : ThreadPosition) : ThreadWrapper T R :=
  { w with position := Function.update w.position t p }

def setThreadData (d : Option ThreadData) : ThreadWrapper T R :=
  { w with threadsHash := Function.update w.threadsHash t d }

def setJob (j : Nat) (job : ThreadJob T R) : ThreadWrapper T R :=
  { w with job := Function.update w.job j job }

def getThreadData : ThreadWrapper T R × ThreadData :=
  match w.threadsHash t with
  | some d => (w, d)
  | none =>
    let d : ThreadData := { fromWorkerThread := w.nextQueue }
    ({ w.setThreadData t (some d) with nextQueue := w.nextQueue + 1 }, d)

/-- The first part of `gda_thread_wrapper_execute`, up to the push to the queue of the worker. -/
def execute (isVoid destroys : Bool) : ThreadWrapper T R :=
  let r := w.getThreadData t
  let job : ThreadJob T R := {
    owner := t
    jobId := (w.nextJob + 1) % 2 ^ 32
    isVoid := isVoid
    destroys := destroys
    replyQueue := r.2.fromWorkerThread }
  let w' := (r.1.setJob w.nextJob job).setThreadData t
    (some { r.2 with jobs := r.2.jobs ++ [w.nextJob] })
  { w' with nextJob := w.nextJob + 1 }.setPosition t (.pushing w.nextJob)

def push (j : Nat) : ThreadWrapper T R :=
  { w with
    toWorkerThread := w.toWorkerThread ++ [j]
    history := { w.history with pushed := w.history.pushed ++ [j] } }.setPosition t .idle

omit [DecidableEq T] in
def destroyArg (j : Nat) : ThreadWrapper T R :=
  if (w.job j).destroys && !(w.job j).argGone then
    { w with
      job := Function.update w.job j (w.job j).withoutArg
      history := { w.history with destroyed := w.history.destroyed ++ [j] } }
  else w

def cancel (id : Nat) : ThreadWrapper T R :=
  match w.threadsHash t with
  | none => w
  | some d =>
    match d.jobs.find? fun j => (w.job j).jobId == id with
    | none => w
    | some j =>
      if (w.job j).processed then w
      else
        ((w.setJob j (w.job j).withdrawn).destroyArg j).setThreadData t
          (some { d with jobs := d.jobs.erase j })

def notStarted : List Nat :=
  (List.range w.nextJob).filter fun j =>
    (w.job j).owner = t && !(w.job j).cancelled && !(w.job j).processed

def getWaitingSize : Nat :=
  match w.threadsHash t with
  | none => 0
  | some d => (d.jobs.filter fun j => !(w.job j).cancelled).length

def count : ThreadWrapper T R :=
  { w with history := { w.history with
    counted := w.history.counted ++ [(w.getWaitingSize t, (w.notStarted t).length)] } }

def start (p : ThreadPosition) : ThreadWrapper T R :=
  match w.threadsHash t with
  | none => w
  | some _ => w.setPosition t p

/-- Where a call is after `gda_thread_wrapper_iterate`. -/
def afterIterate (d : ThreadData) : Option PendingFetch → ThreadPosition
  | none => .idle
  | some f =>
    match f.resultsLength with
    | none => .fetching true f.expId
    | some n => if d.results.length = n then .idle else .fetching false f.expId

def iterateStep (d : ThreadData) (mayBlock : Bool) (fetch : Option PendingFetch) :
    Except Unit (ThreadWrapper T R) :=
  match w.queue d.fromWorkerThread with
  | [] => if mayBlock then .error () else .ok (w.setPosition t (afterIterate d fetch))
  | j :: rest =>
    let w := { w with
      queue := Function.update w.queue d.fromWorkerThread rest
      history := { w.history with taken := w.history.taken ++ [j] } }
    let d := { d with jobs := d.jobs.erase j }
    if (w.job j).isVoid then .ok ((w.destroyArg j).setThreadData t (some d))
    else
      let d := { d with results := d.results ++ [j] }
      .ok ((w.setThreadData t (some d)).setPosition t (afterIterate d fetch))

def fetchStep (d : ThreadData) (mayLock : Bool) (expId : Nat) : ThreadWrapper T R :=
  match d.results.find? fun j => (w.job j).jobId == expId with
  | none =>
    w.setPosition t (.iterating mayLock
      (some { expId := expId, resultsLength := if mayLock then none else some d.results.length }))
  | some j =>
    let d := { d with results := d.results.erase j }
    let left := !d.results.isEmpty || !d.jobs.isEmpty || !(w.queue d.fromWorkerThread).isEmpty
    let delivery : Delivery T R :=
      { thread := t, expId := expId, job := j, outcome := (w.job j).result }
    let w := w.setThreadData t (if left then some d else none)
    ({ w with history :=
      { w.history with delivered := w.history.delivered ++ [delivery] } }.destroyArg j).setPosition
      t .idle

def goOn : Except Unit (ThreadWrapper T R) :=
  match w.position t, w.threadsHash t with
  | .pushing j, _ => .ok (w.push t j)
  | .iterating mayBlock fetch, some d => w.iterateStep t d mayBlock fetch
  | .fetching mayLock expId, some d => .ok (w.fetchStep t d mayLock expId)
  | _, _ => .error ()

omit [DecidableEq T] in
def workerPop : Except Unit (ThreadWrapper T R) :=
  match w.worker, w.toWorkerThread with
  | none, j :: rest =>
    let w := { w with
      toWorkerThread := rest
      job := Function.update w.job j (w.job j).started
      history := { w.history with popped := w.history.popped ++ [j] } }
    if (w.job j).cancelled then .ok (w.destroyArg j)
    else .ok { w with
      worker := some j, history := { w.history with executed := w.history.executed ++ [j] } }
  | _, _ => .error ()

omit [DecidableEq T] in
def workerReturn (r : R) : Except Unit (ThreadWrapper T R) :=
  match w.worker with
  | none => .error ()
  | some j =>
    .ok { w with
      worker := none
      job := Function.update w.job j ((w.job j).withResult r)
      queue := Function.update w.queue (w.job j).replyQueue
        (w.queue (w.job j).replyQueue ++ [j])
      history := { w.history with returned := w.history.returned ++ [(j, r)] } }

end ThreadWrapper

inductive ThreadStep (T R : Type) where
  | execute (t : T) (isVoid destroys : Bool)
  | cancel (t : T) (id : Nat)
  | getWaitingSize (t : T)
  | iterate (t : T) (mayBlock : Bool)
  | fetchResult (t : T) (mayLock : Bool) (expId : Nat)
  | goOn (t : T)
  | workerPop
  | workerReturn (r : R)

namespace ThreadWrapper

variable [DecidableEq T]

def call (w : ThreadWrapper T R) (t : T) (next : ThreadWrapper T R) :
    Except Unit (ThreadWrapper T R) :=
  if w.position t = .idle then .ok next else .error ()

def step (w : ThreadWrapper T R) : ThreadStep T R → Except Unit (ThreadWrapper T R)
  | .execute t isVoid destroys => w.call t (w.execute t isVoid destroys)
  | .cancel t id => w.call t (w.cancel t id)
  | .getWaitingSize t => w.call t (w.count t)
  | .iterate t mayBlock => w.call t (w.start t (.iterating mayBlock none))
  | .fetchResult t mayLock expId =>
    w.call t (if expId = 0 then w else w.start t (.fetching mayLock expId))
  | .goOn t => w.goOn t
  | .workerPop => w.workerPop
  | .workerReturn r => w.workerReturn r

end ThreadWrapper

end LibGda
