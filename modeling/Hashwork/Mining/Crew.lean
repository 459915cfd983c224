import Hashwork.Mining.Collector
import Hashwork.Mining.Miner
import Hashwork.Mining.Worker

/-!
# A crew at work

The workers and the collector take their steps one at a time in any order.  They share the cancel flag, the
tally, and a channel that keeps the shares in the order in which they were sent.  The clock advances as it
likes, and anyone may raise the flag at any time.  Every worker's thread can be started; what priority it has
makes no difference to the order, since there may be any.
-/

namespace Hashwork.Mining

/-- What is given when mining begins. -/
structure Job where
  miner : Miner
  item : WorkItem
  deadline : Option Instant

inductive WorkerState where
  | working (rest : Worker.Working Worker.Turn)
  | ended (item : WorkItem)

def WorkerState.isEnded : WorkerState → Bool
  | ended _ => true
  | working _ => false

inductive CollectorState where
  | collecting (rest : Collector.Collecting Collector.Turn)
  | ended (total : Nat)

structure Crew where
  flag : Bool
  tally : Nat
  channel : List Share
  now : Instant
  workers : Nat → WorkerState
  collector : CollectorState
  progress : Progress
  /-- The shares that were reported, latest first. -/
  reported : List Share
  /-- The lines that were logged, latest first. -/
  log : List Log.Line

namespace Crew

inductive Action where
  | worker (i : Nat)
  | collector
  | tick (d : Duration)
  | cancel
deriving DecidableEq, Repr

end Crew

namespace Job

def turnOf (job : Job) (i : Nat) (item : WorkItem) : WorkerState :=
  .working (Worker.turn job.miner.scanner (portion job.miner.threads i).finish item)

/-- All workers are about to start, each with an item of its own. -/
def start (job : Job) (flag : Bool) (now : Instant) : Crew where
  flag := flag
  tally := 0
  channel := []
  now := now
  workers i := job.turnOf i (job.item.withNextNonce (portion job.miner.threads i).first)
  collector := .collecting (Collector.begin job.deadline)
  progress := .start
  reported := []
  log := []

/-- Whether nobody can send any more. -/
def allEnded (job : Job) (crew : Crew) : Bool :=
  (List.range job.miner.threads).all fun i ↦ (crew.workers i).isEnded

end Job

namespace Crew

def setWorker (crew : Crew) (i : Nat) (worker : WorkerState) : Crew :=
  { crew with workers := fun j ↦ if j = i then worker else crew.workers j }

def setCollector (crew : Crew) (rest : Collector.Collecting Collector.Turn) : Crew :=
  { crew with collector := .collecting rest }

def note (crew : Crew) (line : Log.Line) : Crew :=
  { crew with log := line :: crew.log }

/-- One step of worker `i`, which has `rest` to do. -/
def stepWorker (job : Job) (crew : Crew) (i : Nat) : Worker.Working Worker.Turn → Crew
  | .done (.again item) => crew.setWorker i (job.turnOf i item)
  | .done (.last item) => crew.setWorker i (.ended item)
  | .ask .readFlag next => crew.setWorker i (.working (next crew.flag))
  | .ask (.send share) next =>
    { crew.setWorker i (.working (next true)) with channel := crew.channel ++ [share] }
  | .ask (.note line) next => (crew.setWorker i (.working (next ()))).note line
  | .ask (.tally nonces) next =>
    { crew.setWorker i (.working (next ())) with tally := crew.tally + nonces }

/-- One step of the collector, which has `rest` to do. -/
def stepCollector (job : Job) (crew : Crew) : Collector.Collecting Collector.Turn → Crew
  | .done (.again started total) => crew.setCollector (Collector.turn job.deadline started total)
  | .done (.last total) =>
    { crew with collector := .ended total, progress := crew.progress.finish }
  | .ask .receive next =>
    match crew.channel with
    | share :: rest => { crew.setCollector (next (.share share)) with channel := rest }
    | [] => crew.setCollector (next (if job.allEnded crew then .closed else .nothing))
  | .ask .readClock next => crew.setCollector (next crew.now)
  | .ask .readFlag next => crew.setCollector (next crew.flag)
  | .ask .raiseFlag next => { crew.setCollector (next ()) with flag := true }
  | .ask (.note line) next => (crew.setCollector (next ())).note line
  | .ask .takeTally next => { crew.setCollector (next crew.tally) with tally := 0 }
  | .ask (.reportShare share) next =>
    let (progress, line) := crew.progress.reportShare share
    { (crew.setCollector (next ())).note line with
      progress := progress
      reported := share :: crew.reported }
  | .ask (.reportSpeed rate) next =>
    { crew.setCollector (next ()) with progress := crew.progress.reportSpeed rate }

/-- Only the workers that there are take steps. -/
def step (job : Job) (crew : Crew) : Action → Crew
  | .worker i =>
    match crew.workers i with
    | .working rest => if i < job.miner.threads then crew.stepWorker job i rest else crew
    | .ended _ => crew
  | .collector =>
    match crew.collector with
    | .collecting rest => crew.stepCollector job rest
    | .ended _ => crew
  | .tick d => { crew with now := ⟨crew.now.nanos + d.totalNanos⟩ }
  | .cancel => { crew with flag := true }

def run (job : Job) (crew : Crew) (actions : List Action) : Crew :=
  actions.foldl (step job) crew

/-- The number of nonces, once the collector has ended. -/
def total? (crew : Crew) : Option Nat :=
  match crew.collector with
  | .ended total => some total
  | .collecting _ => none

/-- A round in which every worker takes `workerSteps` steps and then the collector `collectorSteps`. -/
def round (job : Job) (workerSteps collectorSteps : Nat) : List Action :=
  (List.replicate workerSteps ((List.range job.miner.threads).map Action.worker)).flatten ++
    List.replicate collectorSteps .collector

/-- Up to so many rounds, until the collector has ended. -/
def rounds (job : Job) (workerSteps collectorSteps : Nat) : Nat → Crew → Crew
  | 0, crew => crew
  | n + 1, crew =>
    if crew.total?.isSome then crew
    else rounds job workerSteps collectorSteps n (crew.run job (round job workerSteps collectorSteps))

end Crew

end Hashwork.Mining
