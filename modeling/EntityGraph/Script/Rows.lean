import EntityGraph.Mutation.Rows
/-!
Scripted operations on rows. Every kind of operation has a queue of answers; once it is empty,
writes report nothing and look-ups find nothing.
-/
namespace EntityGraph.Script

open Mutation (Failure Result RowRequest)

structure RowQueues where
  inserts : List (Except Failure (List Result))
  updates : List (Except Failure (List Result))
  deletes : List (Except Failure (List Result))
  fields : List (Except Failure (Option Value))
  keys : List (Except Failure (Option Value))
  connects : List (Except Failure (List Result))
  disconnects : List (Except Failure (List Result))

structure RowWorld where
  queues : RowQueues
  calls : List RowRequest
  events : List Event

def next {α : Type} (default : α) (queue : List (Except Failure α)) : Except Failure α :=
  queue.headD (.ok default)

/-- The answer at the head of its queue, and the queues after it. -/
def dequeue (queues : RowQueues) : (request : RowRequest) → request.Reply × RowQueues
  | .insert .. => (next [] queues.inserts, { queues with inserts := queues.inserts.tail })
  | .update .. => (next [] queues.updates, { queues with updates := queues.updates.tail })
  | .delete .. => (next [] queues.deletes, { queues with deletes := queues.deletes.tail })
  | .selectField .. => (next none queues.fields, { queues with fields := queues.fields.tail })
  | .primaryValue .. => (next none queues.keys, { queues with keys := queues.keys.tail })
  | .connect .. => (next [] queues.connects, { queues with connects := queues.connects.tail })
  | .disconnect .. =>
    (next [] queues.disconnects, { queues with disconnects := queues.disconnects.tail })

def answerRow (request : RowRequest) (world : RowWorld) : request.Reply × RowWorld :=
  let (reply, queues) := dequeue world.queues request
  (reply, { world with queues, calls := world.calls ++ [request] })

def recordRow (event : Event) (world : RowWorld) : Unit × RowWorld :=
  ((), { world with events := world.events ++ [event] })

def runRows {α : Type} (action : Mutation.Action Mutation.Rows α) :
    StateM RowWorld (Except Failure α) :=
  let answer : (request : Mutation.Rows.Request) → StateM RowWorld (Mutation.Rows.Reply request) :=
    answerRow
  action.run.run answer recordRow

end EntityGraph.Script
