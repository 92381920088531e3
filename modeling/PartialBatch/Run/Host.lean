/-
# Hosts

Runs follow one another on a host, which keeps two things between them: its loggers and
whether it has a queue client. Seen from outside, a log entry is a line if it reaches the
level, binding the context shows nothing, and the client is made once.
-/

import PartialBatch.Run.Basic

namespace PartialBatch

/-- What a host keeps between runs. -/
structure Host where
  log : Log.State
  connected : Bool
  deriving Repr

/-- What is seen of an event. -/
inductive Sight
  /-- A line of the log. -/
  | line (entries : Entries)
  /-- The queue client is made. -/
  | connected
  /-- A call of a handler, of a hook or of the queue service. -/
  | event (e : Event)

namespace Host

/-- The logger under which runs write. -/
def logger : Text := "batch"

/-- The host after an event, and what is seen of it. -/
def observe (time : Text) (h : Host) (e : Event) : Host × List Sight :=
  match e.ask with
  | .log entry =>
    let lines := match h.log.line? logger entry time with
      | .ok (some entries) => [.line entries]
      | _ => []
    ({ h with log := h.log.use logger }, lines)
  | .bind context => ({ h with log := h.log.bind context }, [])
  | .unbind => ({ h with log := h.log.unbind }, [])
  | .client => if h.connected then (h, []) else ({ h with connected := true }, [.connected])
  | _ => (h, [.event e])

/-- The host after events, and what is seen of them. -/
def observeAll (time : Text) (h : Host) : List Event → Host × List Sight
  | [] => (h, [])
  | e :: rest =>
    let (h, seen) := h.observe time e
    let (h, others) := observeAll time h rest
    (h, seen ++ others)

end Host
end PartialBatch
