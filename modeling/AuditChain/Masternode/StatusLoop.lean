import AuditChain.Masternode.Node
/-!
# The status loop

A node is polled at regular times, the first time at once, until its shutdown channel turns true or
is closed. The loop waits for its timer and for the channel at once, goes on with the one that is
ready first, and then waits for both again. `run` plays a loop against what happens outside. Times are
milliseconds since the loop began, and a poll takes no time.
-/

namespace AuditChain.Masternode.StatusLoop

/-- The milliseconds between two polls. -/
def pollInterval : Nat := 1000 * pingSpacing

/-- What happens to a running loop from outside. -/
inductive Event where
  | synced (value : Bool)
  | reachable
  /-- Somebody else writes the registry. -/
  | change (c : Registry.Change)
  /-- A value is sent on the shutdown channel. -/
  | send (value : Bool)
  /-- The sender of the shutdown channel goes away. -/
  | drop
  /-- Somebody looks at the state of the node. -/
  | look
deriving DecidableEq

/-- Something that shows from outside. -/
inductive Sign where
  | call (c : Call)
  | event (e : Event)
  | sawState (state : State)
  | stopped
deriving DecidableEq

/-! ## The loop -/

/-- The receiving end of the shutdown channel. -/
structure Shutdown where
  /-- The last value that was sent, until the loop has seen it. -/
  unseen : Option Bool
  /-- The sender is gone. -/
  closed : Bool
deriving DecidableEq

structure Loop where
  node : Node
  registry : Registry
  surroundings : Surroundings
  now : Nat
  /-- The time that the timer is set to. -/
  due : Nat
  shutdown : Shutdown
  stopped : Bool
  /-- The times of the polls so far. -/
  polled : List Nat
  trace : List (Nat × Sign)

namespace Loop

/-- A loop before its first poll, with a timer that goes off at once. -/
def start (s : Surroundings) (n : Node) (r : Registry) : Loop := ⟨n, r, s, 0, 0, ⟨none, false⟩, false, [], []⟩

def waitUntil (l : Loop) (time : Nat) : Loop := { l with now := max l.now time }

def note (l : Loop) (signs : List Sign) : Loop := { l with trace := l.trace ++ signs.map fun sign => (l.now, sign) }

/-- Polls the node, whose clock has gone on by the whole seconds since the loop began. -/
def poll (l : Loop) : Loop :=
  let now := l.surroundings.now + Int64.ofNat (l.now / 1000)
  let t := l.node.manageStatus { l.surroundings with now := now } l.registry
  { l with node := t.node, registry := t.registry, polled := l.polled ++ [l.now] }.note (t.calls.map .call)

/-- Waits for the timer, sets it to go off one period from then, and polls. -/
def tick (l : Loop) (period : Nat) : Loop :=
  let l := l.waitUntil l.due
  { l with due := l.now + period }.poll

def stop (l : Loop) : Loop := { l with stopped := true }.note [.stopped]

/-- Looks into the channel. A value other than true wakes the loop for nothing. -/
def listen (l : Loop) : Loop :=
  if l.stopped then l
  else
    match l.shutdown.unseen with
    | some value =>
      let l := { l with shutdown := { l.shutdown with unseen := none } }
      if value then l.stop else l
    | none => if l.shutdown.closed then l.stop else l

/-- Something happens outside. -/
def undergo (l : Loop) (e : Event) : Loop :=
  let l := l.note [.event e]
  match e with
  | .synced value => { l with surroundings := { l.surroundings with synced := value } }
  | .reachable => { l with surroundings := { l.surroundings with reachable := fun _ => true } }
  | .change c => { l with registry := l.registry.apply c }
  | .send value => { l with shutdown := { l.shutdown with unseen := some value } }
  | .drop => { l with shutdown := { l.shutdown with closed := true } }
  | .look => l.note [.sawState l.node.state]

/-- Waits for an event, and then looks into the channel. -/
def meet (l : Loop) (time : Nat) (e : Event) : Loop := ((l.waitUntil time).undergo e).listen

/-- The timer goes off before time `limit`, and before anything happens outside. -/
def isDue (l : Loop) (limit : Nat) (events : List (Nat × Event)) : Bool :=
  !l.stopped && decide (l.due < limit) && events.head?.all fun e => decide (l.due ≤ e.1)

/-- The loop goes on with its timer or with the next event, and then waits for both again. -/
def follow (period limit : Nat) : (fuel : Nat) → (events : List (Nat × Event)) → Loop → Loop
  | 0, _, l => l
  | fuel + 1, events, l =>
    if l.isDue limit events then follow period limit fuel events (l.tick period)
    else
      match events with
      | [] => l
      | (time, e) :: rest => follow period limit fuel rest (l.meet time e)

end Loop

/-- What has become of a node at time `limit`. Its timer goes off at most once a millisecond. -/
def run (period limit : Nat) (events : List (Nat × Event)) (s : Surroundings) (n : Node) (r : Registry) : Loop :=
  Loop.follow period limit (limit + events.length) events (.start s n r)

end AuditChain.Masternode.StatusLoop
