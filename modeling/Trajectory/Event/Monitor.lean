import Trajectory.Event.Channel

/-!
The channels of one run in the order in which their handlers were registered, and the search for the first event
among all of them.

The earliest root in the direction of the run wins. The roots of other handlers within the winner's tolerance
belong to the same event; all members of such a group share the latest of their roots as the event time, so that
each of them has crossed zero when the run acts on the event.
-/

namespace Trajectory

variable {ω α β : Type}

/-- The outcome of the last scan. -/
inductive ScanStatus where
  /-- A scan is under way, or was given up. -/
  | scanning
  | rootFound
  /-- The last scan found no event, or none has been made. -/
  | noEvent
deriving DecidableEq

/-- The name of a status. -/
def ScanStatus.name : ScanStatus → String
  | .scanning => "scanning"
  | .rootFound => "root_found"
  | .noEvent => "no_event"

/-- A located root as a member of the group of an event. -/
structure Occurrence (α : Type) where
  /-- The position of the handler among the registered ones. -/
  index : Nat
  /-- The event time, shared by the group. -/
  t : α
  root : α
  /-- Whether the switching function increases through zero. -/
  increasing : Bool
deriving DecidableEq

/-- The first acceptable root of one handler. -/
structure Candidate (α : Type) where
  /-- The position of the handler among the registered ones. -/
  index : Nat
  found : Crossing α
deriving DecidableEq

/-- The channels of all handlers of a run. -/
structure Monitor (ω α : Type) where
  channels : List (Channel ω α)
  forward : Bool
  status : ScanStatus

/-- The sign that makes times increase along a run. -/
def runSign [Scalar α] (forward : Bool) : α := if forward then 1.0 else -1.0

namespace Candidate

variable [Scalar α]

/-- The place of a root on a time axis that points along the run. -/
def key (forward : Bool) (c : Candidate α) : α := runSign forward * c.found.root

/-- The earliest of some candidates, the first one among equals. -/
def earliest (forward : Bool) : Candidate α → List (Candidate α) → Candidate α
  | best, [] => best
  | best, c :: rest => earliest forward (if c.key forward < best.key forward then c else best) rest

/-- The latest of some candidates, the last one among equals. -/
def latest (forward : Bool) : Candidate α → List (Candidate α) → Candidate α
  | best, [] => best
  | best, c :: rest => latest forward (if c.key forward < best.key forward then best else c) rest

end Candidate

namespace Monitor

variable [Scalar α]

/-- The channels of handlers with their settings, before a run. -/
def create (watches : List (Handler ω α × Settings α)) : Monitor ω α :=
  ⟨watches.map fun (handler, settings) => Channel.create handler settings, true, .noEvent⟩

/-- The group of the first event among candidates in the order of their indices; `tolerance` is that of a
handler by its index. -/
def group (forward : Bool) (tolerance : Nat → α) : List (Candidate α) → List (Occurrence α)
  | [] => []
  | first :: rest =>
    let candidates := first :: rest
    let winner := Candidate.earliest forward first rest
    let joins (c : Candidate α) : Bool :=
      decide (runSign forward * (c.found.root - winner.found.root) ≤ tolerance winner.index)
    match candidates.filter joins with
    | [] => []
    | member :: members =>
      let t := (Candidate.latest forward member members).found.root
      (member :: members).map fun c => ⟨c.index, t, c.found.root, c.found.increasing⟩

/-- The tolerance of a handler on its event times. -/
def tolerance (d : Monitor ω α) (index : Nat) : α :=
  match d.channels[index]? with
  | some c => c.settings.convergence
  | none => Scalar.undefined

/-- Computes on the channels of a monitor. -/
def onChannels (x : Effect (List (Channel ω α) × ω) α β) : Effect (Monitor ω α × ω) α β :=
  Effect.within (fun (d, w) => (d.channels, w))
    (fun (cs, w) (d, _) => ({ d with channels := cs }, w)) x

/-- Changes a monitor. -/
def change (f : Monitor ω α → Monitor ω α) : Effect (Monitor ω α × ω) α Unit :=
  modify fun (d, w) => (f d, w)

/-- Changes a channel. -/
def changeChannel (f : Channel ω α → Channel ω α) : Effect (Channel ω α × ω) α Unit :=
  modify fun (c, w) => (f c, w)

/-- Moves a channel's reference point. -/
def moveReference (t : α) (y : State α) : Effect (Channel ω α × ω) α Unit := do
  changeChannel fun c => { c with tRef := t }
  let (c, _) ← get
  let g ← Effect.onSecond (c.handler.g t y)
  changeChannel fun c => { c with gRef := g }

/-- Prepares every channel for a new run. -/
def init (t0 : α) (y0 : State α) (target : α) : Effect (Monitor ω α × ω) α Unit := do
  change fun d => { d with forward := decide (t0 ≤ target) }
  onChannels <| Effect.forEach do
    let (c, _) ← get
    Effect.onSecond (c.handler.init t0 y0 target)
    changeChannel fun c => { c with lastEvent := none, armed := true }
    moveReference t0 y0
  change fun d => { d with status := .noEvent }

variable [Spacing α]

/-- The first acceptable roots of channels, the first of which has the given index. -/
def candidates (forward : Bool) (w : Window α) :
    Nat → List (Channel ω α) → Effect ω α (List (Candidate α))
  | _, [] => pure []
  | index, c :: rest => do
    let found ← c.firstRoot forward w
    let later ← candidates forward w (index + 1) rest
    match found with
    | some found => return ⟨index, found⟩ :: later
    | none => return later

/-- Looks for the first event in a window. The group is in the order of the indices, and empty if there is no
event. -/
def scan (w : Window α) : Effect (Monitor ω α × ω) α (List (Occurrence α)) := do
  change fun d => { d with status := .scanning }
  let (d, _) ← get
  let found ← Effect.onSecond (candidates d.forward w 0 d.channels)
  let group := Monitor.group d.forward d.tolerance found
  change fun d => { d with status := if group.isEmpty then .noEvent else .rootFound }
  return group

/-- Looks for the first event in the latest window. Before there is one, only a monitor without handlers can be
scanned. -/
def scanLatest : Option (Window α) → Effect (Monitor ω α × ω) α (List (Occurrence α))
  | some w => scan w
  | none => do
    change fun d => { d with status := .scanning }
    let (d, _) ← get
    if !d.channels.isEmpty then throw .noWindow
    change fun d => { d with status := .noEvent }
    return []

omit [Spacing α]

/-- Records that the event of a handler has been dealt with. -/
def acknowledge (index : Nat) (t : α) : Effect (Monitor ω α × ω) α Unit := do
  let (d, _) ← get
  match d.channels[index]? with
  | none => throw (.handlerIndex index)
  | some c =>
    change fun d =>
      { d with channels := d.channels.set index { c with lastEvent := some t, armed := false } }

/-- Moves every reference point to a new start of scanning, and arms the channels that have left the re-trigger
window of their last event. -/
def commit (t : α) (y : State α) : Effect (Monitor ω α × ω) α Unit :=
  onChannels <| Effect.forEach do
    moveReference t y
    changeChannel fun c => if !c.armed && !c.inWindow t then { c with armed := true } else c

end Monitor

end Trajectory
