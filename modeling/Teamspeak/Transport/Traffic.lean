import Teamspeak.Transport.Packet

/-!
# Traffic figures

`traffic.ts`: the datagrams and bytes a connection has carried, by class and
direction, with a ring of one-second byte buckets for the last minute, and the
samples of the keepalive round trip.  Times are handed in.
-/

namespace Teamspeak.Transport

inductive TrafficClass
  | speech
  | keepalive
  | control
  deriving DecidableEq, Repr

def trafficClassOf : PacketType → TrafficClass
  | .voice | .voiceWhisper => .speech
  | .ping | .pong => .keepalive
  | _ => .control

def windowSeconds : Nat := 60

/-- One direction of one class: totals plus a ring of one-second byte buckets. -/
structure Counter where
  packets : Nat := 0
  bytes : Nat := 0
  buckets : Nat → Nat := fun _ => 0
  /-- The second the newest bucket stands for. -/
  second : Nat := 0

namespace Counter

/-- `for (let i = 1; i <= gap; i++) buckets[(second + i) % 60] = 0`. -/
def clearAfter (second : Nat) : Nat → (Nat → Nat) → Nat → Nat
  | 0, buckets => buckets
  | gap + 1, buckets =>
    Function.update (clearAfter second gap buckets) ((second + (gap + 1)) % windowSeconds) 0

def advance (c : Counter) (second : Nat) : Counter :=
  if second ≤ c.second then c
  else
    let gap := min (second - c.second) windowSeconds
    { c with buckets := clearAfter c.second gap c.buckets, second := second }

end Counter

/-- `Math.floor(nowMs / 1000)`. -/
def wholeSecond (now : Time) : Nat := ⌊now / 1000⌋.toNat

structure TrafficMeter where
  sent : TrafficClass → Counter := fun _ => {}
  received : TrafficClass → Counter := fun _ => {}

namespace TrafficMeter

def addTo (c : Counter) (bytes : Nat) (now : Time) : Counter :=
  let c := c.advance (wholeSecond now)
  let slot := c.second % windowSeconds
  { c with
    packets := c.packets + 1
    bytes := c.bytes + bytes
    buckets := Function.update c.buckets slot (c.buckets slot + bytes) }

def recordSent (m : TrafficMeter) (pType : PacketType) (bytes : Nat) (now : Time) : TrafficMeter :=
  let cls := trafficClassOf pType
  { m with sent := Function.update m.sent cls (addTo (m.sent cls) bytes now) }

def recordReceived (m : TrafficMeter) (pType : PacketType) (bytes : Nat) (now : Time) :
    TrafficMeter :=
  let cls := trafficClassOf pType
  { m with received := Function.update m.received cls (addTo (m.received cls) bytes now) }

end TrafficMeter

/-- The samples of the keepalive round trip, oldest first: the last ten. -/
structure RoundTripEstimator where
  samples : List Time := []

def RoundTripEstimator.add (e : RoundTripEstimator) (ms : Time) : RoundTripEstimator :=
  let samples := e.samples ++ [ms]
  ⟨if samples.length > 10 then samples.tail else samples⟩

end Teamspeak.Transport
