import Teamspeak.Core.Command
import Teamspeak.Lib.Run
import Teamspeak.Transport.Crypt

/-!
# The Init1 handshake

`handshake/crypt-handshake.ts`, with what `client.ts` does around it: each Init1
packet of the server is answered at once, but for the RSA challenge, whose answer
is a promise.  `Attempt` is one connection attempt: its `Crypt`, the two weak maps
at its key, and the promises of its solves.

A solve goes through three turns of the event loop after its squarings: the
continuation that draws alpha and builds the answer, the `finally` that takes the
challenge off `solvingChallenges`, and the `then` that sends the answer or fails
the attempt.  Between them, and while the squarings go on, any packet may come.

Two fields are no state of the code: `drawn` lists the challenges solved with the
alpha drawn for each, and `sent` the Init1 packets sent.  The `clientinitiv` a server
may send in place of `initivexpand2` names an alpha of its own.
-/

namespace Teamspeak.Client

open Transport (Crypt Cipher ivAlphaSize)

/-! ### Bytes -/

/-- `DataView.setUint32(_, n, false)`: the low 32 bits, high byte first. -/
def uint32BE (n : Nat) : Bytes := uint16BE (n / 65536) ++ uint16BE n

/-- `DataView.getUint32(pos, false)`. -/
def readUint32BE (data : Bytes) (pos : Nat) : Nat :=
  (data.getD pos 0).toNat * 16777216 + (data.getD (pos + 1) 0).toNat * 65536 +
    (data.getD (pos + 2) 0).toNat * 256 + (data.getD (pos + 3) 0).toNat

def bytesToBigInt (bytes : Bytes) : Nat := bytes.foldl (fun result b => result * 256 + b.toNat) 0

/-- The low `size` bytes of a number, high byte first. -/
def bigIntToBytes (value : Nat) : Nat → Bytes
  | 0 => []
  | size + 1 => bigIntToBytes (value / 256) size ++ [UInt8.ofNat value]

def base64Alphabet : Str :=
  .of "ABCDEFGHIJKLMNOPQRSTUVWXYZabcdefghijklmnopqrstuvwxyz0123456789+/"

/-- `buffer.toString("base64")`. -/
def toBase64 : Bytes → Str
  | [] => []
  | [a] => digits a.toNat 0 0 2 ++ [equalSign, equalSign]
  | [a, b] => digits a.toNat b.toNat 0 3 ++ [equalSign]
  | a :: b :: c :: rest => digits a.toNat b.toNat c.toNat 4 ++ toBase64 rest
where
  /-- The first `n` of the four digits of three bytes. -/
  digits (a b c n : Nat) : Str :=
    ([a / 4, a % 4 * 16 + b / 16, b % 16 * 4 + c / 64, c % 64].take n).map
      (base64Alphabet.getD · 0)

/-- `Buffer.from(s)` of a text all of whose units are ASCII, as a command line is. -/
def asciiBytes (s : Str) : Bytes := s.map fun c => UInt8.ofNat c.toNat

/-! ### The puzzle -/

def initVersion : Nat := 1566914096
def initStepLen : Nat := 21
def maxRsaChallengeLevel : Nat := 4000000

/-- Why the attempt fails on an Init1 packet or its puzzle. -/
inductive HandshakeError
  | puzzleTooHard (level : Nat)
  | zeroModulus
  | interrupted
  deriving DecidableEq

/-- What `solveRsaChallenge` comes to when it is not interrupted: `x` squared
`level` times modulo `n`. -/
def solveRsaChallenge (data : Bytes) (offset level : Nat) : Except HandshakeError Bytes :=
  let x := bytesToBigInt ((data.drop offset).take 64)
  let n := bytesToBigInt ((data.drop (offset + 64)).take 64)
  if level > maxRsaChallengeLevel then .error (.puzzleTooHard level)
  else if n = 0 then .error .zeroModulus
  else .ok (bigIntToBytes ((fun y => y * y % n)^[level] x) 64)

/-! ### The packets sent -/

/-- The first packet, with the time in seconds and four random bytes. -/
def buildInit1StartPacket (nowSec : Nat) (rng : Bytes) : Bytes :=
  uint32BE initVersion ++ [0x00] ++ uint32BE (min nowSec 4294967295) ++ rng ++ List.replicate 8 0

def buildInit1Step1Packet (data : Bytes) : Option Bytes :=
  if data.length ≠ initStepLen then none
  else
    -- the four bytes at 9, low byte first, put high byte first
    some (0x01 :: List.replicate 16 0 ++ ((data.drop 9).take 4).reverse)

def buildInit1Step2Packet (data : Bytes) : Option Bytes :=
  if data.length ≠ initStepLen then none
  else some (uint32BE initVersion ++ [0x02] ++ (data.drop 1).take 20)

def buildInit1Step3Packet (data : Bytes) : Option Bytes :=
  if data.length ≠ 25 then none
  else
    some (0x03 :: List.replicate 63 0 ++ [1] ++ List.replicate 63 0 ++ [1] ++ uint32BE 1 ++
      List.replicate 100 0)

/-- The command a solved puzzle carries. -/
def clientInitIV (publicKey : Str) (alpha : Bytes) : Str :=
  buildCommandOrdered (.of "clientinitiv")
    [(.of "alpha", toBase64 alpha), (.of "omega", publicKey), (.of "ot", .of "1"), (.of "ip", [])]

/-- The answer to a challenge: the challenge, the solution and the `clientinitiv`. -/
def step4Answer (publicKey : Str) (challenge y alpha : Bytes) : Bytes :=
  uint32BE initVersion ++ [0x04] ++ (challenge.drop 1).take 232 ++ y.take 64 ++
    asciiBytes (clientInitIV publicKey alpha)

/-- The step byte of the packets that begin with the version. -/
def isStep4 (packet : Bytes) : Bool := packet.getD 4 0 = 0x04

/-! ### The attempt -/

structure Answered where
  challenge : Bytes
  answer : Bytes
  level : Nat
  deriving DecidableEq

/-- Where the promise of a solve is. -/
inductive Solve
  /-- the squarings go on -/
  | solving (challenge : Bytes) (level : Nat)
  /-- settled, with its `finally` still to run -/
  | settled (result : Except HandshakeError Bytes)
  /-- settled, with its `then` still to run -/
  | released (result : Except HandshakeError Bytes)
  | done

/-- A fresh alpha. -/
abbrev Alpha := { alpha : Bytes // alpha.length = ivAlphaSize }

structure Attempt where
  /-- `crypt.identity.publicKey()`. -/
  publicKey : Str
  crypt : Crypt := {}
  /-- `crypt.alpha`. -/
  alpha : Bytes := []
  /-- `solvingChallenges.get(crypt)`. -/
  solvingChallenge : Option Bytes := none
  /-- `answeredChallenges.get(crypt)`. -/
  answeredChallenge : Option Answered := none
  solves : List Solve := []
  /-- The attempt settled as connected. -/
  connected : Bool := false
  /-- The attempt's signal. -/
  aborted : Bool := false
  sent : List Bytes := []
  drawn : List (Bytes × Bytes) := []

namespace Attempt

/-- `handler.sendPacket(PacketType.Init1, packet, 0)`. -/
def sendPacket (s : Attempt) (packet : Bytes) : Attempt := { s with sent := s.sent ++ [packet] }

/-- An error ends the attempt, unless it has connected. -/
def handleReceiveError (s : Attempt) : Attempt :=
  if s.connected then s else { s with aborted := true }

/-- Answer at once, if there is an answer. -/
def reply (s : Attempt) : Option Bytes → Attempt
  | none => s
  | some packet => s.sendPacket packet

/-- The challenge: answered as before, or solved if none is. -/
def buildInit1Step4Packet (s : Attempt) (data : Bytes) : Attempt :=
  if data.length ≠ 233 then s
  else
    match s.answeredChallenge with
    | some answered => s.reply (if answered.challenge = data then some answered.answer else none)
    | none =>
      if s.solvingChallenge.isSome then s
      else
        let level := readUint32BE data 129
        if level > maxRsaChallengeLevel then s.handleReceiveError
        else
          { s with
            solvingChallenge := some data
            solves := s.solves ++ [.solving data level] }

/-- `processInit1`, with its answer sent. -/
def processInit1 (s : Attempt) (data : Bytes) (nowSec : Nat) (rng : Bytes) : Attempt :=
  match data with
  | [] => s
  | step :: _ =>
    if step = 0x7f then s.sendPacket (buildInit1StartPacket nowSec rng)
    else if step = 0 then s.reply (buildInit1Step1Packet data)
    else if step = 1 then s.reply (buildInit1Step2Packet data)
    else if step = 2 then s.reply (buildInit1Step3Packet data)
    else if step = 3 then s.buildInit1Step4Packet data
    else s

/-- An Init1 packet arrives. -/
def handlePacket (s : Attempt) (data : Bytes) (nowSec : Nat) (rng : Bytes) : Attempt :=
  if s.crypt.cryptoInitComplete then s else s.processInit1 data nowSec rng

/-- The squarings of a solve are over: it draws alpha and keeps its answer, unless
there was no solution, or the signal was found aborted between two slices. -/
def finishSolve (s : Attempt) (i : Nat) (interrupted : Bool) (fresh : Alpha) : Attempt :=
  match s.solves[i]? with
  | some (.solving challenge level) =>
    match if interrupted ∧ s.aborted then .error .interrupted
        else solveRsaChallenge challenge 1 level with
    | .error e => { s with solves := s.solves.set i (.settled (.error e)) }
    | .ok y =>
      let answer := step4Answer s.publicKey challenge y fresh.val
      { s with
        alpha := fresh.val
        answeredChallenge := some { challenge, answer, level }
        solves := s.solves.set i (.settled (.ok answer))
        drawn := s.drawn ++ [(challenge, fresh.val)] }
  | _ => s

/-- The `finally` of a solve. -/
def releaseSolve (s : Attempt) (i : Nat) : Attempt :=
  match s.solves[i]? with
  | some (.settled result) =>
    { s with solvingChallenge := none, solves := s.solves.set i (.released result) }
  | _ => s

/-- The `then` of a solve. -/
def deliverSolve (s : Attempt) (i : Nat) : Attempt :=
  match s.solves[i]? with
  | some (.released result) =>
    let s := { s with solves := s.solves.set i .done }
    if s.aborted then s
    else
      match result with
      | .ok answer => s.sendPacket answer
      | .error _ => s.handleReceiveError
  | _ => s

variable (C : Cipher)

/-- `clientinitiv`: the keys derive from the alpha it names.  `checked` is that alpha,
its beta and the secret its key gave, if the key was valid. -/
def handleHandshakeInitIV (s : Attempt) (checked : Option (Bytes × Bytes × Bytes)) : Attempt :=
  if s.crypt.cryptoInitComplete then s
  else
    match checked.bind fun (alpha, beta, secret) => s.crypt.setSharedSecret C alpha beta secret with
    | none => s.handleReceiveError
    | some crypt => { s with crypt }

/-- `initivexpand2`: the keys derive from the client's own alpha.  `checked` is the
beta of a message whose proof and license held, with the secret they gave. -/
def handleHandshakeExpand2 (s : Attempt) (checked : Option (Bytes × Bytes)) : Attempt :=
  if s.crypt.cryptoInitComplete then s
  else if s.alpha.length = 0 then s.handleReceiveError
  else
    match checked.bind fun (beta, secret) => s.crypt.setSharedSecret C s.alpha beta secret with
    | none => s.handleReceiveError
    | some crypt => { s with crypt }

/-- `initserver` completes the attempt, once there are keys. -/
def handleInitServer (s : Attempt) : Attempt :=
  if s.crypt.cryptoInitComplete ∧ ¬s.aborted then { s with connected := true } else s

/-- What can happen to an attempt. -/
inductive Event
  | packet (data : Bytes) (nowSec : Nat) (rng : Bytes)
  | finish (solve : Nat) (interrupted : Bool) (fresh : Alpha)
  | release (solve : Nat)
  | deliver (solve : Nat)
  | initIV (checked : Option (Bytes × Bytes × Bytes))
  | expand2 (checked : Option (Bytes × Bytes))
  | initServer
  /-- The attempt fails or is abandoned for any other reason. -/
  | fail

def step (s : Attempt) : Event → Attempt
  | .packet data nowSec rng => s.handlePacket data nowSec rng
  | .finish i interrupted fresh => s.finishSolve i interrupted fresh
  | .release i => s.releaseSolve i
  | .deliver i => s.deliverSolve i
  | .initIV checked => s.handleHandshakeInitIV C checked
  | .expand2 checked => s.handleHandshakeExpand2 C checked
  | .initServer => s.handleInitServer
  | .fail => s.handleReceiveError

end Attempt

end Teamspeak.Client
