import UserDirectory.Accepting
import UserDirectory.Downloads

/-!
# Making sockets

`connect_to_server` and `create_server_socket` (`common/net.cc`), and the
cleanups of `common/contextmanager.h`.

* `createServerSocket_descriptors`: a listening socket is left open if it can be
  used, and otherwise everything is closed again.
-/

namespace UserDirectory

open Socket Descriptors

/-- The error of a bad descriptor. -/
def EBADF : Errno := .other 9

/-- `htons`, of the low 16 bits of a number -/
def htons (port : ℤ) : UInt16 := UInt16.ofNat (port % 2 ^ 16).toNat

/-- A cleanup that runs when its scope is left, unless it is disabled. -/
structure ContextManager (σ : Type) where
  action : σ → σ
  enabled : Bool

namespace ContextManager

variable {σ : Type}

def new (a : σ → σ) : ContextManager σ := ⟨a, true⟩

def disable (cm : ContextManager σ) : ContextManager σ := { cm with enabled := false }

/-- The scope is left. -/
def exit (cm : ContextManager σ) (s : σ) : σ := if cm.enabled then cm.action s else s

@[simp] theorem exit_new (a : σ → σ) (s : σ) : (new a).exit s = a s := rfl

@[simp] theorem exit_disable (cm : ContextManager σ) (s : σ) : cm.disable.exit s = s := rfl

end ContextManager

/-! ## The client -/

/-- What becomes of a connection: the name of the server is unknown, or a call fails, or the
    client is connected. -/
inductive Connecting
  | dnsError (hstrerror : Bytes)
  | socketError (e : Errno)
  | connectError (e : Errno)
  | connected (conn : Conn)

/-- The descriptor `-1`: every call fails. -/
def badConn : Conn := ⟨[.fail EBADF], [.fail EBADF], EBADF, [], []⟩

/-- Connect to a server: the client with its connection, which is bad if it could not be made. -/
def connectToServer (connecting : Bytes → UInt16 → Connecting) (strerror : Errno → Bytes)
    (hostname : Bytes) (port : ℤ) (t : Terminal) : Terminal :=
  match connecting (cStr hostname) (htons port) with
  | .dnsError msg =>
    { t.printLine (ascii "connect_to_server():DNS error:" ++ msg) with conn := badConn }
  | .socketError e =>
    { t.printLine (ascii "Error making client socket: " ++ strerror e) with conn := badConn }
  | .connectError e =>
    { t.printLine (ascii "Error connecting socket to address: " ++ strerror e) with
      conn := badConn }
  | .connected conn => { t with conn := conn }

/-! ## The server -/

/-- The outcomes of the calls that make a listening socket. -/
structure Listening where
  socket : Except Errno ℤ
  setsockopt : Option Errno
  bind : UInt16 → Option Errno
  listen : Option Errno

/-- The listening socket, if no call fails. -/
def Listening.made (k : Listening) (port : UInt16) : Option ℤ :=
  match k.socket with
  | .error _ => none
  | .ok sd => if k.setsockopt = none ∧ k.bind port = none ∧ k.listen = none then some sd else none

section CreateServerSocket

variable {ι σ : Type}

/-- Create a server socket: its descriptor, or `-1` on error. -/
def createServerSocket (k : Listening) (strerror : Errno → Bytes) (port : ℕ)
    (l : Listener ι σ) : ℤ × Listener ι σ :=
  match k.socket with
  | .error e => (-1, l.print (ascii "Error making server socket: " ++ strerror e ++ newline))
  | .ok sd =>
    let l := l.log (.opened sd)
    let cs := ContextManager.new (Listener.log (.closed sd))
    match k.setsockopt with
    | some e =>
      (-1, cs.exit (l.print (ascii "setsockopt(SO_REUSEADDR) failed: " ++ strerror e ++ newline)))
    | none =>
      match k.bind (htons port) with
      | some e =>
        (-1, cs.exit
          (l.print (ascii "Error binding socket to local address: " ++ strerror e ++ newline)))
      | none =>
        match k.listen with
        | some e =>
          (-1, cs.exit (l.print (ascii "Error listening on socket: " ++ strerror e ++ newline)))
        | none => (sd, cs.disable.exit l)

variable {k : Listening} {strerror : Errno → Bytes} {port : ℕ} {l : Listener ι σ}

/-- The descriptor, and what stays as it is. -/
theorem createServerSocket_eq : (createServerSocket k strerror port l).1 =
      (k.made (htons port)).getD (-1) ∧
    (createServerSocket k strerror port l).2.served = l.served ∧
    (createServerSocket k strerror port l).2.state = l.state := by
  rw [createServerSocket, Listening.made]
  rcases k.socket with e | sd
  · exact ⟨rfl, rfl, rfl⟩
  rcases k.setsockopt with _ | e
  · rcases k.bind (htons port) with _ | e
    · rcases k.listen with _ | e
      · exact ⟨rfl, rfl, rfl⟩
      · simp [Listener.log, Listener.print]
    · simp [Listener.log, Listener.print]
  · simp [Listener.log, Listener.print]

/-- The socket is left open only if it can be used. -/
theorem createServerSocket_descriptors {fds₀ fds : Finset ℤ}
    (hnew : ∀ sd, k.socket = .ok sd → sd ∉ fds) (hl : after fds₀ l.events = some fds) :
    after fds₀ (createServerSocket k strerror port l).2.events =
      some (((k.made (htons port)).map fun sd => insert sd fds).getD fds) := by
  rw [createServerSocket, Listening.made]
  rcases hsocket : k.socket with e | sd
  · exact hl
  have hsd := hnew sd hsocket
  -- An error closes the socket again.
  have hscope : after fds₀ (l.events ++ [.opened sd] ++ [.closed sd]) = some fds := by
    rw [List.append_assoc, after_append, hl, Option.bind_some]
    exact @after_scope _ _ fds sd [] hsd rfl
  have hopen : after fds₀ (l.events ++ [.opened sd]) = some (insert sd fds) := by
    rw [after_append, hl, Option.bind_some, after_opened hsd, after_nil]
  rcases k.setsockopt with _ | e
  · rcases k.bind (htons port) with _ | e
    · rcases k.listen with _ | e
      · exact hopen
      · simpa [Listener.log, Listener.print] using hscope
    · simpa [Listener.log, Listener.print] using hscope
  · simpa [Listener.log, Listener.print] using hscope

end CreateServerSocket

end UserDirectory
