import TensorDE.Dbus.Wire

namespace TensorDE.Dbus

open Effect Bytes List

/-- A byte on the stream with the descriptors that travel with it. -/
structure Cell where
  byte : UInt8
  fds : List Fd
deriving DecidableEq

/-- What one `recvmsg` can return at most: never nothing. -/
structure Piece where
  first : Cell
  more : List Cell
deriving DecidableEq

def Piece.cells (piece : Piece) : List Cell := piece.first :: piece.more

def cellsOf (incoming : List Piece) : List Cell := incoming.flatMap Piece.cells

def bytesOf (cells : List Cell) : Bytes := cells.map (·.byte)

def fdsOf (cells : List Cell) : List Fd := cells.flatMap (·.fds)

/-- The socket: the pieces still to come, whether they end in a failure or at
the end of the stream, how many writes still succeed, and what was written. -/
structure Channel where
  incoming : List Piece
  broken : Bool
  writesLeft : Nat
  sent : Bytes
deriving DecidableEq

variable (channel : Channel)

def Channel.cells : List Cell := cellsOf channel.incoming

def Channel.bytes : Bytes := bytesOf channel.cells

/-- A piece that was only read in part stays in front. -/
def keep : List Cell → List Piece → List Piece
  | [], rest => rest
  | cell :: more, rest => ⟨cell, more⟩ :: rest

variable (capacity : Nat)

def recv : List Piece → List Cell × List Piece
  | [] => ([], [])
  | piece :: rest => (piece.cells.take capacity, keep (piece.cells.drop capacity) rest)

/-- One `recvmsg` with the descriptors it brings; no bytes mean the end of the stream. -/
def receive (unixFds : List Fd) : Op Channel Error (Bytes × List Fd) := do
  let channel ← get
  let cells := (recv capacity channel.incoming).1
  if cells = [] ∧ channel.broken then fail (.io "recvmsg")
  else do
    set { channel with incoming := (recv capacity channel.incoming).2 }
    let count := unixFds.length + (fdsOf cells).length
    if count > maxUnixFds then fail (.unixFdLimit count maxUnixFds)
    else pure (bytesOf cells, unixFds ++ fdsOf cells)

def writeAll (buffer : Bytes) : Op Channel Error Unit := do
  let channel ← get
  match channel.writesLeft with
  | 0 => fail (.io "write")
  | left + 1 => set { channel with writesLeft := left, sent := channel.sent ++ buffer }

theorem cellsOf_keep (cells : List Cell) (rest : List Piece) : cellsOf (keep cells rest) = cells ++ cellsOf rest := by
  cases cells <;> simp [keep, cellsOf, Piece.cells]

variable (capacity : Nat) (incoming : List Piece)

theorem recv_split : cellsOf incoming = (recv capacity incoming).1 ++ cellsOf (recv capacity incoming).2 := by
  cases incoming with
  | nil => rfl
  | cons piece rest =>
    rw [recv, cellsOf_keep, ← append_assoc, take_append_drop]
    rfl

theorem recv_length_le : (recv capacity incoming).1.length ≤ capacity := by
  cases incoming with
  | nil => exact Nat.zero_le _
  | cons piece rest =>
    rw [recv, length_take]
    exact Nat.min_le_left _ _

variable {capacity : Nat}

theorem recv_ne_nil (hc : 0 < capacity) {incoming : List Piece} (h : cellsOf incoming ≠ []) :
    (recv capacity incoming).1 ≠ [] := by
  cases incoming with
  | nil => exact absurd rfl h
  | cons piece rest =>
    obtain ⟨n, rfl⟩ := Nat.exists_eq_succ_of_ne_zero (Nat.ne_of_gt hc)
    simp [recv, Piece.cells]

variable {unixFds : List Fd}

theorem receive_eq_ok {channel channel' : Channel} {got : Bytes × List Fd}
    (h : receive capacity unixFds channel = .ok got channel') :
    ∃ cells, channel.cells = cells ++ channel'.cells ∧ cells.length ≤ capacity ∧ got.1 = bytesOf cells ∧
      got.2 = unixFds ++ fdsOf cells := by
  by_cases hbroken : (recv capacity channel.incoming).1 = [] ∧ channel.broken
  · simp [receive, hbroken] at h
  by_cases hcount : unixFds.length + (fdsOf (recv capacity channel.incoming).1).length > maxUnixFds
  · simp [receive, hbroken, hcount] at h
  simp only [receive, bind_run, get_run, if_neg hbroken, if_neg hcount] at h
  cases h
  exact ⟨_, recv_split capacity channel.incoming, recv_length_le capacity channel.incoming, rfl, rfl⟩

theorem fdsOf_append (cells more : List Cell) : fdsOf (cells ++ more) = fdsOf cells ++ fdsOf more :=
  flatMap_append

theorem bytesOf_append (cells more : List Cell) : bytesOf (cells ++ more) = bytesOf cells ++ bytesOf more :=
  map_append

theorem receive_run (hc : 0 < capacity) {channel : Channel} (hcells : channel.cells ≠ [])
    (hfds : unixFds.length + (fdsOf (channel.cells.take capacity)).length ≤ maxUnixFds) :
    ∃ cells channel', receive capacity unixFds channel = .ok (bytesOf cells, unixFds ++ fdsOf cells) channel' ∧
      channel.cells = cells ++ channel'.cells ∧ cells ≠ [] ∧ cells.length ≤ capacity := by
  have hne := recv_ne_nil hc hcells
  have hsplit : channel.cells = _ := recv_split capacity channel.incoming
  have hlen := recv_length_le capacity channel.incoming
  have hle : (fdsOf (recv capacity channel.incoming).1).length ≤ (fdsOf (channel.cells.take capacity)).length := by
    rw [hsplit, take_append, take_of_length_le hlen, fdsOf_append, length_append]
    omega
  have hcount : ¬ unixFds.length + (fdsOf (recv capacity channel.incoming).1).length > maxUnixFds := by omega
  refine ⟨_, { channel with incoming := (recv capacity channel.incoming).2 }, ?_, hsplit, hne, hlen⟩
  simp [receive, hne, hcount]

end TensorDE.Dbus
