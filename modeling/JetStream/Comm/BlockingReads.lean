import JetStream.Comm.ConnectedSocket
import Mathlib.Data.List.TakeDrop

namespace JetStream

/-- The peer has closed the connection after these bytes, and each call receives at most one byte more than the next
of the sizes. -/
structure ClientSocket where
  bytes : List UInt8
  sizes : ℕ → ℕ

inductive ReadError where
  | structError
  | valueError
  | decodeError
  deriving DecidableEq

namespace ClientSocket

/-- At least one byte is received while there is one, and the empty string for ever after the last one. -/
def recv (sock : ClientSocket) (bufsize : ℤ) : Except ReadError (List UInt8 × ClientSocket) :=
  if bufsize < 0 then .error .valueError
  else if bufsize = 0 then .ok ([], sock)
  else
    let size := min bufsize.toNat (sock.sizes 0 + 1)
    .ok (sock.bytes.take size, ⟨sock.bytes.drop size, fun call => sock.sizes (call + 1)⟩)

/-- This is the format `!l`, which takes exactly four bytes. -/
def unpackLong : List UInt8 → Except ReadError ℤ
  | [a, b, c, d] => .ok (toInt32 (a.toNat * 2 ^ 24 + b.toNat * 2 ^ 16 + c.toNat * 2 ^ 8 + d.toNat))
  | _ => .error .structError

/-- The request has been sent, and the response is read with two calls. -/
def doRpc (sock : ClientSocket) (expectResponse : Bool) : Except ReadError (Option (List UInt8)) := do
  if expectResponse then
    let (pbframeLen, sock) ← sock.recv 4
    let unpackedLen ← unpackLong pbframeLen
    let (buf, _) ← sock.recv unpackedLen
    .ok (some buf)
  else .ok none

/-- The loop is still running when its fuel is used up. -/
def readLoop : ℕ → ClientSocket → ℤ → ℕ → List (List UInt8) → Option (Except ReadError (List (List UInt8)))
  | 0, _, _, _, _ => none
  | fuel + 1, sock, unpackedLen, recvedBytes, bufs =>
      if recvedBytes < unpackedLen then
        match sock.recv (unpackedLen - recvedBytes) with
        | .error error => some (.error error)
        | .ok (buf, sock) => readLoop fuel sock unpackedLen (recvedBytes + buf.length) (bufs ++ [buf])
      else some (.ok bufs)

variable {M : Type} (parse : List UInt8 → Except ReadError M)

/-- The generated class parses the joined buffers. -/
def sockReadDataPb (fuel : ℕ) (sock : ClientSocket) : Option (Except ReadError M) :=
  match sock.recv 4 with
  | .error error => some (.error error)
  | .ok (pbframeLen, sock) =>
      match unpackLong pbframeLen with
      | .error error => some (.error error)
      | .ok unpackedLen => (readLoop fuel sock unpackedLen 0 []).map fun bufs => bufs.bind fun bufs => parse bufs.flatten

/-- The length of a frame fits the signed header. -/
structure Frame where
  payload : List UInt8
  short : payload.length < 2 ^ 31

def Frame.bytes (frame : Frame) : List UInt8 := SerializedMessageOut.htonl frame.payload.length ++ frame.payload

/-- The peer closes the connection after this many bytes of the frame. -/
def closedAfter (frame : Frame) (sizes : ℕ → ℕ) (sent : ℕ) : ClientSocket := ⟨frame.bytes.take sent, sizes⟩

/-- A whole frame is returned whole, and a read ends wherever the connection is closed. -/
def BlockingReads (frame : Frame) (sizes : ℕ → ℕ) (sent : ℕ) : Prop :=
  (frame.bytes.length ≤ sent →
    (closedAfter frame sizes sent).doRpc true = .ok (some frame.payload) ∧
      ∃ fuel, sockReadDataPb parse fuel (closedAfter frame sizes sent) = some (parse frame.payload)) ∧
  ∃ fuel, (sockReadDataPb parse fuel (closedAfter frame sizes sent)).isSome

section Recv

variable {bytes : List UInt8} {sizes : ℕ → ℕ}

theorem recv_pos {count : ℕ} (positive : 0 < count) :
    recv ⟨bytes, sizes⟩ count = .ok (bytes.take (min count (sizes 0 + 1)),
      ⟨bytes.drop (min count (sizes 0 + 1)), fun call => sizes (call + 1)⟩) := by
  rw [recv, if_neg (by omega), if_neg (by omega), Int.toNat_natCast]

/-- A call for no bytes at all returns as well. -/
theorem exists_recv (count : ℕ) :
    ∃ rest, recv ⟨bytes, sizes⟩ count = .ok (bytes.take (min count (sizes 0 + 1)), rest) := by
  rcases Nat.eq_zero_or_pos count with rfl | positive
  · refine ⟨⟨bytes, sizes⟩, ?_⟩
    rw [Nat.zero_min, List.take_zero]
    rfl
  · exact ⟨_, recv_pos positive⟩

theorem unpackLong_htonl {len : ℕ} (short : len < 2 ^ 31) :
    unpackLong (SerializedMessageOut.htonl len) = .ok len := by
  have joined : (UInt8.ofNat (len / 2 ^ 24)).toNat * 2 ^ 24 + (UInt8.ofNat (len / 2 ^ 16)).toNat * 2 ^ 16 +
      (UInt8.ofNat (len / 2 ^ 8)).toNat * 2 ^ 8 + (UInt8.ofNat len).toNat = len := by
    simp only [UInt8.toNat_ofNat']
    omega
  rw [SerializedMessageOut.htonl, unpackLong, joined, toInt32_eq short]

theorem unpackLong_error {buf : List UInt8} (other : buf.length ≠ 4) : unpackLong buf = .error .structError := by
  unfold unpackLong
  split
  · exact absurd rfl other
  · rfl

/-- The loop collects the bytes that are left of the frame. -/
theorem readLoop_eq {len recved : ℕ} (bufs : List (List UInt8)) (enough : len ≤ recved + bytes.length) :
    ∃ fuel all, readLoop fuel ⟨bytes, sizes⟩ len recved bufs = some (.ok all) ∧
      all.flatten = bufs.flatten ++ bytes.take (len - recved) := by
  induction missing : len - recved using Nat.strong_induction_on generalizing bytes sizes recved bufs with
  | _ missing ih =>
      subst missing
      by_cases complete : len ≤ recved
      · refine ⟨1, bufs, ?_, ?_⟩
        · rw [readLoop, if_neg (by omega)]
        · rw [Nat.sub_eq_zero_of_le complete, List.take_zero, List.append_nil]
      · obtain ⟨size, sized⟩ : ∃ size, size = min (len - recved) (sizes 0 + 1) := ⟨_, rfl⟩
        have received : (bytes.take size).length = size := by
          rw [List.length_take]
          omega
        have room : len ≤ recved + (bytes.take size).length + (bytes.drop size).length := by
          rw [received, List.length_drop]
          omega
        have fewer : len - (recved + (bytes.take size).length) < len - recved := by omega
        obtain ⟨fuel, all, ran, joined⟩ := @ih _ fewer (bytes.drop size) (fun call => sizes (call + 1)) _
          (bufs ++ [bytes.take size]) room rfl
        refine ⟨fuel + 1, all, ?_, ?_⟩
        · have left : ((len : ℤ) - recved) = (len - recved : ℕ) := by omega
          rw [readLoop, if_pos (by omega), left, recv_pos (by omega), ← sized]
          exact ran
        · rw [joined, received, List.flatten_append, List.flatten_singleton, List.append_assoc]
          congr 1
          rw [show len - recved = size + (len - (recved + size)) by omega, List.take_add]

/-- The loop receives nothing for ever when the frame was cut off. -/
theorem readLoop_running {len recved : ℕ} (bufs : List (List UInt8)) (cut : recved + bytes.length < len) (fuel : ℕ) :
    readLoop fuel ⟨bytes, sizes⟩ len recved bufs = none := by
  induction fuel generalizing bytes sizes recved bufs with
  | zero => rfl
  | succ fuel ih =>
      have left : ((len : ℤ) - recved) = (len - recved : ℕ) := by omega
      rw [readLoop, if_pos (by omega), left, recv_pos (by omega)]
      apply ih
      rw [List.length_take, List.length_drop]
      omega

end Recv

section Frame

variable {parse} {frame : Frame} {sizes : ℕ → ℕ} {sent : ℕ}

theorem length_htonl (len : ℕ) : (SerializedMessageOut.htonl len).length = 4 := rfl

theorem length_bytes (frame : Frame) : frame.bytes.length = 4 + frame.payload.length := by
  rw [Frame.bytes, List.length_append, length_htonl]

/-- The header is received with one call that takes all of it. -/
theorem recv_header (header : 4 ≤ sizes 0 + 1) (enough : 4 ≤ sent) :
    (closedAfter frame sizes sent).recv 4 = .ok (SerializedMessageOut.htonl frame.payload.length,
      ⟨frame.payload.take (sent - 4), fun call => sizes (call + 1)⟩) := by
  have received := @recv_pos (frame.bytes.take sent) sizes 4 (by omega)
  rw [Nat.min_eq_left header, List.take_take, Nat.min_eq_left enough, List.drop_take, Frame.bytes,
    List.take_left' (length_htonl _), List.drop_left' (length_htonl _)] at received
  exact received

/-- A header that is cut off or split is refused. -/
theorem recv_header_error (frame : Frame) (split : sizes 0 + 1 < 4 ∨ sent < 4) :
    ∃ buf rest, (closedAfter frame sizes sent).recv 4 = .ok (buf, rest) ∧ unpackLong buf = .error .structError := by
  refine ⟨_, _, @recv_pos (frame.bytes.take sent) sizes 4 (by omega), unpackLong_error ?_⟩
  rw [List.length_take, List.length_take]
  omega

theorem doRpc_of_recv {sock next last : ClientSocket} {pbframeLen buf : List UInt8} {unpackedLen : ℤ}
    (header : sock.recv 4 = .ok (pbframeLen, next)) (unpacked : unpackLong pbframeLen = .ok unpackedLen)
    (body : next.recv unpackedLen = .ok (buf, last)) : sock.doRpc true = .ok (some buf) := by
  simp only [doRpc, header, unpacked, body, bind, Except.bind, if_true]

theorem doRpc_eq (header : 4 ≤ sizes 0 + 1) (enough : 4 ≤ sent) :
    (closedAfter frame sizes sent).doRpc true =
      .ok (some ((frame.payload.take (sent - 4)).take (min frame.payload.length (sizes 1 + 1)))) := by
  obtain ⟨rest, received⟩ := @exists_recv (frame.payload.take (sent - 4)) (fun call => sizes (call + 1))
    frame.payload.length
  exact doRpc_of_recv (recv_header header enough) (unpackLong_htonl frame.short) received

theorem doRpc_error (split : sizes 0 + 1 < 4 ∨ sent < 4) :
    (closedAfter frame sizes sent).doRpc true = .error .structError := by
  obtain ⟨buf, rest, received, refused⟩ := recv_header_error frame split
  simp only [doRpc, received, refused, bind, Except.bind, if_true]

theorem sockReadDataPb_eq (header : 4 ≤ sizes 0 + 1) (enough : 4 ≤ sent) (fuel : ℕ) :
    sockReadDataPb parse fuel (closedAfter frame sizes sent) =
      (readLoop fuel ⟨frame.payload.take (sent - 4), fun call => sizes (call + 1)⟩ frame.payload.length 0 []).map
        fun bufs => bufs.bind fun bufs => parse bufs.flatten := by
  simp only [sockReadDataPb, recv_header header enough, unpackLong_htonl frame.short]

theorem sockReadDataPb_error (split : sizes 0 + 1 < 4 ∨ sent < 4) (fuel : ℕ) :
    sockReadDataPb parse fuel (closedAfter frame sizes sent) = some (.error .structError) := by
  obtain ⟨buf, rest, received, refused⟩ := recv_header_error frame split
  simp only [sockReadDataPb, received, refused]

/-- The loop of a read ends when the frame comes whole. -/
theorem sockReadDataPb_whole (header : 4 ≤ sizes 0 + 1) (whole : frame.bytes.length ≤ sent) :
    ∃ fuel, sockReadDataPb parse fuel (closedAfter frame sizes sent) = some (parse frame.payload) := by
  rw [length_bytes] at whole
  have all : frame.payload.take (sent - 4) = frame.payload := List.take_of_length_le (by omega)
  obtain ⟨fuel, bufs, ran, joined⟩ := @readLoop_eq frame.payload (fun call => sizes (call + 1)) frame.payload.length 0 []
    (by omega)
  refine ⟨fuel, ?_⟩
  rw [sockReadDataPb_eq header (by omega), all, ran, Option.map_some, Except.bind, joined, List.flatten_nil,
    List.nil_append, Nat.sub_zero, List.take_length]

/-- The loop of a read does not end when the payload is cut off. -/
theorem sockReadDataPb_cut (header : 4 ≤ sizes 0 + 1) (enough : 4 ≤ sent) (cut : sent < frame.bytes.length)
    (fuel : ℕ) : sockReadDataPb parse fuel (closedAfter frame sizes sent) = none := by
  rw [length_bytes] at cut
  rw [sockReadDataPb_eq header enough, readLoop_running, Option.map_none]
  rw [List.length_take]
  omega

end Frame

/-- The reads do what they are for exactly when a whole frame has its header come with the first call and its payload
with the second one, and a connection that is closed within the payload does not have the header come whole. -/
theorem blockingReads_iff (frame : Frame) (sizes : ℕ → ℕ) (sent : ℕ) :
    BlockingReads parse frame sizes sent ↔
      (frame.bytes.length ≤ sent → 4 ≤ sizes 0 + 1 ∧ frame.payload.length ≤ sizes 1 + 1) ∧
        (4 ≤ sent → sent < frame.bytes.length → sizes 0 + 1 < 4) := by
  have counted := length_bytes frame
  by_cases header : 4 ≤ sizes 0 + 1 ∧ 4 ≤ sent
  · obtain ⟨header, enough⟩ := header
    rcases Nat.lt_or_ge sent frame.bytes.length with cut | whole
    · refine iff_of_false ?_ fun both => absurd (both.2 enough cut) (by omega)
      rintro ⟨-, fuel, ended⟩
      rw [sockReadDataPb_cut header enough cut] at ended
      contradiction
    · have all : frame.payload.take (sent - 4) = frame.payload := List.take_of_length_le (by omega)
      obtain ⟨fuel, ended⟩ : ∃ fuel, sockReadDataPb parse fuel (closedAfter frame sizes sent) =
          some (parse frame.payload) := sockReadDataPb_whole header whole
      have returned : (closedAfter frame sizes sent).doRpc true = .ok (some frame.payload) ↔
          frame.payload.length ≤ sizes 1 + 1 := by
        rw [doRpc_eq header enough, all, Except.ok.injEq, Option.some.injEq, List.take_eq_self_iff]
        omega
      constructor
      · rintro ⟨reads, -⟩
        exact ⟨fun _ => ⟨header, returned.mp (reads whole).1⟩, fun _ cut => absurd whole (by omega)⟩
      · rintro ⟨room, -⟩
        exact ⟨fun _ => ⟨returned.mpr (room whole).2, fuel, ended⟩, fuel, by rw [ended, Option.isSome_some]⟩
  · have split : sizes 0 + 1 < 4 ∨ sent < 4 := by omega
    constructor
    · rintro ⟨reads, -⟩
      refine ⟨fun whole => ?_, fun enough _ => by omega⟩
      rw [doRpc_error split] at reads
      exact absurd (reads whole).1 nofun
    · rintro ⟨room, -⟩
      refine ⟨fun whole => absurd (room whole).1 (by omega), 0, ?_⟩
      rw [sockReadDataPb_error split, Option.isSome_some]

/-- This frame has a payload of one byte. -/
def oneByte : Frame := ⟨[7], by decide⟩

/-- A split header ends the response with an error, and a close after the header is never noticed. -/
theorem not_blockingReads_oneByte :
    (closedAfter oneByte (fun _ => 0) 5).doRpc true = .error .structError ∧
      (∀ fuel, sockReadDataPb Except.ok fuel (closedAfter oneByte (fun _ => 3) 4) = none) ∧
      ¬ BlockingReads Except.ok oneByte (fun _ => 0) 5 ∧ ¬ BlockingReads Except.ok oneByte (fun _ => 3) 4 := by
  have split : (closedAfter oneByte (fun _ => 0) 5).doRpc true = .error .structError :=
    doRpc_error (Or.inl (by decide))
  have endless (fuel : ℕ) : sockReadDataPb Except.ok fuel (closedAfter oneByte (fun _ => 3) 4) = none :=
    sockReadDataPb_cut le_rfl le_rfl (by decide) fuel
  refine ⟨split, endless, ?_, ?_⟩
  · rintro ⟨reads, -⟩
    rw [split] at reads
    exact absurd (reads (by decide)).1 nofun
  · rintro ⟨-, fuel, ended⟩
    rw [endless fuel] at ended
    contradiction

end ClientSocket

end JetStream
